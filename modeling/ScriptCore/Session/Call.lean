import ScriptCore.Session.Scopes

/-!
# Calls

A call makes an activation scope inside the scope the function was made in, remembers the scope it
was called from, and runs the body with the parameters bound. Its value is what the body returns.

The way a node is evaluated is a parameter here: a call needs it for the body of a script
function, and the host function that calls back needs it in turn.
-/

namespace ScriptCore

/-- A way to evaluate a node in a scope. -/
abbrev Evaluator := Node → ScopeId → Run Value

namespace Session

/-- The callable object behind a value. -/
def callableOf (callee : Value) : Run Callable := do
  match callee.reference? with
  | none => Run.fail (.notCallable callee.typeName)
  | some r =>
    match (← Run.memory (·.header r)).data with
    | .callable c => return c
    | other => Run.fail (.notCallable other.kindName)

/-- The integer that a value is. -/
def asInt (v : Value) : Run Int64 :=
  match v.int? with
  | some n => return n
  | none => Run.fail (.typeError "int" v.typeName)

/-- The object that a value refers to. -/
def asRef (v : Value) : Run Ref :=
  match v.reference? with
  | some r => return r
  | none => Run.fail (.typeError "reference" v.typeName)

/-- Bind the receiver and the parameters in an activation. -/
def bindParameters (c : Callable) (activation : ScopeId) (args : List Value) : Run Unit := do
  if let some this := c.this then defineVar activation thisName (.ref this)
  (c.params.zip args).forM fun (param, arg) => defineVar activation param arg

/-- Enter a call on the stack. -/
def pushFrame (frame : Frame) : Run Unit := do
  let stack ← Run.ofExcept ((← get).stack.push frame)
  modify fun s => { s with stack }

/-- Leave the innermost call. -/
def popFrame : Run (Option Frame) :=
  modifyGet fun s =>
    let (frame, stack) := s.stack.pop
    (frame, { s with stack })

/-- The scope state of an activation called from `caller`. -/
def activationState (c : Callable) (caller : ScopeId) : ScopeState :=
  match c.this with
  | some this => .method (some caller) {} this
  | none => .function (some caller) {}

/-- Call `callee` from the scope `caller`. The body is run by `body`. -/
def callWith (body : Callable → ScopeId → List Value → Run Value) (callee : Value)
    (args : List Value) (caller : ScopeId) (site : Position) : Run Value := do
  let c ← callableOf callee
  if args.length ≠ c.params.length then
    Run.fail (.argumentCountMismatch c.name c.params.length args.length)
  let outer := c.closure.getD (← get).arena.global
  let activation ← createScope (activationState c caller) (some outer)
  pushFrame ⟨c.name, activation, site⟩
  let result ← Run.outcome do
    bindParameters c activation args
    body c activation args
  let _ ← popFrame
  let value ← Run.ofOutcome result
  return (← Run.takeScopes (·.takeReturn activation)).getD value

/-- Run a host function in an activation. Where it calls a function, `call` does so. -/
def runHost (call : Value → List Value → ScopeId → Position → Run Value) (f : HostFunction)
    (activation : ScopeId) (args : List Value) : Run Value := do
  let first := args.headD .null
  match f with
  | .double => return .int ((← asInt first) * 2)
  | .echo => return first
  | .sum => return .int (← args.foldlM (fun total arg => return total + (← asInt arg)) 0)
  | .add =>
    let total ← asInt (← lookup activation "total")
    let amount ← asInt first
    assign activation "total" (.int (total + amount))
    return .null
  | .len =>
    let r ← asRef first
    return .int (Int64.ofNat (← Run.memory (·.arrayLength r)))
  | .throws =>
    throwValue activation first
    return .int (-1)
  | .returns =>
    Run.modifyScopes fun a => a.setReturn activation first
    return .int (-1)
  | .collect => return .int (Int64.ofNat (← collectFrom none).freedObjects)
  | .apply => call first args.tail activation ⟨7, 7⟩

/-- Run the body of a callable object. A script function gives null unless it returns. -/
def runBody (ev : Evaluator) (call : Value → List Value → ScopeId → Position → Run Value)
    (c : Callable) (activation : ScopeId) (args : List Value) : Run Value := do
  match c.body with
  | .script body =>
    let _ ← ev body activation
    return .null
  | .host f => runHost call f activation args

/-- Call a function, where host functions may call back at most `bound - 1` deep. -/
def callBounded (ev : Evaluator) : (bound : Nat) → Value → List Value → ScopeId → Position →
    Run Value
  | 0, _, _, _, _ => throw .exhausted
  | bound + 1, callee, args, caller, site =>
    callWith (runBody ev (callBounded ev bound)) callee args caller site

/-- Call `callee` from the scope `caller`. A host function that calls back hands on fewer arguments
than it was given, or null to call, so the bound is never reached. -/
def call (ev : Evaluator) (callee : Value) (args : List Value) (caller : ScopeId)
    (site : Position) : Run Value :=
  callBounded ev (args.length + 2) callee args caller site

end Session

end ScriptCore
