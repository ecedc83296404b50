import ScriptCore.Session.Call

/-!
# Statements

How sequences, blocks, loops, `try` statements and case constructs are run. Each step is followed
by a look at the pending signals and exceptions: as soon as there is one the statements stop, and
the scope that owns it decides what happens next.

The way a node is evaluated is a parameter, so what is said here holds for any node language.
-/

namespace ScriptCore.Session

variable (ev : Evaluator)

/-- Evaluate a node. A fault that scripts can catch is thrown, and the value is null then. -/
def evaluate (node : Node) (scope : ScopeId) : Run Value := do
  match ← Run.outcome (ev node scope) with
  | .ok v => return v
  | .error (.fault fault) =>
    raise scope fault
    return .null
  | .error .exhausted => throw .exhausted

/-- Evaluate nodes in order. -/
def evaluateAll (nodes : List Node) (scope : ScopeId) : Run (List Value) :=
  nodes.mapM fun node => evaluate ev node scope

/-- Run statements until one leaves a signal or an exception pending. The value is that of the
last statement run, and `last` if there is none. -/
def sequenceFrom (scope : ScopeId) (last : Value) : List Node → Run Value
  | [] => return last
  | statement :: rest => do
    let value ← evaluate ev statement scope
    if ← halted scope then return value
    sequenceFrom scope value rest

/-- Run statements in a scope. -/
def executeSequence (scope : ScopeId) (body : List Node) : Run Value :=
  sequenceFrom ev scope .null body

/-- Run statements in a new block. -/
def executeBlock (scope : ScopeId) (body : List Node) : Run Value :=
  inScope .block scope fun block => executeSequence ev block body

/-! ## Loops -/

/-- Whether a loop goes on: its condition holds, or it has none. -/
def continues (condition : Option Node) (scope : ScopeId) : Run Bool := do
  match condition with
  | none => return true
  | some condition =>
    let value ← evaluate ev condition scope
    return !(← halted scope) && value.isTruthy

/-- Run the body of a loop once, and say whether the loop goes on after it: it ends on a break, an
exception, or a signal meant for a scope further out. -/
def iterate (scope : ScopeId) (body : List Node) : Run Bool := do
  let _ ← executeBlock ev scope body
  let flags ← Run.ofExcept ((← get).arena.loopFlags scope)
  if flags.broken || (← Run.scopes (·.hasException scope)) then return false
  if flags.paused then Run.modifyScopes fun a => a.resumeLoop scope
  return !(← Run.scopes (·.interrupted scope))

/-- Run the update of a loop, and say whether the loop goes on. -/
def update (action : Option Node) (scope : ScopeId) : Run Bool := do
  match action with
  | none => return true
  | some action =>
    let _ ← evaluate ev action scope
    return !(← halted scope)

/-- Run the iterations of a loop, at most `rounds` of them. -/
def runLoop (scope : ScopeId) (condition action : Option Node) (body : List Node) :
    (rounds : Nat) → Run Unit
  | 0 => throw .exhausted
  | rounds + 1 => do
    if ← continues ev condition scope then
      if ← iterate ev scope body then
        if ← update ev action scope then
          runLoop scope condition action body rounds

/-- Run a loop. -/
def executeLoop (rounds : Nat) (scope : ScopeId) (title : Option String)
    (condition action : Option Node) (body : List Node) : Run Unit :=
  inScope (.loop title {}) scope fun loop => runLoop ev loop condition action body rounds

/-! ## Exceptions -/

/-- Run the body of a `try` statement and take the exception it leaves. The exception is taken
however the body ends. -/
def runGuarded (scope : ScopeId) (body : List Node) : Run (Option Pending) :=
  inScope (.attempt none) scope fun guarded => do
    let result ← Run.outcome (executeSequence ev guarded body)
    let pending ← Run.takeScopes (·.takeException guarded)
    let _ ← Run.ofOutcome result
    return pending

/-- Hand an exception to the handler of a `try` statement, or throw it on if there is none. -/
def handle (scope : ScopeId) (handler : Option (String × List Node)) (pending : Pending) :
    Run Unit := do
  match handler with
  | some (name, body) =>
    let _ ← inScope .block scope fun block => do
      defineVar block name pending.value
      executeSequence ev block body
  | none => Run.modifyScopes fun a => a.throwException scope pending

/-- Run a final block with the pending control state set aside. -/
def runFinal (scope : ScopeId) (body : List Node) : Run Unit := do
  modify fun s => { s with arena := s.arena.suspendControl scope }
  let result ← Run.outcome (executeBlock ev scope body)
  modify fun s => { s with arena := s.arena.restoreControl }
  let _ ← Run.ofOutcome result

/-- Run a `try` statement. -/
def executeTry (scope : ScopeId) (body : List Node) (handler : Option (String × List Node))
    (final : Option (List Node)) : Run Unit := do
  if let some pending ← runGuarded ev scope body then handle ev scope handler pending
  if let some final := final then runFinal ev scope final

/-! ## Case constructs -/

/-- The arms of a case construct from the one to run on: the first whose pattern equals the
subject, or else the default. There is none if nothing matches, or if evaluating a pattern leaves
a signal or an exception pending. -/
def selectArms (scope : ScopeId) (subject : Value) (default : List Arm) :
    List Arm → Run (List Arm)
  | [] => return default
  | (none, body) :: rest =>
    selectArms scope subject (if default.isEmpty then (none, body) :: rest else default) rest
  | (some pattern, body) :: rest => do
    let value ← evaluate ev pattern scope
    if ← halted scope then return []
    if value.equals subject then return (some pattern, body) :: rest
    selectArms scope subject default rest

/-- Take the value of a case construct. -/
def takeYield (scope : ScopeId) : Run (Option Value) := do
  let (value, arena) ← Run.ofExcept ((← get).arena.takeYield scope)
  modify fun s => { s with arena }
  return value

/-- Take the fallthrough flag of a case construct. -/
def takeFallthrough (scope : ScopeId) : Run Bool := do
  let (flag, arena) ← Run.ofExcept ((← get).arena.takeFallthrough scope)
  modify fun s => { s with arena }
  return flag

/-- Run the first arm, and the next one as long as an arm falls through. -/
def runArms (scope : ScopeId) : List Arm → Run (Option Value)
  | [] => return none
  | (_, body) :: rest => do
    let _ ← executeBlock ev scope body
    if let some value ← takeYield scope then return some value
    let fellThrough ← takeFallthrough scope
    if fellThrough && !(← halted scope) then runArms scope rest else return none

/-- Run a case construct and give the value it yields. -/
def executeCase (scope : ScopeId) (subject : Value) (arms : List Arm) : Run (Option Value) :=
  inScope (.select {}) scope fun case_ => do
    runArms ev case_ (← selectArms ev case_ subject [] arms)

end ScriptCore.Session
