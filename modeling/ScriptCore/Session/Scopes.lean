import ScriptCore.Session.Allocate

/-!
# Scopes and names in a session

Entering and leaving scopes, names, imports, and raising signals and exceptions. A scope is in
use from the moment it is entered until it is left.
-/

namespace ScriptCore.Session

/-! ## Entering and leaving -/

/-- Make a scope and enter it. -/
def enterScope (state : ScopeState) (outer : ScopeId) : Run ScopeId := do
  let id ← createScope state (some outer)
  modify fun s => { s with entered := id :: s.entered }
  Run.report (.enteredScope id outer)
  return id

/-- Leave a scope: it is no longer in use on this account. -/
def exitScope (id : ScopeId) : Run Unit := do
  modify fun s => { s with entered := s.entered.erase id }
  Run.report (.exitedScope id)

/-- Run an action in a new scope and leave the scope however the action ends. -/
def inScope {α : Type} (state : ScopeState) (outer : ScopeId) (action : ScopeId → Run α) :
    Run α := do
  let id ← enterScope state outer
  let result ← Run.outcome (action id)
  exitScope id
  Run.ofOutcome result

/-! ## Names -/

/-- The value of a name. -/
def lookup (id : ScopeId) (name : String) : Run Value := do
  let s ← get
  Run.ofExcept (s.arena.lookup s.memory.heap id name)

/-- Assign to a name. -/
def assign (id : ScopeId) (name : String) (v : Value) : Run Unit := do
  let heap := (← get).memory.heap
  Run.modifyScopes fun a => a.assign heap id name v

/-- Declare a variable. -/
def defineVar (id : ScopeId) (name : String) (v : Value) : Run Unit :=
  Run.modifyScopes fun a => a.defineVar id name v

/-- Declare a constant. -/
def defineConst (id : ScopeId) (name : String) (v : Value) : Run Unit :=
  Run.modifyScopes fun a => a.defineConst id name v

/-- A member of an instance. -/
def member (r : Ref) (name : String) : Run Value := do
  let s ← get
  Run.ofExcept (s.arena.member s.memory.heap r name)

/-- Assign to a member of an instance. -/
def assignMember (r : Ref) (name : String) (v : Value) : Run Unit := do
  let heap := (← get).memory.heap
  Run.modifyScopes fun a => a.assignMember heap r name v

/-- Let the instance `child` extend the instance `parent`. -/
def bindSuper (child parent : Ref) : Run Unit := do
  let heap := (← get).memory.heap
  let scope ← Run.ofExcept (heap.instanceScope child)
  let _ ← Run.ofExcept (heap.instanceScope parent)
  defineVar scope superName (.ref parent)

/-- Import the module at `target` into the main scope around `id`. -/
def importModule (id : ScopeId) (target : Ref) : Run Unit := do
  match (← Run.memory (·.header target)).data with
  | .moduleOf _ scope => Run.modifyScopes fun a => a.attachNamespace id scope
  | other => Run.fail (.typeError "Module" other.kindName)

/-! ## Signals -/

/-- Whether the statements running in `id` are to stop. -/
def halted (id : ScopeId) : Run Bool := Run.scopes fun a => a.hasException id || a.interrupted id

/-- Throw a value, with the active calls as its trace. -/
def throwValue (id : ScopeId) (v : Value) : Run Unit := do
  let trace := (← get).stack.trace
  Run.report (.thrown v trace.length)
  Run.modifyScopes fun a => a.throwException id ⟨v, trace⟩

/-- Handle a fault that arose in `id`: one that scripts can catch is thrown as an error object,
any other stops the script. -/
def raise (id : ScopeId) (fault : Fault) : Run Unit := do
  if fault.isCatchable then
    let error ← newError fault.scriptType fault.message
    throwValue id (.ref error)
  else Run.fail fault

/-- A thrown value in words. -/
def describeThrown (m : Memory) (v : Value) : String :=
  match v.reference? with
  | none => v.text
  | some r =>
    match m.heap.header? r with
    | none => v.text
    | some header =>
      match header.data with
      | .native typeName (.str message) => typeName ++ ": " ++ message
      | .native typeName payload => typeName ++ ": " ++ payload.text
      | .instanceOf classRef _ =>
        match m.heap.header? classRef with
        | some ⟨.classDef c, _⟩ => "<" ++ c.name ++ " instance>"
        | _ => "<instance>"
      | other => "<" ++ other.kindName ++ ">"

/-- Take the exception that waits for `id` and describe it with its trace. -/
def reportUncaught (id : ScopeId) : Run (Option String) := do
  match ← Run.takeScopes (·.takeException id) with
  | none => return none
  | some pending =>
    let header := "Uncaught exception: " ++ describeThrown (← get).memory pending.value
    return some (pending.trace.foldl (fun text line => text ++ "\n    " ++ line) header)

end ScriptCore.Session
