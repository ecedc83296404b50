import ScriptCore.CallStack
import ScriptCore.Collect.Collection
import ScriptCore.Compact.Slide
import ScriptCore.Scope.Lookup
import ScriptCore.Scope.Suspend
import ScriptCore.Session.Event
import ScriptCore.ThreadTable

/-!
# Sessions

A session is all that a running script shares: the memory, the scopes, the call stack, the scopes
that are being executed, and the thread requests. Besides it keeps the lines that the script has
written and the events reported so far.

An action on a session is a `Run`. It ends with a value or stops, with a fault or because the
bound on evaluation is used up; either way it leaves a session, and nothing is undone.
-/

namespace ScriptCore

/-- The state that scripts share. -/
structure Session where
  /-- The settings. -/
  options : Options
  /-- The heap and its outside roots. -/
  memory : Memory
  /-- The scopes. -/
  arena : Arena
  /-- The active calls. -/
  stack : CallStack
  /-- The scopes entered and not left, the latest first. -/
  entered : List ScopeId
  /-- The thread requests. -/
  threads : ThreadTable
  /-- The lines written, the latest last. -/
  output : Array String
  /-- The events reported, the latest last. -/
  events : Array Event

/-- A new session. -/
def Session.new (options : Options) : Session where
  options
  memory := Memory.new options.heapSize options.checkContracts
  arena := Arena.new
  stack := { limit := options.stackLimit }
  entered := []
  threads := {}
  output := #[]
  events := #[]

/-- Why an action stops. -/
inductive Stop
  /-- Something went wrong. -/
  | fault (cause : Fault)
  /-- The bound on evaluation is used up. -/
  | exhausted
  deriving DecidableEq, Repr

/-- Why an action stopped, in words. -/
def Stop.message : Stop → String
  | fault cause => cause.message
  | exhausted => "evaluation bound exhausted"

/-- An action on a session. -/
abbrev Run := ExceptT Stop (StateM Session)

namespace Run

/-- Stop with a fault. -/
def fail {α : Type} (fault : Fault) : Run α := throw (.fault fault)

/-- The result of a computation that may fail. -/
def ofExcept {α : Type} : Except Fault α → Run α
  | .ok a => pure a
  | .error fault => fail fault

/-- Run an action and give its outcome as a value, so that what follows runs in any case. -/
def outcome {α : Type} (x : Run α) : Run (Except Stop α) :=
  ExceptT.mk (do return .ok (← x.run))

/-- End with the outcome of an earlier action. -/
def ofOutcome {α : Type} : Except Stop α → Run α
  | .ok a => pure a
  | .error stop => throw stop

/-- Report an event. -/
def report (e : Event) : Run Unit := modify fun s => { s with events := s.events.push e }

/-- Write a line. -/
def emit (line : String) : Run Unit := modify fun s => { s with output := s.output.push line }

/-- Read something off the scopes. -/
def scopes {α : Type} (f : Arena → α) : Run α := return f (← get).arena

/-- Change the scopes. -/
def modifyScopes (f : Arena → Except Fault Arena) : Run Unit := do
  let arena ← ofExcept (f (← get).arena)
  modify fun s => { s with arena }

/-- Take something out of the scopes. -/
def takeScopes {α : Type} (f : Arena → α × Arena) : Run α :=
  modifyGet fun s =>
    let (a, arena) := f s.arena
    (a, { s with arena })

/-- Read something off the memory. -/
def memory {α : Type} (f : Memory → Except Fault α) : Run α := do ofExcept (f (← get).memory)

/-- Change the memory. -/
def modifyMemory (f : Memory → Except Fault Memory) : Run Unit := do
  let memory ← ofExcept (f (← get).memory)
  modify fun s => { s with memory }

end Run

end ScriptCore
