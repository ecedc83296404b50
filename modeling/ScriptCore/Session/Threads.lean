import ScriptCore.Session.Call

/-!
# Threads

A thread calls its function in a thread scope of its own inside the global scope, so that an
exception it does not catch ends with it and is reported. All threads of a session share its
memory and scopes, and one runs at a time: a shared session serves the waiting requests in the
order of their tickets, and those that come up meanwhile after them.
-/

namespace ScriptCore.Session

variable (ev : Evaluator)

/-- Serve the request of a ticket: its value, or none if there is no such request or if an
exception was left, which is reported. -/
def runThread (ticket : Nat) : Run (Option Value) := do
  let request ← modifyGet fun s =>
    let (request, threads) := s.threads.take ticket
    (request, { s with threads })
  match request with
  | none => return none
  | some request =>
    inScope (.thread none) (← get).arena.global fun thread => do
      let value ← call ev request.callee request.args thread Position.unknown
      match ← reportUncaught thread with
      | some report =>
        Run.report (.uncaught ticket report)
        return none
      | none => return some value

/-- Ask for a thread that calls `callee`, and give its ticket. A session that is not shared runs
it at once. -/
def spawnThread (callee : Value) (args : List Value) (daemon : Bool) : Run Nat := do
  let threads := (← get).threads
  let ticket := threads.nextTicket
  modify fun s => { s with threads := s.threads.park ⟨callee, args⟩ }
  if threads.shared then
    Run.report (.spawned ticket daemon)
  else
    Run.report (.ranInline ticket)
    let _ ← runThread ev ticket
  return ticket

/-- Let requests wait until the session is free. -/
def share (s : Session) : Session := { s with threads := { s.threads with shared := true } }

/-- Serve one waiting request, and report a fault that ends it. -/
def serve (ticket : Nat) : Run Unit := do
  match ← Run.outcome (runThread ev ticket) with
  | .ok _ => return
  | .error stop => Run.report (.threadTerminated ticket stop.message)

/-- Serve the waiting requests in the order of their tickets, at most `rounds` of them. -/
def serveAll : (rounds : Nat) → Run Unit
  | 0 => throw .exhausted
  | rounds + 1 => do
    match (← get).threads.pending.head? with
    | none => return
    | some (ticket, _) =>
      serve ev ticket
      serveAll rounds

end ScriptCore.Session
