import ScriptCore.Value

/-!
# Thread requests

A thread that has been asked for and has not started yet is a request: the function to call and
its arguments, kept under a ticket. Tickets count up and are never used twice. In a shared
session requests wait until the session is free; otherwise they are served at once.
-/

namespace ScriptCore

/-- A call that waits for its thread. -/
structure ThreadRequest where
  /-- The function to call. -/
  callee : Value
  /-- Its arguments. -/
  args : List Value
  deriving DecidableEq, Repr

/-- The values that a request holds. -/
def ThreadRequest.values (r : ThreadRequest) : List Value := r.callee :: r.args

/-- Replace every reference that a request holds. -/
def ThreadRequest.mapRefs (f : Ref → Ref) (r : ThreadRequest) : ThreadRequest :=
  ⟨r.callee.mapRef f, r.args.map (·.mapRef f)⟩

/-- The requests that wait. -/
structure ThreadTable where
  /-- Tickets and requests, in the order of the tickets. -/
  pending : List (Nat × ThreadRequest) := []
  /-- The next ticket. -/
  nextTicket : Nat := 0
  /-- Whether requests wait for the session to be free. -/
  shared : Bool := false
  deriving DecidableEq, Repr

namespace ThreadTable

/-- The values that all requests hold. -/
def values (t : ThreadTable) : List Value := t.pending.flatMap (·.2.values)

/-- Replace every reference that the requests hold. -/
def mapRefs (f : Ref → Ref) (t : ThreadTable) : ThreadTable :=
  { t with pending := t.pending.map fun (ticket, request) => (ticket, request.mapRefs f) }

/-- Add a request under the next ticket. -/
def park (t : ThreadTable) (request : ThreadRequest) : ThreadTable :=
  { t with
    pending := t.pending ++ [(t.nextTicket, request)]
    nextTicket := t.nextTicket + 1 }

/-- Take the request of a ticket. -/
def take (t : ThreadTable) (ticket : Nat) : Option ThreadRequest × ThreadTable :=
  (t.pending.lookup ticket, { t with pending := t.pending.filter (·.1 != ticket) })

end ThreadTable

end ScriptCore
