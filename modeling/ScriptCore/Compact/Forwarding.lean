import ScriptCore.Value

/-!
# Forwarding

Where objects have moved to: pairs of an old and a new header slot, for the objects that are no
longer where they were. A reference to any other slot stays as it is.
-/

namespace ScriptCore

/-- The old and the new header slot of every object that has moved, in ascending order. -/
structure Forwarding where
  /-- The pairs. -/
  moves : List (Nat × Nat) := []
  deriving DecidableEq, Repr

namespace Forwarding

/-- Where `r` is now. -/
def resolve (f : Forwarding) (r : Ref) : Ref :=
  match f.moves.lookup r.slot with
  | some slot => ⟨slot⟩
  | none => r

/-- The number of objects that have moved. -/
def length (f : Forwarding) : Nat := f.moves.length

/-- Whether no object has moved. -/
def isEmpty (f : Forwarding) : Bool := f.moves.isEmpty

@[simp] theorem resolve_nil (r : Ref) : (Forwarding.mk []).resolve r = r := rfl

end Forwarding

end ScriptCore
