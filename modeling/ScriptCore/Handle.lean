/-!
# Handles

Heap objects and scopes are named by plain numbers: a `Ref` is the slot of an object's header,
a `ScopeId` the index of a scope in its arena. Handles carry no promise: the slot may have been
freed and the index reused, and every operation that takes one checks it.

* `Ref.null` is slot `0`, which is never handed out.
* A reference is written `@0012`, a scope `#3`.
-/

namespace ScriptCore

/-- `n` in decimal, filled up with leading zeros to at least `width` characters. -/
def zeroPadded (width n : Nat) : String :=
  let digits := toString n
  "".pushn '0' (width - digits.length) ++ digits

/-- The slot of an object header. -/
structure Ref where
  /-- The slot number. -/
  slot : Nat
  deriving DecidableEq, Repr

namespace Ref

/-- The null reference: slot `0` never holds an object. -/
def null : Ref := ⟨0⟩

/-- Whether this is the null reference. -/
def isNull (r : Ref) : Bool := r.slot == 0

/-- A reference as it is shown: the slot in at least four digits after an at sign. -/
def text (r : Ref) : String := "@" ++ zeroPadded 4 r.slot

@[simp] theorem isNull_null : null.isNull = true := rfl

theorem isNull_iff {r : Ref} : r.isNull = true ↔ r = null := by
  cases r; simp [isNull, null]

end Ref

/-- The index of a scope in its arena. -/
structure ScopeId where
  /-- The position in the arena. -/
  index : Nat
  deriving DecidableEq, Repr

/-- A scope as it is shown: its index after a number sign. -/
def ScopeId.text (id : ScopeId) : String := "#" ++ toString id.index

end ScriptCore
