import ScriptCore.Memory
import ScriptCore.Scope.Arena

/-!
# What is in use

Objects and scopes refer to each other, so the collector treats them alike, as the cells of one
graph. `successors` lists the cells that a cell refers to, and `Unreached.search` takes the cells
met from a worklist out of the set of cells not reached yet. The references from a cell that is taken
out come to the worklist once and for all, which is why the search ends.
-/

namespace ScriptCore

/-- A scope or an object. -/
inductive Cell
  /-- A scope. -/
  | scope (id : ScopeId)
  /-- The object whose header is at a slot. -/
  | object (r : Ref)
  deriving DecidableEq, Repr

namespace Cell

/-- The scopes named in a list. -/
def ofScopes (ids : List ScopeId) : List Cell := ids.map scope

/-- The objects that values refer to. -/
def ofValues (values : List Value) : List Cell := (values.filterMap Value.reference?).map object

end Cell

/-- The cells that a scope refers to: the scope around it, the scope it was called from, the
modules imported into it, and the objects its values refer to. -/
def Scope.successors (s : Scope) : List Cell :=
  Cell.ofScopes (s.outer.toList ++ s.state.calling?.toList ++ s.namespaces)
    ++ Cell.ofValues s.values

/-- The cells that the object at `r` refers to, through its header and its elements. -/
def Heap.successors (h : Heap) (r : Ref) (header : Header) : List Cell :=
  header.data.references.map Cell.object ++ Cell.ofScopes header.data.scope?.toList
    ++ Cell.ofValues (h.elements r header.span)

/-- The cells that a cell refers to. -/
def successors (h : Heap) (a : Arena) : Cell → List Cell
  | .scope id => ((a.get? id).map Scope.successors).getD []
  | .object r => ((h.header? r).map (h.successors r)).getD []

/-- The cells that have not been reached: one entry for each index of the arena and for each
slot of the heap. -/
structure Unreached where
  /-- Which scopes have not been reached. -/
  scopes : Array Bool
  /-- Which slots hold a header that has not been reached. -/
  slots : Array Bool

namespace Unreached

/-- Whether `c` has not been reached. -/
def has (u : Unreached) : Cell → Bool
  | .scope id => u.scopes[id.index]?.getD false
  | .object r => u.slots[r.slot]?.getD false

/-- Note that `c` has been reached. -/
def remove (u : Unreached) : Cell → Unreached
  | .scope id => { u with scopes := u.scopes.setIfInBounds id.index false }
  | .object r => { u with slots := u.slots.setIfInBounds r.slot false }

/-- The sum `f 0 + ⋯ + f (n - 1)`. -/
def sumBelow (f : Nat → Nat) : (n : Nat) → Nat
  | 0 => 0
  | n + 1 => sumBelow f n + f n

/-- The sum of the numbers of those entries of a table that are `true`. -/
def weight (table : Array Bool) (f : Nat → Nat) : Nat :=
  sumBelow (fun i => if table[i]?.getD false then f i else 0) table.size

/-- The number of references from cells that have not been reached. -/
def references (next : Cell → List Cell) (u : Unreached) : Nat :=
  weight u.scopes (fun i => (next (.scope ⟨i⟩)).length)
    + weight u.slots (fun i => (next (.object ⟨i⟩)).length)

theorem sumBelow_congr {n : Nat} {f g : Nat → Nat} (h : ∀ i, i < n → g i = f i) :
    sumBelow g n = sumBelow f n := by
  induction n with
  | zero => rfl
  | succ n ih =>
    rw [sumBelow, sumBelow, ih fun i hi => h i (Nat.lt_succ_of_lt hi), h n (Nat.lt_succ_self n)]

/-- A sum without one of its terms. -/
theorem sumBelow_add {n k : Nat} {f g : Nat → Nat} (hk : k < n) (hzero : g k = 0)
    (hother : ∀ i, i ≠ k → g i = f i) : sumBelow g n + f k = sumBelow f n := by
  induction n with
  | zero => exact absurd hk (Nat.not_lt_zero k)
  | succ n ih =>
    rw [sumBelow, sumBelow]
    rcases Nat.eq_or_lt_of_le (Nat.le_of_lt_succ hk) with rfl | hlt
    · rw [hzero, Nat.add_zero, sumBelow_congr fun i hi => hother i (Nat.ne_of_lt hi)]
    · rw [hother n (Nat.ne_of_gt hlt), ← ih hlt, Nat.add_right_comm]

/-- An entry that is taken out of a table is taken off its weight. -/
theorem weight_setIfInBounds {table : Array Bool} {k : Nat} (f : Nat → Nat)
    (h : table[k]?.getD false = true) :
    weight (table.setIfInBounds k false) f + f k = weight table f := by
  have hk : k < table.size := by
    apply Nat.lt_of_not_le
    intro hge
    rw [Array.getElem?_eq_none hge] at h
    cases h
  have hsum := sumBelow_add (f := fun i => if table[i]?.getD false then f i else 0)
    (g := fun i => if (table.setIfInBounds k false)[i]?.getD false then f i else 0) hk
    (by simp [hk]) fun i hi => by simp [Array.getElem?_setIfInBounds_ne (Ne.symm hi)]
  simp only [h, if_true] at hsum
  rwa [weight, Array.size_setIfInBounds]

theorem references_remove (next : Cell → List Cell) {u : Unreached} {c : Cell}
    (h : u.has c = true) :
    (u.remove c).references next + (next c).length = u.references next := by
  cases c with
  | scope id =>
    have hweight := weight_setIfInBounds (fun i => (next (.scope ⟨i⟩)).length) h
    simp only [references, remove, ← hweight]
    exact Nat.add_right_comm ..
  | object r =>
    have hweight := weight_setIfInBounds (fun i => (next (.object ⟨i⟩)).length) h
    simp only [references, remove, ← hweight]
    exact Nat.add_assoc ..

/-- Every scope of the arena, and every object that is not marked. -/
def all (h : Heap) (a : Arena) : Unreached where
  scopes := a.scopes.map Option.isSome
  slots := h.slots.mapIdx fun index cell =>
    index != 0 && cell.header?.any fun header => !header.marked

/-- Take out every cell that can be reached from `work`, going on from a cell to its successors
when it is first met. -/
def search (next : Cell → List Cell) (u : Unreached) : List Cell → Unreached
  | [] => u
  | c :: work =>
    if u.has c then search next (u.remove c) (next c ++ work) else search next u work
termination_by work => u.references next + work.length
decreasing_by
  · have hreferences := references_remove next ‹_›
    simp only [List.length_append, List.length_cons]
    omega
  · simp only [List.length_cons]
    omega

end Unreached

end ScriptCore
