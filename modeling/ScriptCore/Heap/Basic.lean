import ScriptCore.Heap.FreeList
import ScriptCore.Heap.Object

/-!
# The heap

A fixed number of slots and the list of the free ones. Slot `0` stands for null and is never
handed out. The operations here check one thing only, that a reference names a header (or an
element), so that states in which headers overlap or the free list is wrong can be written down
and repaired; `ScriptCore.Memory` has the checked operations.
-/

namespace ScriptCore

/-- The slots and the free list. -/
structure Heap where
  /-- The cells, the null slot first. -/
  slots : Array Slot
  /-- The free slots. -/
  free : FreeList

/-- Write `cells` from position `start` on. Positions past the end are left out. -/
def Slot.write (slots : Array Slot) (start : Nat) : List Slot → Array Slot
  | [] => slots
  | cell :: rest => Slot.write (slots.setIfInBounds start cell) (start + 1) rest

namespace Heap

/-- A heap of `size` free slots, the null slot included. -/
def new (size : Nat) : Heap where
  slots := Array.replicate (max size 1) .empty
  free := ⟨List.range' 1 (max size 1 - 1)⟩

/-- The number of slots, the null slot included. -/
def capacity (h : Heap) : Nat := h.slots.size

/-- The number of entries of the free list. -/
def available (h : Heap) : Nat := h.free.length

/-- The cell at `index`. -/
def slot? (h : Heap) (index : Nat) : Option Slot := h.slots[index]?

/-- The header that `r` names. -/
def header? (h : Heap) (r : Ref) : Option Header :=
  if r.isNull then none else (h.slot? r.slot).bind Slot.header?

/-- The header that `r` names, or a fault. -/
def header (h : Heap) (r : Ref) : Except Fault Header :=
  match h.header? r with
  | some header => .ok header
  | none => .error (.invalidReference r.slot)

/-- Put a header at `r`. -/
def setHeader (h : Heap) (r : Ref) (header : Header) : Heap :=
  { h with slots := h.slots.setIfInBounds r.slot (.object header) }

/-- The element stored in slot `index`. -/
def read (h : Heap) (index : Nat) : Except Fault Value :=
  match (h.slot? index).bind Slot.value? with
  | some v => .ok v
  | none => .error (.invalidReference index)

/-- Replace the element stored in slot `index`. -/
def write (h : Heap) (index : Nat) (v : Value) : Except Fault Heap :=
  match (h.slot? index).bind Slot.value? with
  | some _ => .ok { h with slots := h.slots.setIfInBounds index (.data v) }
  | none => .error (.invalidReference index)

/-- The cells of an array of `length` nulls. -/
def blank (length : Nat) : List Slot :=
  .object ⟨.array length, false⟩ :: List.replicate length (.data .null)

/-- Take `size` consecutive free slots. They become an array of nulls, so that they are never
taken for free space before their header is written. -/
def reserve (h : Heap) (size : Nat) : Option (Ref × Heap) :=
  (h.free.takeRun size).map fun (start, free) =>
    (⟨start⟩, ⟨Slot.write h.slots start (blank (size - 1)), free⟩)

/-- Empty `len` slots from `r` on and put them at the front of the free list. -/
def release (h : Heap) (r : Ref) (len : Nat) : Heap where
  slots := Slot.write h.slots r.slot (List.replicate len .empty)
  free := h.free.pushRun r.slot len

/-- The elements stored after the header at `r`, for an object of `span` slots. Cells that hold
no element are passed over. -/
def elements (h : Heap) (r : Ref) (span : Nat) : List Value :=
  (h.slots.extract (r.slot + 1) (r.slot + span)).toList.filterMap Slot.value?

end Heap

/-! ## What the operations do to the slots -/

@[simp] theorem Slot.size_write (slots : Array Slot) (start : Nat) (cells : List Slot) :
    (Slot.write slots start cells).size = slots.size := by
  induction cells generalizing slots start with
  | nil => rfl
  | cons cell rest ih => simp [Slot.write, ih]

/-- A position in the run that was written holds the cell written there, any other position what
it held before. -/
theorem Slot.getElem?_write (slots : Array Slot) (start : Nat) (cells : List Slot) (i : Nat) :
    (Slot.write slots start cells)[i]?
      = if start ≤ i ∧ i < start + cells.length ∧ i < slots.size then cells[i - start]?
        else slots[i]? := by
  induction cells generalizing slots start with
  | nil =>
    rw [if_neg (by simp only [List.length_nil]; omega)]
    rfl
  | cons cell rest ih =>
    rw [Slot.write, ih, Array.size_setIfInBounds, List.length_cons]
    by_cases hs : i = start
    · subst hs
      rw [if_neg (by omega), Array.getElem?_setIfInBounds, if_pos rfl, Nat.sub_self,
        List.getElem?_cons_zero]
      by_cases hi : i < slots.size
      · rw [if_pos hi, if_pos ⟨Nat.le_refl i, by omega, hi⟩]
      · rw [if_neg hi, if_neg (by omega), Array.getElem?_eq_none (by omega)]
    · by_cases hr : start + 1 ≤ i ∧ i < start + 1 + rest.length ∧ i < slots.size
      · rw [if_pos hr, if_pos (by omega), show i - start = i - (start + 1) + 1 by omega,
          List.getElem?_cons_succ]
      · rw [if_neg hr, if_neg (by omega), Array.getElem?_setIfInBounds, if_neg (Ne.symm hs)]

namespace Heap

@[simp] theorem capacity_setHeader (h : Heap) (r : Ref) (header : Header) :
    (h.setHeader r header).capacity = h.capacity := by
  simp only [capacity, setHeader, Array.size_setIfInBounds]

/-- A header that is written where there is one already is the header there afterwards, and all
other headers stay. -/
theorem header?_setHeader {h : Heap} {r : Ref} {old : Header} (hold : h.header? r = some old)
    (header : Header) (other : Ref) :
    (h.setHeader r header).header? other = if other = r then some header else h.header? other := by
  obtain ⟨i⟩ := r
  obtain ⟨j⟩ := other
  have hi : ¬ (Ref.mk i).isNull = true := fun hnull => by simp [header?, hnull] at hold
  have hlt : i < h.slots.size := by
    apply Nat.lt_of_not_le
    intro hge
    simp [header?, hi, slot?, Array.getElem?_eq_none hge] at hold
  by_cases hij : j = i
  · subst hij
    simp [header?, hi, slot?, setHeader, hlt, Slot.header?]
  · have hne : Ref.mk j ≠ Ref.mk i := fun h => hij (Ref.mk.inj h)
    simp only [header?, slot?, setHeader, if_neg hne, Array.getElem?_setIfInBounds,
      if_neg (Ne.symm hij)]

end Heap

end ScriptCore
