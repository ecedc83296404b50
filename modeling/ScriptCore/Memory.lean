import ScriptCore.Heap.Audit
import ScriptCore.Lines

/-!
# Memory

The heap together with the references that keep objects alive from outside the scopes:

* managed references, for objects that no scope reaches yet;
* permanent references, for objects that are never collected;
* guarded values, held while an allocation is under way.

With contract checking on, `Memory.free` accepts exactly the runs of slots that are one object.
-/

namespace ScriptCore

/-- The heap and its outside roots. -/
structure Memory where
  /-- The heap. -/
  heap : Heap
  /-- References kept alive until they are given up. -/
  managed : List Ref := []
  /-- References kept alive for good. -/
  permanent : List Ref := []
  /-- Values kept alive by allocations under way, the outermost first. -/
  guarded : List Value := []
  /-- Whether frees are checked against object headers. -/
  checked : Bool := true

namespace Memory

/-- A memory of `size` free slots. -/
def new (size : Nat) (checked : Bool) : Memory where
  heap := Heap.new size
  checked := checked

/-- The number of slots, the null slot included. -/
def capacity (m : Memory) : Nat := m.heap.capacity

/-- The number of entries of the free list. -/
def available (m : Memory) : Nat := m.heap.available

/-! ## Objects -/

/-- Take `size` consecutive slots, if the free list has them. -/
def tryAllocate (m : Memory) (size : Nat) : Option (Ref × Memory) :=
  (m.heap.reserve size).map fun (r, heap) => (r, { m with heap })

/-- The header that `r` names. -/
def header (m : Memory) (r : Ref) : Except Fault Header := m.heap.header r

/-- Write the header of a newly allocated object; it must have the size that was reserved. -/
def init (m : Memory) (r : Ref) (header : Header) : Except Fault Memory := do
  let old ← m.header r
  if old.span = header.span then
    return { m with heap := m.heap.setHeader r header }
  else
    throw (.invalidFree r.slot header.span ("reserved block spans " ++ toString old.span ++ " slots"))

/-- Replace the data of the object at `r`, which keeps its size. -/
def setData (m : Memory) (r : Ref) (data : ObjectData) : Except Fault Memory := do
  let old ← m.header r
  if data.span = old.span then
    return { m with heap := m.heap.setHeader r { old with data } }
  else
    throw (.typeError ("object spanning " ++ toString old.span ++ " slots")
      (data.kindName ++ " spanning " ++ toString data.span ++ " slots"))

/-- Replace the data of the object at `r` without regard to its size. -/
def patchData (m : Memory) (r : Ref) (data : ObjectData) : Except Fault Memory := do
  let old ← m.header r
  return { m with heap := m.heap.setHeader r { old with data } }

/-- Whether `length` slots from `r` on may be freed. -/
def checkFree (m : Memory) (r : Ref) (length : Nat) : Except Fault Unit :=
  let refuse := fun problem => .error (.invalidFree r.slot length problem)
  if r.isNull || length == 0 || m.capacity < r.slot + length then
    refuse "run is outside the heap"
  else if m.checked then
    match m.heap.header? r with
    | none => refuse "no object header at this slot"
    | some header =>
      if header.span = length then .ok ()
      else refuse ("object spans " ++ toString header.span ++ " slots")
  else .ok ()

/-- Return `length` slots from `r` on to the free list. -/
def free (m : Memory) (r : Ref) (length : Nat) : Except Fault Memory := do
  m.checkFree r length
  return { m with
    heap := m.heap.release r length
    managed := m.managed.filter (· != r)
    permanent := m.permanent.filter (· != r) }

/-! ## Array elements -/

/-- The number of elements of the array at `r`. -/
def arrayLength (m : Memory) (r : Ref) : Except Fault Nat := do
  match (← m.header r).data with
  | .array length => return length
  | other => throw (.typeError "Array" other.kindName)

/-- The slot of element `index` of the array at `r`. -/
def elementSlot (m : Memory) (r : Ref) (index : Int64) : Except Fault Nat := do
  let length ← m.arrayLength r
  if 0 ≤ index.toInt ∧ index.toInt < length then
    return r.slot + (index.toInt.toNat + 1)
  else
    throw (.indexOutOfBounds index length)

/-- Element `index` of the array at `r`. -/
def readElement (m : Memory) (r : Ref) (index : Int64) : Except Fault Value := do
  m.heap.read (← m.elementSlot r index)

/-- Assign to element `index` of the array at `r`. -/
def writeElement (m : Memory) (r : Ref) (index : Int64) (v : Value) : Except Fault Memory := do
  return { m with heap := ← m.heap.write (← m.elementSlot r index) v }

/-! ## Outside roots -/

/-- Add `r` to a list of references, unless it is null or in the list. -/
def register (r : Ref) (refs : List Ref) : List Ref :=
  if r.isNull || refs.contains r then refs else refs ++ [r]

/-- Keep `r` alive until it is unmanaged or freed. -/
def manage (m : Memory) (r : Ref) : Memory := { m with managed := register r m.managed }

/-- Stop keeping `r` alive. -/
def unmanage (m : Memory) (r : Ref) : Memory := { m with managed := m.managed.filter (· != r) }

/-- Keep `r` alive until it is freed. -/
def makePermanent (m : Memory) (r : Ref) : Memory :=
  { m with permanent := register r m.permanent }

/-- Keep `values` alive until the guard is released. -/
def guard (m : Memory) (values : List Value) : Memory :=
  { m with guarded := m.guarded ++ values }

/-- Drop the guards beyond the first `kept` ones and give the values they hold now. -/
def releaseGuard (m : Memory) (kept : Nat) : List Value × Memory :=
  (m.guarded.drop kept, { m with guarded := m.guarded.take kept })

/-! ## Diagnostics -/

/-- Check the free list against the heap. -/
def verify (m : Memory) : Except Fault Unit :=
  m.heap.audit.mapError fun problem => .freeListCorrupted problem.message

/-- The entry that shows the cell at `index`, if it is not empty. -/
def cellText (index : Nat) : Slot → Option String
  | .empty => none
  | .object header => some (Ref.text ⟨index⟩ ++ "  " ++ header.data.describe)
  | .data v => some (Ref.text ⟨index⟩ ++ "    = " ++ v.text)

/-- One entry for each cell that is not empty. -/
def viewEntries (m : Memory) : List String :=
  (m.heap.slots.toList.zipIdx.drop 1).filterMap fun (cell, index) => cellText index cell

/-- All cells that are not empty, as text. -/
def view (m : Memory) : String := String.join (m.viewEntries.map (· ++ "\n"))

/-- The lines of the view. An entry takes several lines if a name or a text in it does. -/
def viewLines (m : Memory) : List String := lines m.view

/-- The free slots in list order, as text. -/
def availableText (m : Memory) : String :=
  "Available slots: " ++ toString m.available ++ "\n["
    ++ ", ".intercalate (m.heap.free.slots.map toString) ++ "]"

end Memory

end ScriptCore
