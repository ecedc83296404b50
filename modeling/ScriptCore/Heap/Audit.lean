import ScriptCore.Heap.Basic

/-!
# The free-list audit

A free list is right when it lists every empty slot from the first usable one on exactly once,
and nothing else. `Heap.audit` reports the first thing that is wrong: entries are checked in
list order, and only when all of them are good are the empty slots counted that no entry names.
-/

namespace ScriptCore

/-- What is wrong with a free list. -/
inductive FreeListProblem
  /-- An entry is no usable slot number. -/
  | outside (slot : Nat)
  /-- An entry has occurred before. -/
  | repeated (slot : Nat)
  /-- An entry names an array element. -/
  | listsData (slot : Nat)
  /-- An entry names an object header. -/
  | listsObject (slot : Nat)
  /-- Every entry is good, but this many empty slots are not listed. -/
  | unlisted (count : Nat)
  deriving DecidableEq, Repr

/-- The wording of a free-list problem. -/
def FreeListProblem.message : FreeListProblem → String
  | outside slot => s!"slot {slot} is outside the heap"
  | repeated slot => s!"slot {slot} is listed twice"
  | listsData slot => s!"array data slot {slot} is listed as free"
  | listsObject slot => s!"live slot {slot} is listed as free"
  | unlisted count => s!"{count} empty slots are not on the free list"

namespace Heap

/-- Check the entries of a free list in order. `unseen` says for each slot whether no entry has
named it yet; the answer is what it says at the end. -/
def auditEntries (slots : Array Slot) (unseen : Array Bool) :
    List Nat → Except FreeListProblem (Array Bool)
  | [] => .ok unseen
  | slot :: rest =>
    match slots[slot]? with
    | none => .error (.outside slot)
    | some cell =>
      if slot = 0 then .error (.outside slot)
      else if unseen[slot]? = some true then
        match cell with
        | .empty => auditEntries slots (unseen.setIfInBounds slot false) rest
        | .data _ => .error (.listsData slot)
        | .object _ => .error (.listsObject slot)
      else .error (.repeated slot)

/-- The number of empty usable slots that `unseen` marks. -/
def unlistedCount (slots : Array Slot) (unseen : Array Bool) : Nat :=
  ((slots.zip unseen).toList.drop 1).countP fun (cell, new) => cell.isEmpty && new

/-- What is wrong with the free list, if anything is. -/
def audit (h : Heap) : Except FreeListProblem Unit := do
  let unseen ← auditEntries h.slots (Array.replicate h.capacity true) h.free.slots
  let unlisted := unlistedCount h.slots unseen
  if unlisted = 0 then pure () else throw (.unlisted unlisted)

end Heap

end ScriptCore
