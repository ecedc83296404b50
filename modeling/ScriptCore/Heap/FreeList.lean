/-!
# The free list

The numbers of the free slots, in the order in which they are handed out. A request for `n`
slots takes the first place in the list where `n` entries have consecutive numbers; freed slots
go to the front in ascending order, and nothing is sorted or merged.
-/

namespace ScriptCore

/-- The free slots, the next one first. -/
structure FreeList where
  /-- The slot numbers in list order. -/
  slots : List Nat := []
  deriving DecidableEq, Repr

namespace FreeList

/-- The number of entries. -/
def length (f : FreeList) : Nat := f.slots.length

/-- Whether there is no entry. -/
def isEmpty (f : FreeList) : Bool := f.slots.isEmpty

/-- Whether `slot` is listed. -/
def contains (f : FreeList) (slot : Nat) : Bool := f.slots.contains slot

/-- Put the slots `start`, …, `start + len - 1` in front. They are slots of a heap, so that their
numbers and `start + len` are machine words. -/
def pushRun (f : FreeList) (start len : Nat) : FreeList :=
  ⟨List.range' start len ++ f.slots⟩

/-- Look for `n` consecutive numbers in the rest of a list. The entries read so far are `passed`,
latest first, and then the run `start`, …, `start + count - 1` that the next entry may extend.
The answer is the first number of the run found and the list without it. -/
def seekRun (n : Nat) (passed : List Nat) (start count : Nat) :
    List Nat → Option (Nat × List Nat)
  | [] => none
  | slot :: rest =>
    if slot = start + count then
      if count + 1 = n then some (start, passed.reverse ++ rest)
      else seekRun n passed start (count + 1) rest
    else
      let passed := (List.range' start count).reverse ++ passed
      if n = 1 then some (slot, passed.reverse ++ rest)
      else seekRun n passed slot 1 rest

/-- Remove the first run of `n` consecutive slots and give its first number. -/
def takeRun (f : FreeList) (n : Nat) : Option (Nat × FreeList) :=
  (seekRun n [] 0 0 f.slots).map fun (start, rest) => (start, ⟨rest⟩)

/-- The entries as maximal runs of consecutive numbers, each with its first number and length. -/
def runs (f : FreeList) : List (Nat × Nat) :=
  let step := fun (done : List (Nat × Nat)) (slot : Nat) =>
    match done with
    | (start, len) :: rest =>
      if slot = start + len then (start, len + 1) :: rest else (slot, 1) :: done
    | [] => [(slot, 1)]
  (f.slots.foldl step []).reverse

@[simp] theorem slots_pushRun (f : FreeList) (start len : Nat) :
    (f.pushRun start len).slots = List.range' start len ++ f.slots := rfl

end FreeList

end ScriptCore
