import ScriptCore.Collect.Collection

/-!
# Collection on machine words

`collect` goes by the blocks of the heap and by exact spans. `collectWithin` is the collection as a
machine carries it out: a cursor moves over the slots, at each header by the span that a machine
word holds, and the elements of an object are read at slot numbers that start again from `0` after
the greatest word. Its first argument bounds the rounds of the cursor; a collection comes to an end
if there is a result for some bound.

The two agree as long as every object ends within the machine words (`collectWithin_eq_collect`), as
it does in the heap of a session, which is tiled. The span of an array of the greatest length is
`0`, so a cursor that comes to such a header stays there for good, and there is no result for any
bound (`collectWithin_eq_none_iff`).
-/

namespace ScriptCore

/-! ## What is in use -/

/-- The elements read after the header at `r`, for an object of `span` slots, where the slot numbers
are machine words. -/
def Heap.wordElements (h : Heap) (r : Ref) (span : Nat) : List Value :=
  h.elements r span
    ++ (h.slots.extract 0 (r.slot + span - wordCount)).toList.filterMap Slot.value?

/-- The cells that the object at `r` refers to, its elements read on machine words. -/
def Heap.wordSuccessors (h : Heap) (r : Ref) (header : Header) : List Cell :=
  header.data.references.map Cell.object ++ Cell.ofScopes header.data.scope?.toList
    ++ Cell.ofValues (h.wordElements r header.wordSpan)

/-- The cells that a cell refers to, elements read on machine words. -/
def wordSuccessors (h : Heap) (a : Arena) : Cell → List Cell
  | .scope id => ((a.get? id).map Scope.successors).getD []
  | .object r => ((h.header? r).map (h.wordSuccessors r)).getD []

/-- The cells that a collection on machine words does not reach. -/
def wordGarbage (m : Memory) (a : Arena) (extra : RootSet) : Unreached :=
  (Unreached.all m.heap a).search (wordSuccessors m.heap a) (roots m a extra)

/-! ## The cursor -/

/-- How far a sweep of the slots has come. -/
structure Sweep where
  /-- The cells. -/
  slots : Array Slot
  /-- The slot to be looked at next. -/
  cursor : Nat := 1
  /-- The free slots found so far. -/
  free : Array Nat := #[]
  /-- The number of objects freed. -/
  freedObjects : Nat := 0
  /-- The number of slots they occupied. -/
  freedSlots : Nat := 0

namespace Sweep

/-- The cursor is at the first usable slot of `h`. -/
def start (h : Heap) : Sweep where
  slots := h.slots

/-- The heap as far as it has been swept. -/
def heap (s : Sweep) : Heap := ⟨s.slots, ⟨s.free.toList⟩⟩

/-- Look at the slot under the cursor. A marked object loses its mark, an unmarked one is emptied as
far as there are slots, and so is a cell that is not a header. The cursor moves on by the span. -/
def next (s : Sweep) : Sweep :=
  match s.slots[s.cursor]? with
  | some (.object header) =>
    let span := min header.wordSpan (s.slots.size - s.cursor)
    if header.marked then
      { s with
        slots := s.slots.setIfInBounds s.cursor (.object { header with marked := false })
        cursor := s.cursor + span }
    else
      { slots := Slot.write s.slots s.cursor (List.replicate span .empty)
        cursor := s.cursor + span
        free := s.free ++ List.range' s.cursor span
        freedObjects := s.freedObjects + 1
        freedSlots := s.freedSlots + span }
  | _ =>
    { s with
      slots := s.slots.setIfInBounds s.cursor .empty
      cursor := s.cursor + 1
      free := s.free.push s.cursor }

/-- Go on until the cursor has passed the last slot, for so many rounds at most. -/
def run : (rounds : Nat) → Sweep → Option Sweep
  | 0, s => if s.cursor < s.slots.size then none else some s
  | rounds + 1, s => if s.cursor < s.slots.size then s.next.run rounds else some s

end Sweep

/-- Free all that is not reached from the roots, with a cursor on machine words that makes so many
rounds at most. There is no result if the cursor is not through by then. -/
def collectWithin (rounds : Nat) (m : Memory) (a : Arena) (extra : RootSet) :
    Option (CollectionReport × Memory × Arena) :=
  let unreached := wordGarbage m a extra
  let arena := a.sweep unreached
  ((Sweep.start (m.heap.mark unreached)).run rounds).map fun s =>
    let report : CollectionReport := {
      freedObjects := s.freedObjects
      freedSlots := s.freedSlots
      freedScopes := a.liveCount - arena.liveCount
      available := s.free.size }
    (report, { m with heap := s.heap }, arena)

end ScriptCore
