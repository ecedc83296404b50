import ScriptCore.Compact.Forwarding
import ScriptCore.Heap.Block
import ScriptCore.Memory
import ScriptCore.Scope.Arena

/-!
# Compaction

The objects of a heap slide down to the first usable slot, in the order they are in, each with
its elements behind it. All references in the heap, in the scopes and among the outside roots
follow them, and the free list becomes the one run of slots behind the last object. Cells that
belong to no object are dropped.
-/

namespace ScriptCore

/-- The objects among `blocks` that move when the first of them goes to slot `cursor` and each
other one behind the one before it, with their old and new slots. -/
def Block.moves (cursor : Nat) : List Block → List (Nat × Nat)
  | [] => []
  | b :: rest =>
    let others := Block.moves (cursor + b.size) rest
    if b.start = cursor then others else (b.start, cursor) :: others

namespace Heap

/-- The blocks that are objects. -/
def objectBlocks (h : Heap) : List Block := h.blocks.filter Block.isObject

/-- Slide the objects together without looking at references. -/
def slide (h : Heap) : Forwarding × Heap :=
  let objects := h.objectBlocks
  let cells := h.slots.take 1 ++ (objects.flatMap Block.cells).toArray
  let free := h.capacity - cells.size
  (⟨Block.moves 1 objects⟩, {
    slots := cells ++ Array.replicate free .empty
    free := ⟨List.range' cells.size free⟩ })

/-- Replace every reference in the heap. -/
def mapRefs (f : Ref → Ref) (h : Heap) : Heap := { h with slots := h.slots.map (·.mapRefs f) }

end Heap

/-- Replace every reference in the heap and among the outside roots. -/
def Memory.mapRefs (f : Ref → Ref) (m : Memory) : Memory :=
  { m with
    heap := m.heap.mapRefs f
    managed := m.managed.map f
    permanent := m.permanent.map f
    guarded := m.guarded.map (·.mapRef f) }

/-- Slide the objects together and let all references follow. -/
def compact (m : Memory) (a : Arena) : Forwarding × Memory × Arena :=
  let (forwarding, heap) := m.heap.slide
  let f := forwarding.resolve
  (forwarding, Memory.mapRefs f { m with heap }, a.mapRefs f)

end ScriptCore
