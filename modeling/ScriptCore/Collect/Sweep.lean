import ScriptCore.Collect.Reach
import ScriptCore.Heap.Block

/-!
# Sweeping

Sweeping goes through the blocks of a heap whose reachable objects are marked. A marked object
stays and loses its mark, an unmarked one is emptied, and so is a cell that belongs to no object.
The free list afterwards is the list of the emptied and empty slots in ascending order, whatever
it was before.
-/

namespace ScriptCore

/-- What a collection has done. -/
structure CollectionReport where
  /-- The number of objects freed. -/
  freedObjects : Nat
  /-- The number of slots they occupied. -/
  freedSlots : Nat
  /-- The number of scopes reclaimed. -/
  freedScopes : Nat
  /-- The length of the free list afterwards. -/
  available : Nat
  deriving DecidableEq, Repr

/-- A report as one line. -/
def CollectionReport.text (r : CollectionReport) : String :=
  "freed " ++ toString r.freedObjects ++ " objects (" ++ toString r.freedSlots ++ " slots) and "
    ++ toString r.freedScopes ++ " scopes, " ++ toString r.available ++ " slots available"

namespace Block

/-- Whether the block is an object that stays. -/
def survives : Block → Bool
  | loose _ => false
  | object _ header _ => header.marked

/-- Whether the block is an object that is freed. -/
def dies (b : Block) : Bool := b.isObject && !b.survives

/-- The cells that a sweep leaves in place of the block. -/
def swept : Block → List Slot
  | loose _ => [.empty]
  | object _ header body =>
    if header.marked then .object { header with marked := false } :: body
    else List.replicate (body.length + 1) .empty

end Block

namespace Heap

/-- Mark the objects that are not in `u`. -/
def mark (h : Heap) (u : Unreached) : Heap :=
  { h with slots := h.slots.mapIdx fun index cell =>
      match cell with
      | .object header =>
        if index = 0 then cell
        else .object { header with marked := !(u.has (.object ⟨index⟩)) }
      | cell => cell }

/-- The heap in which each of the blocks of `h` has been swept. -/
def sweepBlocks (h : Heap) (blocks : List Block) : Heap where
  slots := h.slots.take 1 ++ (blocks.flatMap Block.swept).toArray
  free := ⟨(blocks.filter fun b => !b.survives).flatMap Block.slots⟩

/-- Free what is not marked. -/
def sweep (h : Heap) : Heap := h.sweepBlocks h.blocks

end Heap

/-- Reclaim the scopes in `u`, except for the global one. -/
def Arena.sweep (a : Arena) (u : Unreached) : Arena :=
  (a.ids.filter fun id => u.has (.scope id) && id != a.global).foldl Arena.release a

end ScriptCore
