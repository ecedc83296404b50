import ScriptCore.Heap.Basic

/-!
# Blocks

Read from the first usable slot on, a heap falls into blocks: an object header takes as many
slots as its span says, as far as the heap reaches, and any other cell stands alone. Collection
and compaction both go through the heap in this way, and neither changes a cell before it is
read, so both are functions of the list `Heap.blocks`.

Headers inside the span of an earlier one are part of its block. They occur only when headers
overlap; the block keeps their cells as they are.
-/

namespace ScriptCore

/-- A stretch of the heap that is read as a whole. -/
inductive Block
  /-- A cell that belongs to no object. -/
  | loose (start : Nat)
  /-- An object: its header and the cells after it. -/
  | object (start : Nat) (header : Header) (body : List Slot)

namespace Block

/-- The first slot. -/
def start : Block → Nat
  | loose start => start
  | object start .. => start

/-- The number of slots. -/
def size : Block → Nat
  | loose _ => 1
  | object _ _ body => body.length + 1

/-- The cells of an object block; a loose cell holds nothing that is kept. -/
def cells : Block → List Slot
  | loose _ => [.empty]
  | object _ header body => .object header :: body

/-- Whether this is an object. -/
def isObject : Block → Bool
  | loose _ => false
  | object .. => true

/-- The slot numbers. -/
def slots (b : Block) : List Nat := List.range' b.start b.size

end Block

namespace Heap

/-- The blocks of the cells from slot `start` on, after the blocks in `done`. -/
def scan (done : Array Block) (start : Nat) : List Slot → Array Block
  | [] => done
  | .object header :: rest =>
    let body := rest.take (header.span - 1)
    scan (done.push (.object start header body)) (start + body.length + 1)
      (rest.drop (header.span - 1))
  | _ :: rest => scan (done.push (.loose start)) (start + 1) rest
termination_by cells => cells.length
decreasing_by
  · simp only [List.length_drop, List.length_cons]
    omega
  · simp only [List.length_cons]
    omega

/-- The blocks of a heap, from the first usable slot to the end. -/
def blocks (h : Heap) : List Block := (scan #[] 1 (h.slots.toList.drop 1)).toList

end Heap

end ScriptCore
