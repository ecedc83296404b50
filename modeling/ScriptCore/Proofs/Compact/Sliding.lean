import ScriptCore.Compact.Slide
import ScriptCore.Proofs.Heap.Tiling

/-!
# Sliding objects together

`Block.placed` says where each block of a list goes when they are put one behind the other. The
forwarding of a compaction is read off it, and so are the blocks of the heap afterwards.

* `Block.resolve_moves` and `Block.resolve_moves_of_ne`: a reference to a placed block is forwarded
  to its place, any other one stays.
* `Heap.Tiled.blocks_slide`: a slid heap is made up of the objects in their places and of loose
  cells behind them, which gives `Heap.WellFormed.slide`.
-/

namespace ScriptCore

namespace Block

/-! ## Where the blocks of a list go -/

/-- The blocks of a list, each with the slot it starts at when the first one is put at `cursor` and
each other one behind the one before it. -/
def placed (cursor : Nat) : List Block → List (Block × Nat)
  | [] => []
  | b :: rest => (b, cursor) :: placed (cursor + b.size) rest

/-- The same block at another place. -/
def restart (n : Nat) : Block → Block
  | loose _ => loose n
  | object _ header body => object n header body

@[simp] theorem start_restart (n : Nat) (b : Block) : (b.restart n).start = n := by
  cases b <;> rfl

@[simp] theorem size_restart (n : Nat) (b : Block) : (b.restart n).size = b.size := by
  cases b <;> rfl

@[simp] theorem cells_restart (n : Nat) (b : Block) : (b.restart n).cells = b.cells := by
  cases b <;> rfl

theorem whole_restart {n : Nat} {b : Block} (h : b.Whole) : (b.restart n).Whole := by
  cases b <;> exact h

theorem moves_eq_placed (cursor : Nat) (bs : List Block) :
    moves cursor bs = ((placed cursor bs).filter fun p => p.1.start != p.2).map
      fun p => (p.1.start, p.2) := by
  induction bs generalizing cursor with
  | nil => rfl
  | cons b rest ih =>
    rw [moves, placed, List.filter_cons]
    by_cases h : b.start = cursor
    · simp [h, ih]
    · simp [h, ih]

theorem map_fst_placed (cursor : Nat) (bs : List Block) : (placed cursor bs).map Prod.fst = bs := by
  induction bs generalizing cursor with
  | nil => rfl
  | cons b rest ih => rw [placed, List.map_cons, ih]

theorem exists_placed (cursor : Nat) {bs : List Block} {b : Block} (hb : b ∈ bs) :
    ∃ n, (b, n) ∈ placed cursor bs := by
  rw [← map_fst_placed cursor bs] at hb
  obtain ⟨⟨c, n⟩, hc, rfl⟩ := List.mem_map.mp hb
  exact ⟨n, hc⟩

theorem mem_of_placed {cursor : Nat} {bs : List Block} {p : Block × Nat}
    (hp : p ∈ placed cursor bs) : p.1 ∈ bs := by
  rw [← map_fst_placed cursor bs]
  exact List.mem_map_of_mem hp

theorem cursor_le_of_placed {cursor : Nat} {bs : List Block} {p : Block × Nat}
    (hp : p ∈ placed cursor bs) : cursor ≤ p.2 := by
  induction bs generalizing cursor with
  | nil => cases hp
  | cons b rest ih =>
    rcases List.mem_cons.mp hp with rfl | hp
    · exact Nat.le_refl _
    · exact Nat.le_trans (Nat.le_add_right _ _) (ih hp)

theorem laid_placed (cursor : Nat) (bs : List Block) :
    Laid cursor ((placed cursor bs).map fun p => p.1.restart p.2) := by
  induction bs generalizing cursor with
  | nil => trivial
  | cons b rest ih => exact ⟨start_restart cursor b, by rw [size_restart]; exact ih _⟩

theorem flatMap_cells_placed (cursor : Nat) (bs : List Block) :
    ((placed cursor bs).map fun p => p.1.restart p.2).flatMap cells = bs.flatMap cells := by
  induction bs generalizing cursor with
  | nil => rfl
  | cons b rest ih => rw [placed, List.map_cons, List.flatMap_cons, cells_restart, ih,
      List.flatMap_cons]

/-! ## Blocks in ascending order -/

/-- Each block ends before the next one starts. -/
def Ascending (bs : List Block) : Prop := bs.Pairwise fun b c => b.start + b.size ≤ c.start

theorem Laid.ascending {n : Nat} {bs : List Block} (h : Laid n bs) : Ascending bs := by
  induction bs generalizing n with
  | nil => exact .nil
  | cons b rest ih =>
    obtain ⟨hb, hrest⟩ := h
    exact .cons (fun c hc => by rw [hb]; exact hrest.start_le hc) (ih hrest)

/-- Blocks only ever go down. -/
theorem Ascending.placed_le {bs : List Block} (h : Ascending bs) {cursor : Nat}
    (hc : ∀ b ∈ bs, cursor ≤ b.start) {p : Block × Nat} (hp : p ∈ placed cursor bs) :
    p.2 ≤ p.1.start := by
  induction bs generalizing cursor with
  | nil => cases hp
  | cons b rest ih =>
    obtain ⟨hb, hrest⟩ := List.pairwise_cons.mp h
    rcases List.mem_cons.mp hp with rfl | hp
    · exact hc _ List.mem_cons_self
    · refine ih hrest (fun c hmem => ?_) hp
      have := hc b List.mem_cons_self
      have := hb c hmem
      omega

/-- Blocks keep their order. -/
theorem Ascending.placed_lt {bs : List Block} (h : Ascending bs) {cursor : Nat}
    {p q : Block × Nat} (hp : p ∈ placed cursor bs) (hq : q ∈ placed cursor bs)
    (hlt : p.1.start < q.1.start) : p.2 + p.1.size ≤ q.2 := by
  induction bs generalizing cursor with
  | nil => cases hp
  | cons b rest ih =>
    obtain ⟨hb, hrest⟩ := List.pairwise_cons.mp h
    rcases List.mem_cons.mp hp with rfl | hp <;> rcases List.mem_cons.mp hq with rfl | hq
    · exact absurd hlt (Nat.lt_irrefl _)
    · exact cursor_le_of_placed hq
    · have := hb _ (mem_of_placed hp)
      dsimp only at hlt
      omega
    · exact ih hrest hp hq

theorem Ascending.pairwise_start {bs : List Block} (h : Ascending bs) :
    bs.Pairwise fun b c => b.start < c.start :=
  h.imp fun {b c} hle => by
    have := b.size_pos
    omega

/-! ## Forwarding -/

theorem resolve_moves_of_ne {bs : List Block} (cursor : Nat) {r : Ref}
    (h : ∀ b ∈ bs, b.start ≠ r.slot) : (Forwarding.mk (moves cursor bs)).resolve r = r := by
  have hnone : (moves cursor bs).lookup r.slot = none := by
    rw [List.lookup_eq_none_iff, moves_eq_placed]
    intro p hp
    obtain ⟨q, hq, rfl⟩ := List.mem_map.mp hp
    have hne := h _ (mem_of_placed (List.mem_filter.mp hq).1)
    simpa using Ne.symm hne
  simp only [Forwarding.resolve, hnone]

/-- The first block does not matter to references to other blocks. -/
theorem resolve_moves_cons {b : Block} {rest : List Block} (cursor : Nat) {r : Ref}
    (h : b.start ≠ r.slot) :
    (Forwarding.mk (moves cursor (b :: rest))).resolve r =
      (Forwarding.mk (moves (cursor + b.size) rest)).resolve r := by
  have hlookup : (moves cursor (b :: rest)).lookup r.slot =
      (moves (cursor + b.size) rest).lookup r.slot := by
    rw [moves]
    split
    · rfl
    · rw [List.lookup_cons, beq_eq_false_iff_ne.mpr (Ne.symm h)]
  rw [Forwarding.resolve, hlookup, Forwarding.resolve]

/-- A reference to a placed block is forwarded to its place. -/
theorem resolve_moves {bs : List Block} (h : Ascending bs) {cursor : Nat} {p : Block × Nat}
    (hp : p ∈ placed cursor bs) :
    (Forwarding.mk (moves cursor bs)).resolve ⟨p.1.start⟩ = ⟨p.2⟩ := by
  induction bs generalizing cursor with
  | nil => cases hp
  | cons b rest ih =>
    have hlt := (List.pairwise_cons.mp h.pairwise_start).1
    have hrest : Ascending rest := (List.pairwise_cons.mp h).2
    rcases List.mem_cons.mp hp with rfl | hp
    · by_cases hstart : b.start = cursor
      · -- the block stays, and no other block starts there
        have hothers : ∀ c ∈ rest, c.start ≠ (Ref.mk b.start).slot := fun c hc =>
          Nat.ne_of_gt (hlt c hc)
        rw [moves, if_pos hstart, resolve_moves_of_ne _ hothers, hstart]
      · simp only [Forwarding.resolve, moves, if_neg hstart, List.lookup_cons_self]
    · have hne : b.start ≠ (Ref.mk p.1.start).slot := Nat.ne_of_lt (hlt _ (mem_of_placed hp))
      rw [resolve_moves_cons _ hne, ih hrest hp]

end Block

namespace Heap

/-! ## The slid heap -/

/-- The blocks of a slid heap: the objects in their places, and loose cells behind them. -/
def settled (h : Heap) : List Block :=
  ((Block.placed 1 h.objectBlocks).map fun p => p.1.restart p.2) ++
    (List.range' (1 + h.used) (h.capacity - (1 + h.used))).map .loose

theorem ascending_objectBlocks (h : Heap) : Block.Ascending h.objectBlocks :=
  h.laid_blocks.ascending.filter _

namespace Tiled

variable {h : Heap}

theorem length_objectBlocks (ht : h.Tiled) :
    (h.objectBlocks.flatMap Block.cells).length = h.used := by
  have hwhole : ∀ b ∈ h.objectBlocks, b.Whole := fun b hb => ht.whole b (List.mem_filter.mp hb).1
  have hheaders : h.objectBlocks.filterMap Block.header? = h.headers := by
    rw [ht.headers_eq, objectBlocks, List.filterMap_filter]
    congr 1
    funext b
    cases b <;> rfl
  have hloose : (h.objectBlocks.countP fun b => !b.isObject) = 0 := by
    rw [List.countP_eq_zero]
    intro b hb
    simpa using (List.mem_filter.mp hb).2
  rw [length_flatMap_cells hwhole, hheaders, hloose, used, Nat.add_zero]

theorem laid_settled (ht : h.Tiled) : Block.Laid 1 h.settled := by
  rw [settled, Block.laid_append, Block.flatMap_cells_placed, ht.length_objectBlocks]
  exact ⟨Block.laid_placed _ _, Block.laid_map_loose _ _⟩

theorem whole_settled (ht : h.Tiled) : ∀ b ∈ h.settled, b.Whole := by
  intro b hb
  rcases List.mem_append.mp hb with hb | hb
  · obtain ⟨p, hp, rfl⟩ := List.mem_map.mp hb
    exact Block.whole_restart (ht.whole _ (List.mem_filter.mp (Block.mem_of_placed hp)).1)
  · obtain ⟨i, -, rfl⟩ := List.mem_map.mp hb
    trivial

theorem used_lt_capacity (ht : h.Tiled) : h.used < h.capacity := by
  rw [ht.capacity_eq, length_flatMap_cells ht.whole, ← ht.headers_eq, used]
  omega

theorem size_slide_cells (ht : h.Tiled) :
    (h.slots.take 1 ++ (h.objectBlocks.flatMap Block.cells).toArray).size = 1 + h.used := by
  have hpos : 1 ≤ h.slots.size := Nat.lt_of_le_of_lt (Nat.zero_le _) ht.used_lt_capacity
  have hcells : (h.objectBlocks.flatMap Block.cells).toArray.size = h.used := by
    rw [List.size_toArray, ht.length_objectBlocks]
  rw [Array.size_append, hcells, Array.take_eq_extract, Array.size_extract, Nat.min_eq_left hpos]

theorem toList_slide (ht : h.Tiled) :
    h.slide.2.slots.toList = .empty :: h.settled.flatMap Block.cells := by
  have hnull : (h.slots.take 1).toList = [.empty] := by
    rw [Array.take_eq_extract, Array.toList_extract, ht.toList_slots]
    rfl
  simp only [slide, ht.size_slide_cells]
  rw [settled, List.flatMap_append, Block.flatMap_cells_placed, Block.flatMap_cells_map_loose,
    List.length_range', Array.toList_append, Array.toList_append, hnull, Array.toList_replicate]
  rfl

theorem free_slide (ht : h.Tiled) :
    h.slide.2.free.slots = List.range' (1 + h.used) (h.capacity - (1 + h.used)) := by
  simp only [slide, ht.size_slide_cells]

theorem slide (ht : h.Tiled) : h.slide.2.Tiled :=
  ⟨_, ht.laid_settled, ht.whole_settled, ht.toList_slide⟩

theorem blocks_slide (ht : h.Tiled) : h.slide.2.blocks = h.settled :=
  blocks_eq ht.laid_settled ht.whole_settled ht.toList_slide

/-- Every object has a place, which is where references to it are forwarded to. -/
theorem exists_placed (ht : h.Tiled) {r : Ref} {header : Header} (hr : h.header? r = some header) :
    ∃ body, .object r.slot header body ∈ h.blocks ∧
      (.object r.slot header body, (h.slide.1.resolve r).slot) ∈ Block.placed 1 h.objectBlocks := by
  obtain ⟨body, hb⟩ := ht.header?_eq_some_iff.mp hr
  obtain ⟨n, hn⟩ := Block.exists_placed 1
    (show .object r.slot header body ∈ h.objectBlocks from List.mem_filter.mpr ⟨hb, rfl⟩)
  have hresolve : h.slide.1.resolve r = ⟨n⟩ := Block.resolve_moves h.ascending_objectBlocks hn
  exact ⟨body, hb, by rwa [hresolve]⟩

/-- A placed block is an object of the heap. -/
theorem of_placed (ht : h.Tiled) {p : Block × Nat} (hp : p ∈ Block.placed 1 h.objectBlocks) :
    ∃ r header body, p = (.object r.slot header body, (h.slide.1.resolve r).slot) ∧
      h.header? r = some header := by
  obtain ⟨b, n⟩ := p
  have hresolve : h.slide.1.resolve ⟨b.start⟩ = ⟨n⟩ :=
    Block.resolve_moves h.ascending_objectBlocks hp
  obtain ⟨hb, hobject⟩ := List.mem_filter.mp (Block.mem_of_placed hp)
  cases b with
  | loose i => cases hobject
  | object i header body =>
    rw [Block.start_object] at hresolve
    exact ⟨⟨i⟩, header, body, by rw [hresolve], ht.header?_eq_some_iff.mpr ⟨body, hb⟩⟩

theorem object_mem_settled (ht : h.Tiled) {n : Nat} {header : Header} {body : List Slot} :
    .object n header body ∈ h.settled ↔ ∃ r, .object r.slot header body ∈ h.blocks ∧
      (h.slide.1.resolve r).slot = n := by
  constructor
  · intro hb
    rcases List.mem_append.mp hb with hb | hb
    · obtain ⟨p, hp, heq⟩ := List.mem_map.mp hb
      obtain ⟨r, header', body', rfl, hr⟩ := ht.of_placed hp
      cases heq
      exact ⟨r, (List.mem_filter.mp (Block.mem_of_placed hp)).1, rfl⟩
    · obtain ⟨i, -, heq⟩ := List.mem_map.mp hb
      cases heq
  · rintro ⟨r, hb, rfl⟩
    obtain ⟨body', hb', hp⟩ := ht.exists_placed (ht.header?_eq_some_iff.mpr ⟨body, hb⟩)
    obtain rfl : body' = body := by
      have heq := h.laid_blocks.eq_of_overlap hb' hb (i := r.slot) (by simp) (by simp)
      cases heq
      rfl
    exact List.mem_append_left _ (List.mem_map.mpr ⟨_, hp, rfl⟩)

/-! ## What forwarding does to references -/

theorem resolve_le (ht : h.Tiled) {r : Ref} {header : Header} (hr : h.header? r = some header) :
    (h.slide.1.resolve r).slot ≤ r.slot := by
  obtain ⟨body, -, hp⟩ := ht.exists_placed hr
  refine h.ascending_objectBlocks.placed_le (fun b hb => ?_) hp
  exact h.laid_blocks.start_le (List.mem_filter.mp hb).1

/-- An object that comes first comes first afterwards, and ends before the other one. -/
theorem resolve_add_span_le (ht : h.Tiled) {r r' : Ref} {header header' : Header}
    (hr : h.header? r = some header) (hr' : h.header? r' = some header') (hlt : r.slot < r'.slot) :
    (h.slide.1.resolve r).slot + header.span ≤ (h.slide.1.resolve r').slot := by
  obtain ⟨body, hb, hp⟩ := ht.exists_placed hr
  obtain ⟨body', -, hp'⟩ := ht.exists_placed hr'
  have hsize : body.length + 1 = header.span := (ht.whole _ hb).1
  have hle := h.ascending_objectBlocks.placed_lt hp hp' hlt
  rwa [Block.size_object, hsize] at hle

theorem resolve_of_header?_eq_none (ht : h.Tiled) {r : Ref} (hr : h.header? r = none) :
    h.slide.1.resolve r = r := by
  refine Block.resolve_moves_of_ne 1 fun b hb => ?_
  obtain ⟨hb, hobject⟩ := List.mem_filter.mp hb
  cases b with
  | loose i => cases hobject
  | object i header body =>
    rintro rfl
    rw [ht.header?_eq_some_iff.mpr ⟨body, hb⟩] at hr
    cases hr

/-- The objects of a slid heap are those of the heap, at the slots that they are forwarded to. -/
theorem header?_slide (ht : h.Tiled) {r' : Ref} {header : Header} :
    h.slide.2.header? r' = some header ↔
      ∃ r, h.header? r = some header ∧ h.slide.1.resolve r = r' := by
  rw [ht.slide.header?_eq_some_iff, ht.blocks_slide]
  constructor
  · rintro ⟨body, hb⟩
    obtain ⟨r, hb, hr⟩ := ht.object_mem_settled.mp hb
    exact ⟨r, ht.header?_eq_some_iff.mpr ⟨body, hb⟩, congrArg Ref.mk hr⟩
  · rintro ⟨r, hr, rfl⟩
    obtain ⟨body, hb⟩ := ht.header?_eq_some_iff.mp hr
    exact ⟨body, ht.object_mem_settled.mpr ⟨r, hb, rfl⟩⟩

/-- An object takes its cells along. -/
theorem slot?_slide (ht : h.Tiled) {r : Ref} {header : Header} (hr : h.header? r = some header)
    {k : Nat} (hk : k < header.span) :
    h.slide.2.slot? ((h.slide.1.resolve r).slot + k) = h.slot? (r.slot + k) := by
  obtain ⟨body, hb⟩ := ht.header?_eq_some_iff.mp hr
  have hb' : .object (h.slide.1.resolve r).slot header body ∈ h.slide.2.blocks := by
    rw [ht.blocks_slide]
    exact ht.object_mem_settled.mpr ⟨r, hb, rfl⟩
  have hsize : body.length + 1 = header.span := (ht.whole _ hb).1
  exact (ht.slide.slot?_block hb' (by rwa [Block.size_object, hsize])).trans
    (ht.slot?_block hb (by rwa [Block.size_object, hsize])).symm

end Tiled

theorem WellFormed.slide {h : Heap} (hw : h.WellFormed) : h.slide.2.WellFormed := by
  have ht := hw.tiled
  refine wellFormed_of_blocks ht.laid_settled ht.whole_settled ht.toList_slide ?_ ?_ ?_
  · rw [ht.free_slide]
    exact List.nodup_range'
  · intro i
    rw [ht.free_slide, settled, List.mem_append]
    constructor
    · intro hi
      exact .inr (List.mem_map_of_mem hi)
    · rintro (hi | hi)
      · obtain ⟨p, hp, heq⟩ := List.mem_map.mp hi
        obtain ⟨r, header, body, rfl, -⟩ := ht.of_placed hp
        cases heq
      · obtain ⟨j, hj, heq⟩ := List.mem_map.mp hi
        cases heq
        exact hj
  · intro n header body hb
    obtain ⟨r, hb, -⟩ := ht.object_mem_settled.mp hb
    exact hw.unmarked (ht.header?_eq_some_iff.mpr ⟨body, hb⟩)

/-! ## The number of objects that move -/

/-- The references to the objects of a heap, in ascending order. -/
def refs (h : Heap) : List Ref :=
  ((List.range h.capacity).map Ref.mk).filter fun r => (h.header? r).isSome

theorem mem_refs {h : Heap} {r : Ref} : r ∈ h.refs ↔ (h.header? r).isSome = true := by
  rw [refs, List.mem_filter, and_iff_right_iff_imp]
  intro hsome
  obtain ⟨header, hr⟩ := Option.isSome_iff_exists.mp hsome
  exact List.mem_map.mpr
    ⟨r.slot, List.mem_range.mpr (lt_capacity_of_slot? (header?_eq_some.mp hr).2), rfl⟩

end Heap

end ScriptCore
