import ScriptCore.Heap.Block
import Mathlib.Algebra.GroupWithZero.Nat
import Mathlib.Data.List.Flatten

/-!
# Well-formed heaps

A heap is well formed if its usable slots fall exactly into empty cells and whole objects, a header
followed by the elements that its span announces, if the free list has every empty usable slot once
and nothing else, and if no object is marked.

The same condition has two forms, and each is the handy one for some of the operations:

* `Heap.Tiled`, a list of blocks that lie one behind the other and make up the heap. Sweeping and
  sliding are functions of that list, which `Heap.blocks` reads off (`Heap.Tiled.blocks_eq`);
  `Heap.Reads` says how any heap is read, well formed or not.
* `Heap.Coherent`, what a header says about the cells after it, and where an element belongs.
  Operations that write a few cells are checked against this form.

`Heap.tiled_iff_coherent` says that they are the same.
-/

namespace ScriptCore

namespace Block

/-- Blocks that lie one behind the other from slot `start` on. -/
def Laid : Nat → List Block → Prop
  | _, [] => True
  | start, b :: rest => b.start = start ∧ Laid (start + b.size) rest

/-- A cell on its own, or a header followed by exactly the elements that its span announces. -/
def Whole : Block → Prop
  | loose _ => True
  | object _ header body => body.length + 1 = header.span ∧ ∀ cell ∈ body, ∃ v, cell = .data v

/-- The header of an object block. -/
def header? : Block → Option Header
  | loose _ => none
  | object _ header _ => some header

section Constructors

variable (n : Nat) (header : Header) (body : List Slot)

@[simp] theorem start_loose : (loose n).start = n := rfl
@[simp] theorem start_object : (object n header body).start = n := rfl
@[simp] theorem size_loose : (loose n).size = 1 := rfl
@[simp] theorem size_object : (object n header body).size = body.length + 1 := rfl
@[simp] theorem isObject_loose : (loose n).isObject = false := rfl
@[simp] theorem isObject_object : (object n header body).isObject = true := rfl
@[simp] theorem header?_loose : (loose n).header? = none := rfl
@[simp] theorem header?_object : (object n header body).header? = some header := rfl

end Constructors

@[simp] theorem length_cells (b : Block) : b.cells.length = b.size := by
  cases b <;> rfl

theorem size_pos (b : Block) : 0 < b.size := by
  cases b <;> simp [size]

@[simp] theorem mem_slots {b : Block} {i : Nat} :
    i ∈ b.slots ↔ b.start ≤ i ∧ i < b.start + b.size := by
  simp [slots, List.mem_range'_1]

theorem laid_append {n : Nat} {bs cs : List Block} :
    Laid n (bs ++ cs) ↔ Laid n bs ∧ Laid (n + (bs.flatMap cells).length) cs := by
  induction bs generalizing n with
  | nil => simp [Laid]
  | cons b rest ih =>
    rw [List.cons_append, Laid, Laid, ih, List.flatMap_cons, List.length_append, length_cells,
      Nat.add_assoc, and_assoc]

theorem laid_map_loose (n len : Nat) : Laid n ((List.range' n len).map loose) := by
  induction len generalizing n with
  | zero => trivial
  | succ len ih => exact ⟨rfl, ih (n + 1)⟩

theorem flatMap_cells_map_loose (ns : List Nat) :
    (ns.map loose).flatMap cells = List.replicate ns.length .empty := by
  induction ns with
  | nil => rfl
  | cons n rest ih => simpa [cells, List.replicate_succ] using ih

namespace Laid

variable {n : Nat} {bs : List Block}

theorem start_le (h : Laid n bs) {b : Block} (hb : b ∈ bs) : n ≤ b.start := by
  induction bs generalizing n with
  | nil => cases hb
  | cons c rest ih =>
    obtain ⟨hc, hrest⟩ := h
    rcases List.mem_cons.mp hb with rfl | hb
    · omega
    · have := ih hrest hb
      omega

/-- In a list that has for each block as many entries as the block has slots, the entries of a
block are found at the place of the block. -/
theorem getElem?_flatMap {α : Type} {g : Block → List α} (hg : ∀ b, (g b).length = b.size)
    (h : Laid n bs) {b : Block} (hb : b ∈ bs) {k : Nat} (hk : k < b.size) :
    (bs.flatMap g)[b.start + k - n]? = (g b)[k]? := by
  induction bs generalizing n with
  | nil => cases hb
  | cons c rest ih =>
    obtain ⟨hc, hrest⟩ := h
    rw [List.flatMap_cons]
    rcases List.mem_cons.mp hb with rfl | hb
    · rw [List.getElem?_append_left (by rw [hg]; omega), hc, Nat.add_sub_cancel_left]
    · have hstart := hrest.start_le hb
      rw [List.getElem?_append_right (by rw [hg]; omega), ← ih hrest hb, hg]
      congr 1
      omega

/-- Every entry of such a list belongs to a block. -/
theorem exists_mem_of_lt {α : Type} {g : Block → List α} (hg : ∀ b, (g b).length = b.size)
    (h : Laid n bs) {i : Nat} (hn : n ≤ i) (hi : i < n + (bs.flatMap g).length) :
    ∃ b ∈ bs, b.start ≤ i ∧ i < b.start + b.size := by
  induction bs generalizing n with
  | nil =>
    rw [List.flatMap_nil, List.length_nil] at hi
    omega
  | cons c rest ih =>
    obtain ⟨hc, hrest⟩ := h
    rw [List.flatMap_cons, List.length_append, hg] at hi
    by_cases hlt : i < n + c.size
    · exact ⟨c, List.mem_cons_self, by omega, by omega⟩
    · obtain ⟨b, hb, hle, hlt⟩ := ih hrest (by omega) (by omega)
      exact ⟨b, List.mem_cons_of_mem c hb, hle, hlt⟩

/-- The slots of the blocks are consecutive numbers. -/
theorem flatMap_slots (h : Laid n bs) :
    bs.flatMap slots = List.range' n (bs.flatMap cells).length := by
  induction bs generalizing n with
  | nil => rfl
  | cons c rest ih =>
    obtain ⟨hc, hrest⟩ := h
    rw [List.flatMap_cons, List.flatMap_cons, List.length_append, length_cells, ih hrest, slots, hc]
    exact List.range'_append_1

/-- The slots of some of the blocks are in ascending order. -/
theorem pairwise_slots (h : Laid n bs) (p : Block → Bool) :
    ((bs.filter p).flatMap slots).Pairwise (· < ·) := by
  refine List.Pairwise.sublist ((List.filter_sublist (p := p)).flatMap slots) ?_
  rw [h.flatMap_slots]
  exact List.pairwise_lt_range'

/-- Two blocks that share a slot are one. -/
theorem eq_of_overlap (h : Laid n bs) {b c : Block} (hb : b ∈ bs) (hc : c ∈ bs) {i : Nat}
    (hbi : i ∈ b.slots) (hci : i ∈ c.slots) : b = c := by
  induction bs generalizing n with
  | nil => cases hb
  | cons d rest ih =>
    obtain ⟨hd, hrest⟩ := h
    rw [mem_slots] at hbi hci
    rcases List.mem_cons.mp hb with rfl | hb' <;> rcases List.mem_cons.mp hc with rfl | hc'
    · rfl
    · have := hrest.start_le hc'
      omega
    · have := hrest.start_le hb'
      omega
    · exact ih hrest hb' hc'

end Laid

end Block

namespace Heap

theorem header?_eq_some {h : Heap} {r : Ref} {header : Header} :
    h.header? r = some header ↔ r.slot ≠ 0 ∧ h.slot? r.slot = some (.object header) := by
  unfold header?
  by_cases h0 : r.slot = 0
  · simp [Ref.isNull, h0]
  · rw [if_neg (by simpa [Ref.isNull] using h0)]
    cases h.slot? r.slot with
    | none => simp
    | some cell => cases cell <;> simp [Slot.header?, h0]

theorem lt_capacity_of_slot? {h : Heap} {i : Nat} {cell : Slot} (hi : h.slot? i = some cell) :
    i < h.capacity :=
  (Array.getElem?_eq_some_iff.mp hi).1

/-- Where a heap has the null slot and then a number of cells for each block, as many as the block
has slots, the cells for a block stand where the block stands. -/
theorem slot?_flatMap {h : Heap} {bs : List Block} {g : Block → List Slot} {null : Slot}
    (hg : ∀ b, (g b).length = b.size) (hlaid : Block.Laid 1 bs)
    (hslots : h.slots.toList = null :: bs.flatMap g) {b : Block} (hb : b ∈ bs) {k : Nat}
    (hk : k < b.size) : h.slot? (b.start + k) = (g b)[k]? := by
  have hstart := hlaid.start_le hb
  rw [← hlaid.getElem?_flatMap hg hb hk, slot?, ← Array.getElem?_toList, hslots,
    show b.start + k = b.start + k - 1 + 1 by omega, List.getElem?_cons_succ, Nat.add_sub_cancel]

/-! ## How a heap is read -/

/-- The cells from slot `n` on are read as the blocks `bs`: a header with as many cells after it as
its span says, as far as there are any, and every other cell on its own. -/
inductive Reads : Nat → List Slot → List Block → Prop
  | nil (n : Nat) : Reads n [] []
  | loose {n : Nat} {cell : Slot} {rest : List Slot} {bs : List Block} (hc : cell.header? = none)
      (h : Reads (n + 1) rest bs) : Reads n (cell :: rest) (.loose n :: bs)
  | object {n : Nat} {header : Header} {rest : List Slot} {bs : List Block}
      (h : Reads (n + ((rest.take (header.span - 1)).length + 1)) (rest.drop (header.span - 1))
        bs) :
      Reads n (.object header :: rest) (.object n header (rest.take (header.span - 1)) :: bs)

theorem Reads.scan_eq {n : Nat} {cells : List Slot} {bs : List Block} (h : Reads n cells bs)
    (done : Array Block) : scan done n cells = done ++ bs.toArray := by
  induction h generalizing done with
  | nil n =>
    rw [scan]
    simp
  | @loose n cell rest bs hc _ ih =>
    rw [scan, ih]
    · simp
    · rintro header rfl
      cases hc
  | object _ ih =>
    rw [scan, Nat.add_assoc, ih]
    simp

/-- A header is read with the cells after it if these are as many as its span says, or if there are
no more. -/
theorem Reads.of_body {n : Nat} {header : Header} {body rest : List Slot} {bs : List Block}
    (hle : body.length ≤ header.span - 1) (hend : body.length < header.span - 1 → rest = [])
    (h : Reads (n + (body.length + 1)) rest bs) :
    Reads n (.object header :: (body ++ rest)) (.object n header body :: bs) := by
  have hbody : (body ++ rest).take (header.span - 1) = body ∧
      (body ++ rest).drop (header.span - 1) = rest := by
    rcases Nat.lt_or_eq_of_le hle with hlt | heq
    · rw [hend hlt, List.append_nil]
      exact ⟨List.take_of_length_le hle, List.drop_eq_nil_of_le hle⟩
    · exact ⟨List.take_left' heq, List.drop_left' heq⟩
  have hobject : Reads n (.object header :: (body ++ rest))
      (.object n header ((body ++ rest).take (header.span - 1)) :: bs) :=
    .object (by rwa [hbody.1, hbody.2])
  rwa [hbody.1] at hobject

theorem Reads.laid {n : Nat} {cells : List Slot} {bs : List Block} (h : Reads n cells bs) :
    Block.Laid n bs := by
  induction h with
  | nil n => trivial
  | loose _ _ ih => exact ⟨rfl, ih⟩
  | object _ ih => exact ⟨rfl, ih⟩

/-- Every cell is in a block. -/
theorem Reads.length_flatMap {n : Nat} {cells : List Slot} {bs : List Block}
    (h : Reads n cells bs) : (bs.flatMap Block.cells).length = cells.length := by
  induction h with
  | nil n => rfl
  | loose _ _ ih => simp [Block.cells, ih]
  | object _ ih =>
    rw [List.flatMap_cons, List.length_append, ih, Block.length_cells, Block.size_object,
      List.length_take, List.length_drop, List.length_cons]
    omega

theorem exists_reads (cells : List Slot) (n : Nat) : ∃ bs, Reads n cells bs :=
  match cells with
  | [] => ⟨[], .nil n⟩
  | .object header :: rest =>
    have ⟨bs, h⟩ := exists_reads (rest.drop (header.span - 1))
      (n + ((rest.take (header.span - 1)).length + 1))
    ⟨_, .object h⟩
  | .empty :: rest | .data _ :: rest =>
    have ⟨bs, h⟩ := exists_reads rest (n + 1)
    ⟨_, .loose rfl h⟩
termination_by cells.length
decreasing_by all_goals simp only [List.length_drop, List.length_cons]; omega

theorem Reads.blocks_eq {h : Heap} {bs : List Block} (hbs : Reads 1 (h.slots.toList.drop 1) bs) :
    h.blocks = bs := by
  rw [blocks, hbs.scan_eq]
  simp

/-- Every heap is read as its blocks. -/
theorem reads_blocks (h : Heap) : Reads 1 (h.slots.toList.drop 1) h.blocks := by
  obtain ⟨bs, hbs⟩ := exists_reads (h.slots.toList.drop 1) 1
  rwa [hbs.blocks_eq]

theorem laid_blocks (h : Heap) : Block.Laid 1 h.blocks := h.reads_blocks.laid

/-- A stretch that is made up of whole blocks is read as these blocks. -/
theorem reads_flatMap {n : Nat} {bs : List Block} (hlaid : Block.Laid n bs)
    (hwhole : ∀ b ∈ bs, b.Whole) : Reads n (bs.flatMap Block.cells) bs := by
  induction bs generalizing n with
  | nil => exact .nil n
  | cons b rest ih =>
    obtain ⟨hb, hrest⟩ := hlaid
    have hreads := ih hrest fun c hc => hwhole c (List.mem_cons_of_mem b hc)
    rw [List.flatMap_cons]
    cases b with
    | loose start =>
      subst hb
      exact .loose rfl hreads
    | object start header body =>
      subst hb
      have hlen := (hwhole _ List.mem_cons_self).1
      exact .of_body (by omega) (by omega) hreads

/-! ## Heaps made up of whole blocks -/

/-- The null slot is empty, and whole blocks that lie one behind the other make up the rest. -/
def Tiled (h : Heap) : Prop :=
  ∃ bs, Block.Laid 1 bs ∧ (∀ b ∈ bs, b.Whole) ∧
    h.slots.toList = .empty :: bs.flatMap Block.cells

namespace Tiled

variable {h : Heap}

theorem blocks_eq {bs : List Block} (hlaid : Block.Laid 1 bs) (hwhole : ∀ b ∈ bs, b.Whole)
    (hslots : h.slots.toList = .empty :: bs.flatMap Block.cells) : h.blocks = bs := by
  refine Reads.blocks_eq ?_
  rw [hslots, List.drop_one, List.tail_cons]
  exact reads_flatMap hlaid hwhole

theorem whole (ht : h.Tiled) : ∀ b ∈ h.blocks, b.Whole := by
  obtain ⟨bs, hlaid, hwhole, hslots⟩ := ht
  rwa [blocks_eq hlaid hwhole hslots]

theorem toList_slots (ht : h.Tiled) :
    h.slots.toList = .empty :: h.blocks.flatMap Block.cells := by
  obtain ⟨bs, hlaid, hwhole, hslots⟩ := ht
  rwa [blocks_eq hlaid hwhole hslots]

theorem capacity_eq (ht : h.Tiled) :
    h.capacity = 1 + (h.blocks.flatMap Block.cells).length := by
  rw [capacity, ← Array.length_toList, ht.toList_slots, List.length_cons, Nat.add_comm]

theorem slot?_zero (ht : h.Tiled) : h.slot? 0 = some .empty := by
  rw [slot?, ← Array.getElem?_toList, ht.toList_slots, List.getElem?_cons_zero]

/-- The cells of a block stand where the block stands. -/
theorem slot?_block (ht : h.Tiled) {b : Block} (hb : b ∈ h.blocks) {k : Nat} (hk : k < b.size) :
    h.slot? (b.start + k) = b.cells[k]? :=
  slot?_flatMap Block.length_cells h.laid_blocks ht.toList_slots hb hk

/-- Every usable slot belongs to a block. -/
theorem exists_block (ht : h.Tiled) {i : Nat} (hi : 1 ≤ i) (hc : i < h.capacity) :
    ∃ b ∈ h.blocks, i ∈ b.slots := by
  rw [ht.capacity_eq] at hc
  obtain ⟨b, hb, hle, hlt⟩ := h.laid_blocks.exists_mem_of_lt Block.length_cells hi hc
  exact ⟨b, hb, Block.mem_slots.mpr ⟨hle, hlt⟩⟩

/-- Headers are the first cells of object blocks. -/
theorem header?_eq_some_iff (ht : h.Tiled) {r : Ref} {header : Header} :
    h.header? r = some header ↔ ∃ body, .object r.slot header body ∈ h.blocks := by
  rw [header?_eq_some]
  constructor
  · rintro ⟨hpos, hslot⟩
    obtain ⟨b, hb, hmem⟩ := ht.exists_block (Nat.one_le_iff_ne_zero.mpr hpos)
      (lt_capacity_of_slot? hslot)
    obtain ⟨hle, hlt⟩ := Block.mem_slots.mp hmem
    obtain ⟨k, hk⟩ := Nat.exists_eq_add_of_le hle
    have hcell : b.cells[k]? = some (.object header) := by
      rw [← ht.slot?_block hb (by omega), ← hk, hslot]
    cases b with
    | loose start =>
      obtain rfl : k = 0 := by simp only [Block.size_loose] at hlt; omega
      cases hcell
    | object start header' body =>
      cases k with
      | zero =>
        cases hcell
        exact ⟨body, by rwa [hk]⟩
      | succ k =>
        -- past the first cell a whole block has elements only
        have hmem : Slot.object header ∈ body :=
          List.mem_of_getElem? (by simpa [Block.cells] using hcell)
        obtain ⟨v, hv⟩ := (ht.whole _ hb).2 _ hmem
        cases hv
  · rintro ⟨body, hb⟩
    have hstart : 1 ≤ r.slot := h.laid_blocks.start_le hb
    have hcell := ht.slot?_block hb (Block.size_pos _)
    exact ⟨by omega, hcell⟩

/-- The cell of a loose block is empty, and an empty cell is a block of its own. -/
theorem loose_mem_iff (ht : h.Tiled) {i : Nat} :
    .loose i ∈ h.blocks ↔ 1 ≤ i ∧ h.slot? i = some .empty := by
  constructor
  · intro hb
    exact ⟨h.laid_blocks.start_le hb, ht.slot?_block hb (Block.size_pos _)⟩
  · rintro ⟨hi, hslot⟩
    obtain ⟨b, hb, hmem⟩ := ht.exists_block hi (lt_capacity_of_slot? hslot)
    obtain ⟨hle, hlt⟩ := Block.mem_slots.mp hmem
    obtain ⟨k, rfl⟩ := Nat.exists_eq_add_of_le hle
    have hcell := (ht.slot?_block hb (by omega)).symm.trans hslot
    cases b with
    | loose start =>
      obtain rfl : k = 0 := by simp only [Block.size_loose] at hlt; omega
      exact hb
    | object start header body =>
      exfalso
      cases k with
      | zero => cases hcell
      | succ k =>
        have hmem : Slot.empty ∈ body := List.mem_of_getElem? (by simpa [Block.cells] using hcell)
        obtain ⟨v, hv⟩ := (ht.whole _ hb).2 _ hmem
        cases hv

end Tiled

/-! ## Headers and the cells after them -/

/-- The null slot is empty, every header is followed by the elements that its span announces, and
every element is among those that some header announces. -/
structure Coherent (h : Heap) : Prop where
  null : h.slot? 0 = some .empty
  body : ∀ {r header k}, h.slot? r = some (.object header) → 0 < k → k < header.span →
    ∃ v, h.slot? (r + k) = some (.data v)
  owner : ∀ {i v}, h.slot? i = some (.data v) →
    ∃ r header, h.slot? r = some (.object header) ∧ r < i ∧ i < r + header.span

/-- The slots of an object hold something. -/
theorem Coherent.exists_slot? {h : Heap} (hc : h.Coherent) {r i : Nat} {header : Header}
    (hr : h.slot? r = some (.object header)) (hi : r ≤ i ∧ i < r + header.span) :
    ∃ cell, h.slot? i = some cell ∧ cell ≠ .empty := by
  rcases Nat.eq_or_lt_of_le hi.1 with rfl | hlt
  · exact ⟨_, hr, by simp⟩
  · obtain ⟨v, hv⟩ := hc.body (k := i - r) hr (by omega) (by omega)
    rw [show r + (i - r) = i by omega] at hv
    exact ⟨_, hv, by simp⟩

theorem Tiled.coherent {h : Heap} (ht : h.Tiled) : h.Coherent := by
  have key : ∀ {r header}, h.slot? r = some (.object header) →
      ∃ body, .object r header body ∈ h.blocks := by
    intro r header hr
    have hpos : r ≠ 0 := by
      rintro rfl
      rw [ht.slot?_zero] at hr
      cases hr
    exact (ht.header?_eq_some_iff (r := ⟨r⟩)).mp (header?_eq_some.mpr ⟨hpos, hr⟩)
  refine ⟨ht.slot?_zero, ?_, ?_⟩
  · intro r header k hr hk hspan
    obtain ⟨body, hb⟩ := key hr
    obtain ⟨hlen, hdata⟩ := ht.whole _ hb
    obtain ⟨j, rfl⟩ := Nat.exists_eq_add_of_le' hk
    have hj : j < body.length := by omega
    obtain ⟨v, hv⟩ := hdata _ (List.getElem_mem hj)
    refine ⟨v, ?_⟩
    have hcell := ht.slot?_block hb (k := j + 1) (by simp only [Block.size]; omega)
    rw [show h.slot? (r + (j + 1)) = _ from hcell, Block.cells, List.getElem?_cons_succ,
      List.getElem?_eq_getElem hj, hv]
  · intro i v hi
    have hpos : 1 ≤ i := by
      apply Nat.one_le_iff_ne_zero.mpr
      rintro rfl
      rw [ht.slot?_zero] at hi
      cases hi
    obtain ⟨b, hb, hmem⟩ := ht.exists_block hpos (lt_capacity_of_slot? hi)
    obtain ⟨hle, hlt⟩ := Block.mem_slots.mp hmem
    obtain ⟨k, rfl⟩ := Nat.exists_eq_add_of_le hle
    have hcell := (ht.slot?_block hb (by omega)).symm.trans hi
    cases b with
    | loose start =>
      obtain rfl : k = 0 := by simp only [Block.size_loose] at hlt; omega
      cases hcell
    | object start header body =>
      have hk : k ≠ 0 := by rintro rfl; cases hcell
      have hlen := (ht.whole _ hb).1
      simp only [Block.size, Block.start] at hlt
      exact ⟨start, header, ht.slot?_block hb (Block.size_pos _),
        by simp only [Block.start]; omega, by simp only [Block.start]; omega⟩

/-- Cells that headers account for, from a place on where no object is cut in two, are made up of
whole blocks. -/
theorem exists_blocks_of_coherent : ∀ (cells : List Slot) (n : Nat),
    (∀ (r : Nat) (header : Header) (k : Nat), cells[r]? = some (.object header) → 0 < k →
      k < header.span → ∃ v : Value, cells[r + k]? = some (.data v)) →
    (∀ (i : Nat) (v : Value), cells[i]? = some (.data v) →
      ∃ (r : Nat) (header : Header), cells[r]? = some (.object header) ∧ r < i ∧
        i < r + header.span) →
    ∃ bs, Block.Laid n bs ∧ (∀ b ∈ bs, b.Whole) ∧ cells = bs.flatMap Block.cells
  | [], n, _, _ => ⟨[], trivial, by simp, rfl⟩
  | .data v :: rest, n, _, howner => by
    obtain ⟨r, -, -, hr, -⟩ := howner 0 v rfl
    omega
  | .empty :: rest, n, hbody, howner => by
    obtain ⟨bs, hlaid, hwhole, rfl⟩ := exists_blocks_of_coherent rest (n + 1)
      (fun r header k hr hk hspan => by
        obtain ⟨v, hv⟩ := hbody (r + 1) header k (by simpa using hr) hk hspan
        exact ⟨v, by simpa [Nat.add_right_comm] using hv⟩)
      (fun i v hi => by
        obtain ⟨r, header, hr, hlt, hspan⟩ := howner (i + 1) v (by simpa using hi)
        cases r with
        | zero => cases hr
        | succ r => exact ⟨r, header, by simpa using hr, by omega, by omega⟩)
    exact ⟨.loose n :: bs, ⟨rfl, hlaid⟩, by simpa [Block.Whole] using hwhole, rfl⟩
  | .object header :: rest, n, hbody, howner => by
    have hspan : 0 < header.span := header.data.span_pos
    have hdata : ∀ k, k < header.span - 1 → ∃ v, rest[k]? = some (.data v) := by
      intro k hk
      obtain ⟨v, hv⟩ := hbody 0 header (k + 1) rfl (by omega) (by omega)
      exact ⟨v, by simpa using hv⟩
    have hlen : header.span - 1 ≤ rest.length := by
      apply Nat.le_of_not_lt
      intro hlt
      obtain ⟨v, hv⟩ := hdata rest.length hlt
      simp at hv
    -- the rest after the elements is shorter, and no element there belongs to this header
    obtain ⟨bs, hlaid, hwhole, hbs⟩ := exists_blocks_of_coherent (rest.drop (header.span - 1))
      (n + header.span)
      (fun r header' k hr hk hspan' => by
        rw [List.getElem?_drop] at hr
        obtain ⟨v, hv⟩ := hbody (header.span - 1 + r + 1) header' k (by simpa using hr) hk hspan'
        refine ⟨v, ?_⟩
        rwa [show header.span - 1 + r + 1 + k = header.span - 1 + (r + k) + 1 by omega,
          List.getElem?_cons_succ, ← List.getElem?_drop] at hv)
      (fun i v hi => by
        rw [List.getElem?_drop] at hi
        obtain ⟨r, header', hr, hlt, hspan'⟩ :=
          howner (header.span - 1 + i + 1) v (by simpa using hi)
        have hr' : header.span ≤ r := by
          apply Nat.le_of_not_lt
          intro hlt'
          cases r with
          | zero =>
            cases hr
            omega
          | succ r =>
            obtain ⟨w, hw⟩ := hdata r (by omega)
            rw [List.getElem?_cons_succ, hw] at hr
            cases hr
        obtain ⟨j, rfl⟩ := Nat.exists_eq_add_of_le hr'
        refine ⟨j, header', ?_, by omega, by omega⟩
        rw [List.getElem?_drop, show header.span - 1 + j = header.span + j - 1 by omega]
        rwa [show header.span + j = header.span + j - 1 + 1 by omega,
          List.getElem?_cons_succ] at hr)
    refine ⟨.object n header (rest.take (header.span - 1)) :: bs, ⟨rfl, ?_⟩, ?_, ?_⟩
    · rw [Block.size, List.length_take, Nat.min_eq_left hlen, Nat.sub_add_cancel hspan]
      exact hlaid
    · intro b hb
      rcases List.mem_cons.mp hb with rfl | hb
      · refine ⟨by rw [List.length_take]; omega, fun cell hcell => ?_⟩
        obtain ⟨k, hk, rfl⟩ := List.getElem_of_mem hcell
        rw [List.length_take] at hk
        obtain ⟨v, hv⟩ := hdata k (by omega)
        refine ⟨v, ?_⟩
        rw [List.getElem_take]
        exact (List.getElem?_eq_some_iff.mp hv).2
      · exact hwhole b hb
    · rw [List.flatMap_cons, ← hbs, Block.cells, List.cons_append, List.take_append_drop]
termination_by cells => cells.length
decreasing_by
  · simp
  · simp only [List.length_drop, List.length_cons]
    omega

theorem Coherent.tiled {h : Heap} (hc : h.Coherent) : h.Tiled := by
  have hslot : ∀ i, h.slots.toList[i]? = h.slot? i := fun i => Array.getElem?_toList
  obtain ⟨rest, hrest⟩ : ∃ rest, h.slots.toList = .empty :: rest := by
    have h0 := (hslot 0).trans hc.null
    cases hl : h.slots.toList with
    | nil => simp [hl] at h0
    | cons cell rest =>
      rw [hl] at h0
      cases h0
      exact ⟨rest, rfl⟩
  have hnext : ∀ i, rest[i]? = h.slot? (i + 1) := fun i => by
    rw [← hslot, hrest, List.getElem?_cons_succ]
  obtain ⟨bs, hlaid, hwhole, rfl⟩ := exists_blocks_of_coherent rest 1
    (fun r header k hr hk hspan => by
      rw [hnext] at hr
      obtain ⟨v, hv⟩ := hc.body hr hk hspan
      exact ⟨v, by rw [hnext, Nat.add_right_comm, hv]⟩)
    (fun i v hi => by
      rw [hnext] at hi
      obtain ⟨r, header, hr, hlt, hspan⟩ := hc.owner hi
      cases r with
      | zero =>
        rw [hc.null] at hr
        cases hr
      | succ r => exact ⟨r, header, by rw [hnext, hr], by omega, by omega⟩)
  exact ⟨bs, hlaid, hwhole, hrest⟩

/-- **The two forms of a well-formed slot table are the same.** -/
theorem tiled_iff_coherent {h : Heap} : h.Tiled ↔ h.Coherent :=
  ⟨Tiled.coherent, Coherent.tiled⟩

/-! ## The form of a cell -/

/-- What a cell is, without what it holds. -/
inductive Form
  /-- A free cell. -/
  | empty
  /-- An element. -/
  | data
  /-- The header of an object of so many slots. -/
  | object (span : Nat)
  deriving DecidableEq

/-- The form of a cell. -/
def form : Slot → Form
  | .empty => .empty
  | .data _ => .data
  | .object header => .object header.span

theorem map_form_eq_empty {cell : Option Slot} :
    cell.map form = some .empty ↔ cell = some .empty := by
  rcases cell with _ | _ | _ | _ <;> simp [form]

theorem map_form_eq_data {cell : Option Slot} :
    cell.map form = some .data ↔ ∃ v, cell = some (.data v) := by
  rcases cell with _ | _ | _ | _ <;> simp [form]

theorem map_form_eq_object {cell : Option Slot} {span : Nat} :
    cell.map form = some (.object span) ↔
      ∃ header : Header, cell = some (.object header) ∧ header.span = span := by
  rcases cell with _ | _ | _ | _ <;> simp [form]

section SameForm

variable {h h' : Heap} (hform : ∀ i, (h'.slot? i).map form = (h.slot? i).map form)
include hform

theorem slot?_eq_empty_congr (i : Nat) : h'.slot? i = some .empty ↔ h.slot? i = some .empty := by
  rw [← map_form_eq_empty, hform, map_form_eq_empty]

/-- Coherence is a matter of the forms of the cells. -/
theorem Coherent.congr (hc : h.Coherent) : h'.Coherent := by
  refine ⟨(slot?_eq_empty_congr hform 0).mpr hc.null, ?_, ?_⟩
  · intro r header k hr hk hspan
    obtain ⟨old, hold, heq⟩ :=
      map_form_eq_object.mp ((hform r).symm.trans (congrArg (Option.map form) hr))
    rw [← map_form_eq_data, hform, map_form_eq_data]
    exact hc.body hold hk (by omega)
  · intro i v hi
    obtain ⟨w, hw⟩ := map_form_eq_data.mp ((hform i).symm.trans (congrArg (Option.map form) hi))
    obtain ⟨r, old, hr, hlt, hspan⟩ := hc.owner hw
    obtain ⟨header, hheader, heq⟩ :=
      map_form_eq_object.mp ((hform r).trans (congrArg (Option.map form) hr))
    exact ⟨r, header, hheader, hlt, by omega⟩

end SameForm

/-! ## Well-formed heaps -/

/-- The usable slots fall exactly into empty cells and whole objects, the free list has every empty
usable slot once and nothing else, and no object is marked. -/
structure WellFormed (h : Heap) : Prop where
  tiled : h.Tiled
  free_nodup : h.free.slots.Nodup
  mem_free : ∀ i, i ∈ h.free.slots ↔ 1 ≤ i ∧ h.slot? i = some .empty
  unmarked : ∀ {r header}, h.header? r = some header → header.marked = false

/-- A heap given by its blocks is well formed if its free list has the loose ones. -/
theorem wellFormed_of_blocks {h : Heap} {bs : List Block} (hlaid : Block.Laid 1 bs)
    (hwhole : ∀ b ∈ bs, b.Whole) (hslots : h.slots.toList = .empty :: bs.flatMap Block.cells)
    (hnodup : h.free.slots.Nodup) (hfree : ∀ i, i ∈ h.free.slots ↔ .loose i ∈ bs)
    (hmarked : ∀ {n header body}, .object n header body ∈ bs → header.marked = false) :
    h.WellFormed := by
  have ht : h.Tiled := ⟨bs, hlaid, hwhole, hslots⟩
  have hblocks := Tiled.blocks_eq hlaid hwhole hslots
  refine ⟨ht, hnodup, ?_, ?_⟩
  · intro i
    rw [hfree, ← hblocks, ht.loose_mem_iff]
  · intro r header hr
    obtain ⟨body, hb⟩ := ht.header?_eq_some_iff.mp hr
    rw [hblocks] at hb
    exact hmarked hb

/-- An array that refers to an object behind a gap, and an array to which nothing refers. -/
def gapped : Heap where
  slots := #[.empty, .object ⟨.array 1, false⟩, .data (.ref ⟨4⟩), .empty,
    .object ⟨.native "Cell" (.int 7), false⟩, .object ⟨.array 1, false⟩, .data .null, .empty]
  free := ⟨[7, 3]⟩

theorem gapped_wellFormed : gapped.WellFormed := by
  have hlaid : Block.Laid 1 [.object 1 ⟨.array 1, false⟩ [.data (.ref ⟨4⟩)], .loose 3,
      .object 4 ⟨.native "Cell" (.int 7), false⟩ [], .object 5 ⟨.array 1, false⟩ [.data .null],
      .loose 7] := by
    simp [Block.Laid]
  refine wellFormed_of_blocks hlaid ?_ rfl ?_ ?_ ?_
  · simp [Block.Whole, Header.span, ObjectData.span]
  · decide
  · simp [gapped, or_comm]
  · simp only [List.mem_cons, List.not_mem_nil, Block.object.injEq, reduceCtorEq, or_false,
      false_or]
    rintro n header body (⟨-, rfl, -⟩ | ⟨-, rfl, -⟩ | ⟨-, rfl, -⟩) <;> rfl

/-- Writing cells of the same form keeps a heap well formed, as long as no mark is set. -/
theorem WellFormed.congr {h h' : Heap} (hw : h.WellFormed) (hfree : h'.free = h.free)
    (hform : ∀ i, (h'.slot? i).map form = (h.slot? i).map form)
    (hmarked : ∀ {r header}, h'.header? r = some header → header.marked = false) :
    h'.WellFormed := by
  refine ⟨(hw.tiled.coherent.congr hform).tiled, by rw [hfree]; exact hw.free_nodup, ?_, hmarked⟩
  intro i
  rw [hfree, hw.mem_free, slot?_eq_empty_congr hform]

/-! ## Counting -/

/-- The headers of all objects, in the order of their slots. -/
def headers (h : Heap) : List Header := h.slots.toList.filterMap Slot.header?

/-- The number of slots that objects occupy. -/
def used (h : Heap) : Nat := (h.headers.map Header.span).sum

theorem filterMap_header?_cells {bs : List Block} (hwhole : ∀ b ∈ bs, b.Whole) :
    (bs.flatMap Block.cells).filterMap Slot.header? = bs.filterMap Block.header? := by
  induction bs with
  | nil => rfl
  | cons b rest ih =>
    rw [List.flatMap_cons, List.filterMap_append,
      ih fun c hc => hwhole c (List.mem_cons_of_mem b hc)]
    cases b with
    | loose start => rfl
    | object start header body =>
      have hbody : body.filterMap Slot.header? = [] := by
        rw [List.filterMap_eq_nil_iff]
        intro cell hcell
        obtain ⟨v, rfl⟩ := (hwhole _ List.mem_cons_self).2 cell hcell
        rfl
      simp [Block.cells, Slot.header?, hbody]

theorem Tiled.headers_eq {h : Heap} (ht : h.Tiled) :
    h.headers = h.blocks.filterMap Block.header? := by
  rw [headers, ht.toList_slots, List.filterMap_cons_none rfl, filterMap_header?_cells ht.whole]

/-- The slots of whole blocks are those of the objects among them and one for each other block. -/
theorem length_flatMap_cells {bs : List Block} (hwhole : ∀ b ∈ bs, b.Whole) :
    (bs.flatMap Block.cells).length = ((bs.filterMap Block.header?).map Header.span).sum +
      bs.countP fun b => !b.isObject := by
  induction bs with
  | nil => rfl
  | cons b rest ih =>
    rw [List.flatMap_cons, List.length_append, ih fun c hc => hwhole c (List.mem_cons_of_mem b hc),
      Block.length_cells]
    cases b with
    | loose start =>
      simp [List.filterMap_cons]
      omega
    | object start header body =>
      have hlen := (hwhole _ List.mem_cons_self).1
      simp [hlen]
      omega

/-- The free list of a well-formed heap is, up to order, the list of its loose slots. -/
theorem WellFormed.free_perm {h : Heap} (hw : h.WellFormed) :
    h.free.slots.Perm ((h.blocks.filter fun b => !b.isObject).flatMap Block.slots) := by
  refine (List.perm_ext_iff_of_nodup hw.free_nodup
    ((h.laid_blocks.pairwise_slots _).imp Nat.ne_of_lt)).mpr fun i => ?_
  rw [hw.mem_free, ← hw.tiled.loose_mem_iff, List.mem_flatMap]
  constructor
  · intro hi
    exact ⟨.loose i, List.mem_filter.mpr ⟨hi, rfl⟩, by simp⟩
  · rintro ⟨b, hb, hi⟩
    obtain ⟨hmem, hloose⟩ := List.mem_filter.mp hb
    cases b with
    | loose start =>
      rw [Block.mem_slots, Block.start_loose, Block.size_loose] at hi
      obtain rfl : i = start := by omega
      exact hmem
    | object start header body => cases hloose

theorem length_flatMap_slots_loose (bs : List Block) :
    ((bs.filter fun b => !b.isObject).flatMap Block.slots).length =
      bs.countP fun b => !b.isObject := by
  induction bs with
  | nil => rfl
  | cons b rest ih =>
    cases b with
    | loose start => simpa [Block.slots, Nat.add_comm] using ih
    | object start header body => simpa using ih

/-- Every slot but the null slot is free or occupied. -/
theorem WellFormed.available_add_used {h : Heap} (hw : h.WellFormed) :
    h.available + h.used + 1 = h.capacity := by
  have hfree : h.available = h.blocks.countP fun b => !b.isObject := by
    rw [available, FreeList.length, hw.free_perm.length_eq, length_flatMap_slots_loose]
  have hcap := hw.tiled.capacity_eq
  rw [length_flatMap_cells hw.tiled.whole, ← hw.tiled.headers_eq] at hcap
  rw [hfree, hcap, used]
  omega

end Heap

end ScriptCore
