import ScriptCore.Proofs.Heap.Tiling
import Mathlib.Logic.ExistsUnique

/-!
# Scans

A scan goes from slot to slot and leaps over the span of every header that it meets
(`Heap.Visits`). Nothing is assumed of the heap: headers may stand within the span of another, and
spans may reach past the end. What a scan from the first usable slot meets are the headers of the
object blocks (`Heap.meets_iff`), and every usable slot is a block of its own or in the span of
exactly one of them (`Heap.loose_or_covered`).
-/

namespace ScriptCore

namespace Heap

variable {h h' : Heap} {n i j r : Nat} {header : Header} {cells : List Slot} {bs : List Block}

/-! ## Scans -/

/-- A scan that is at slot `i` comes to slot `j`. It leaps over the span of a header, and goes from
any other cell to the next one. -/
inductive Visits (h : Heap) : Nat → Nat → Prop
  | here (i : Nat) : Visits h i i
  | leap {i j : Nat} {header : Header} (hi : h.slot? i = some (.object header))
      (hj : Visits h (i + header.span) j) : Visits h i j
  | step {i j : Nat} {cell : Slot} (hi : h.slot? i = some cell) (hc : cell.header? = none)
      (hj : Visits h (i + 1) j) : Visits h i j

/-- The scan from the first usable slot on meets a header at slot `r`. -/
def Meets (h : Heap) (r : Nat) (header : Header) : Prop :=
  h.Visits 1 r ∧ h.slot? r = some (.object header)

/-- Slot `i` is in the span of the header that is met at slot `r`. -/
def Covers (h : Heap) (r i : Nat) : Prop :=
  ∃ header, h.Meets r header ∧ r ≤ i ∧ i < r + header.span

theorem Meets.mem_headers (hm : h.Meets r header) : header ∈ h.headers := by
  obtain ⟨-, hslot⟩ := hm
  obtain ⟨hlt, hcell⟩ := Array.getElem?_eq_some_iff.mp hslot
  exact List.mem_filterMap.mpr ⟨.object header, hcell ▸ Array.getElem_mem_toList hlt, rfl⟩

theorem Visits.le (hv : h.Visits i j) : i ≤ j := by
  induction hv with
  | here i => exact Nat.le_refl i
  | leap _ _ ih => omega
  | step _ _ _ ih => omega

theorem visits_of_object (hi : h.slot? i = some (.object header)) :
    h.Visits i j ↔ j = i ∨ h.Visits (i + header.span) j := by
  constructor
  · intro hv
    cases hv with
    | here => exact .inl rfl
    | leap hi' hj =>
      cases hi.symm.trans hi'
      exact .inr hj
    | step hi' hc _ =>
      cases hi.symm.trans hi'
      cases hc
  · rintro (rfl | hj)
    · exact .here j
    · exact .leap hi hj

theorem visits_of_other {cell : Slot} (hi : h.slot? i = some cell) (hc : cell.header? = none) :
    h.Visits i j ↔ j = i ∨ h.Visits (i + 1) j := by
  constructor
  · intro hv
    cases hv with
    | here => exact .inl rfl
    | leap hi' _ =>
      cases hi.symm.trans hi'
      cases hc
    | step _ _ hj => exact .inr hj
  · rintro (rfl | hj)
    · exact .here j
    · exact .step hi hc hj

/-- Where a scan comes to is a matter of the forms of the cells. -/
theorem Visits.congr (hform : ∀ i, (h'.slot? i).map form = (h.slot? i).map form)
    (hv : h.Visits i j) : h'.Visits i j := by
  induction hv with
  | here i => exact .here i
  | @leap i j header hi _ ih =>
    obtain ⟨header', hi', hspan⟩ :=
      map_form_eq_object.mp ((hform i).trans (congrArg (Option.map form) hi))
    exact .leap hi' (hspan ▸ ih)
  | @step i j cell hi hc _ ih =>
    have hi' := (hform i).trans (congrArg (Option.map form) hi)
    cases cell with
    | empty => exact .step (map_form_eq_empty.mp hi') rfl ih
    | data v =>
      obtain ⟨w, hw⟩ := map_form_eq_data.mp hi'
      exact .step hw rfl ih
    | object header => cases hc

/-! ## Scans and blocks -/

/-- The block stands in the heap, and an object takes what its span says as far as there are
slots. -/
def Stands (h : Heap) : Block → Prop
  | .loose n => ∃ cell, h.slot? n = some cell ∧ cell.header? = none
  | .object n header body =>
    h.slot? n = some (.object header) ∧ body.length + 1 = min header.span (h.capacity - n)

theorem slot?_of_drop (hcells : cells = h.slots.toList.drop n) : h.slot? n = cells[0]? := by
  rw [hcells, List.getElem?_drop, Array.getElem?_toList, Nat.add_zero]
  rfl

theorem drop_succ_of_drop {cell : Slot} (hcells : cell :: cells = h.slots.toList.drop n) :
    cells = h.slots.toList.drop (n + 1) := by
  rw [← List.drop_drop, ← hcells, List.drop_one, List.tail_cons]

/-- Past an object, or past the end if it is cut short. -/
theorem drop_take_of_drop (hcells : .object header :: cells = h.slots.toList.drop n) :
    cells.drop (header.span - 1) =
      h.slots.toList.drop (n + ((cells.take (header.span - 1)).length + 1)) := by
  have hrest := drop_succ_of_drop hcells
  rw [List.length_take, Nat.add_comm _ 1, ← Nat.add_assoc, ← List.drop_drop, ← hrest]
  rcases Nat.le_total (header.span - 1) cells.length with hle | hle
  · rw [Nat.min_eq_left hle]
  · rw [Nat.min_eq_right hle, List.drop_eq_nil_of_le hle, List.drop_length]

theorem length_of_drop (hcells : cells = h.slots.toList.drop n) :
    cells.length = h.capacity - n := by
  rw [hcells, List.length_drop, Array.length_toList, capacity]

theorem Reads.stands (hr : Reads n cells bs) (hcells : cells = h.slots.toList.drop n) :
    ∀ b ∈ bs, h.Stands b := by
  induction hr with
  | nil n => simp
  | loose hc _ ih =>
    exact List.forall_mem_cons.mpr ⟨⟨_, slot?_of_drop hcells, hc⟩, ih (drop_succ_of_drop hcells)⟩
  | @object n header rest bs _ ih =>
    refine List.forall_mem_cons.mpr ⟨⟨slot?_of_drop hcells, ?_⟩, ih (drop_take_of_drop hcells)⟩
    have hlength := length_of_drop hcells
    have hspan : 0 < header.span := header.data.span_pos
    rw [List.length_cons] at hlength
    rw [List.length_take]
    omega

/-- **A scan comes to the first slots of the blocks.** -/
theorem Reads.visits_iff (hr : Reads n cells bs) (hcells : cells = h.slots.toList.drop n)
    (hi : i < h.capacity) : h.Visits n i ↔ ∃ b ∈ bs, b.start = i := by
  induction hr with
  | nil n =>
    have hlength := length_of_drop hcells
    rw [List.length_nil] at hlength
    constructor
    · intro hv
      have := hv.le
      omega
    · rintro ⟨b, hb, -⟩
      cases hb
  | @loose n cell rest bs hc _ ih =>
    rw [visits_of_other (slot?_of_drop hcells) hc, ih (drop_succ_of_drop hcells)]
    simp [eq_comm]
  | @object n header rest bs _ ih =>
    have hlength := length_of_drop hcells
    have hspan : 0 < header.span := header.data.span_pos
    rw [List.length_cons] at hlength
    have hnext : h.Visits (n + header.span) i ↔
        h.Visits (n + ((rest.take (header.span - 1)).length + 1)) i := by
      rw [List.length_take]
      rcases Nat.le_total (header.span - 1) rest.length with hle | hle
      · rw [Nat.min_eq_left hle, Nat.sub_add_cancel hspan]
      · -- both are past the end
        constructor <;> intro hv <;> have := hv.le <;> omega
    rw [visits_of_object (slot?_of_drop hcells), hnext, ih (drop_take_of_drop hcells)]
    simp [eq_comm]

/-- The headers that a scan meets are those of the object blocks. -/
theorem meets_iff : h.Meets r header ↔ ∃ body, .object r header body ∈ h.blocks := by
  have hstands := h.reads_blocks.stands rfl
  constructor
  · rintro ⟨hv, hslot⟩
    obtain ⟨b, hb, rfl⟩ := (h.reads_blocks.visits_iff rfl (lt_capacity_of_slot? hslot)).mp hv
    cases b with
    | loose n =>
      obtain ⟨cell, hcell, hc⟩ := hstands _ hb
      cases hcell.symm.trans hslot
      cases hc
    | object n header' body =>
      cases (hstands _ hb).1.symm.trans hslot
      exact ⟨body, hb⟩
  · rintro ⟨body, hb⟩
    have hslot := (hstands _ hb).1
    exact ⟨(h.reads_blocks.visits_iff rfl (lt_capacity_of_slot? hslot)).mpr ⟨_, hb, rfl⟩, hslot⟩

theorem covers_iff (hi : i < h.capacity) : h.Covers r i ↔
    ∃ header body, .object r header body ∈ h.blocks ∧ i ∈ (Block.object r header body).slots := by
  unfold Covers
  simp only [meets_iff, Block.mem_slots, Block.start_object, Block.size_object]
  constructor
  · rintro ⟨header, ⟨body, hb⟩, hle, hlt⟩
    have hsize := (h.reads_blocks.stands rfl _ hb).2
    exact ⟨header, body, hb, hle, by omega⟩
  · rintro ⟨header, body, hb, hle, hlt⟩
    have hsize := (h.reads_blocks.stands rfl _ hb).2
    exact ⟨header, ⟨body, hb⟩, hle, by omega⟩

/-- **Every usable slot is a block of its own or in the span of exactly one header that is met.** -/
theorem loose_or_covered (hpos : 1 ≤ i) (hi : i < h.capacity) :
    (.loose i ∈ h.blocks ∧ ∀ r, ¬ h.Covers r i) ∨ (.loose i ∉ h.blocks ∧ ∃! r, h.Covers r i) := by
  have hlaid := h.laid_blocks
  have hlength := h.reads_blocks.length_flatMap
  rw [length_of_drop rfl] at hlength
  obtain ⟨b, hb, hmem⟩ := hlaid.exists_mem_of_lt Block.length_cells hpos (by omega)
  rw [← Block.mem_slots] at hmem
  simp only [covers_iff hi]
  cases b with
  | loose n =>
    obtain rfl : i = n := by
      rw [Block.mem_slots, Block.start_loose, Block.size_loose] at hmem
      omega
    refine .inl ⟨hb, ?_⟩
    rintro r ⟨header, body, hb', hmem'⟩
    cases hlaid.eq_of_overlap hb hb' hmem hmem'
  | object r header body =>
    refine .inr ⟨fun hb' => ?_, r, ⟨header, body, hb, hmem⟩, ?_⟩
    · cases hlaid.eq_of_overlap hb hb' hmem (by simp)
    · rintro r' ⟨header', body', hb', hmem'⟩
      cases hlaid.eq_of_overlap hb hb' hmem hmem'
      rfl

end Heap

end ScriptCore
