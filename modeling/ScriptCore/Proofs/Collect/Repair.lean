import ScriptCore.Proofs.Collect.Cursor
import ScriptCore.Proofs.Heap.Auditing

/-!
# Collection repairs the free list

Nothing is assumed here of how the heap is laid out before a collection: headers may stand within
the span of another, spans may reach past the end, and the free list may be anything. What a
collection leaves is told by a scan from the first usable slot on. The headers that it meets are
those that were met before and have been reached (`Heap.meets_reclaim`), and every usable slot is
either on the free list or in the span of exactly one of them (`reclaim_repairs`).

A collection on machine words comes to this result if the spans of the headers that are met are
machine words, in no more rounds than there are slots (`collection_repairs_free_list`). One array of
the greatest length is enough to keep it from coming to an end
(`greatest_array_stalls_collection`).
-/

namespace ScriptCore

namespace Heap

variable {h : Heap} {i r : Nat} {header : Header}

/-! ## Collections -/

/-- What is met after a sweep are the marked headers that were met before. -/
theorem meets_sweep : h.sweep.Meets r header ↔
    ∃ old, h.Meets r old ∧ old.marked = true ∧ header = { old with marked := false } := by
  simp only [meets_iff, object_mem_sweep]
  constructor
  · rintro ⟨body, old, hb, hmarked, hheader⟩
    exact ⟨old, ⟨body, hb⟩, hmarked, hheader⟩
  · rintro ⟨old, ⟨body, hb⟩, hmarked, hheader⟩
    exact ⟨body, old, hb, hmarked, hheader⟩

/-- What is on the free list after a sweep are empty slots. -/
theorem slot?_of_mem_free_sweep (hi : i ∈ h.sweep.free.slots) :
    1 ≤ i ∧ h.sweep.slot? i = some .empty := by
  refine ⟨h.sweep.laid_blocks.start_le (mem_free_sweep.mp hi), ?_⟩
  rw [mem_free_sweep, blocks_sweep, List.mem_flatMap] at hi
  obtain ⟨b, hb, hloose⟩ := hi
  obtain ⟨hdead, hmem⟩ := Block.loose_mem_remains.mp hloose
  obtain ⟨hle, hlt⟩ := Block.mem_slots.mp hmem
  obtain ⟨k, rfl⟩ := Nat.exists_eq_add_of_le hle
  have hslots := h.toList_sweep
  cases hnull : h.slots.toList with
  | nil =>
    rw [blocks_of_slots_eq_nil hnull] at hb
    cases hb
  | cons null rest =>
    rw [hnull, List.take_succ_cons, List.take_zero, List.singleton_append] at hslots
    rw [slot?_flatMap Block.length_swept h.laid_blocks hslots hb (by omega)]
    cases b with
    | loose n =>
      obtain rfl : k = 0 := by simp only [Block.size_loose] at hlt; omega
      rfl
    | object n header body =>
      rw [Block.survives] at hdead
      rw [Block.swept, hdead, if_neg Bool.false_ne_true, List.getElem?_replicate, if_pos]
      simp only [Block.size_object] at hlt
      omega

/-- What is met after a collection are the headers that were met before and have been reached. -/
theorem meets_reclaim (m : Memory) (a : Arena) (u : Unreached) :
    (reclaim m a u).2.1.heap.Meets r header ↔ ∃ old, m.heap.Meets r old ∧
      u.has (.object ⟨r⟩) = false ∧ header = { old with marked := false } := by
  change (m.heap.mark u).sweep.Meets r header ↔ _
  rw [meets_sweep]
  simp only [meets_mark]
  constructor
  · rintro ⟨_, ⟨old, hold, rfl⟩, hmarked, rfl⟩
    exact ⟨old, hold, by simpa using hmarked, rfl⟩
  · rintro ⟨old, hold, hreached, rfl⟩
    exact ⟨_, ⟨old, hold, rfl⟩, by simp [hreached], rfl⟩

end Heap

/-- What a collection makes of a memory when the cells in `u` have not been reached. -/
structure Repaired (m : Memory) (u : Unreached) (m' : Memory) : Prop where
  /-- No slot has been lost. -/
  capacity : m'.heap.capacity = m.heap.capacity
  /-- The free list is in ascending order. -/
  free_ascending : m'.heap.free.slots.Pairwise (· < ·)
  /-- It has empty usable slots only. -/
  free_empty : ∀ i ∈ m'.heap.free.slots,
    1 ≤ i ∧ i < m'.heap.capacity ∧ m'.heap.slot? i = some .empty
  /-- A scan meets the headers that it met before, as far as they have been reached. -/
  meets_iff : ∀ r header, m'.heap.Meets r header ↔ ∃ old, m.heap.Meets r old ∧
    u.has (.object ⟨r⟩) = false ∧ header = { old with marked := false }
  /-- Every usable slot is either listed or in the span of exactly one header that is met. -/
  listed_or_covered : ∀ i, 1 ≤ i → i < m'.heap.capacity →
    (i ∈ m'.heap.free.slots ∧ ∀ r, ¬ m'.heap.Covers r i) ∨
      (i ∉ m'.heap.free.slots ∧ ∃! r, m'.heap.Covers r i)
  /-- An audit finds nothing wrong but empty slots that are not listed. -/
  verify : m'.verify = .ok () ∨ ∃ n, 0 < n ∧
    m'.verify = .error (.freeListCorrupted (FreeListProblem.unlisted n).message)

theorem reclaim_repairs (m : Memory) (a : Arena) (u : Unreached) :
    Repaired m u (reclaim m a u).2.1 := by
  have hascending : (m.heap.mark u).sweep.free.slots.Pairwise (· < ·) :=
    Heap.pairwise_free_sweep _
  have hlisted : ∀ i ∈ (m.heap.mark u).sweep.free.slots,
      1 ≤ i ∧ (m.heap.mark u).sweep.slot? i = some .empty := fun i => Heap.slot?_of_mem_free_sweep
  refine {
    capacity := (Heap.capacity_sweep _).trans (Heap.capacity_mark _ _)
    free_ascending := hascending
    free_empty := fun i hi => ?_
    meets_iff := fun r header => Heap.meets_reclaim m a u
    listed_or_covered := fun i hpos hi => ?_
    verify := Memory.verify_of_listed (hascending.imp Nat.ne_of_lt) hlisted }
  · obtain ⟨hpos, hempty⟩ := hlisted i hi
    exact ⟨hpos, Heap.lt_capacity_of_slot? hempty, hempty⟩
  · change (i ∈ (m.heap.mark u).sweep.free.slots ∧ _) ∨ (i ∉ (m.heap.mark u).sweep.free.slots ∧ _)
    rw [Heap.mem_free_sweep]
    exact Heap.loose_or_covered hpos hi

/-- **A collection repairs the free list, whatever the layout of the heap was before**, as long as
the spans of the headers that a scan meets are machine words. It takes no more rounds than there are
slots. -/
theorem collection_repairs_free_list (m : Memory) (a : Arena) (extra : RootSet)
    (hspans : ∀ r header, m.heap.Meets r header → header.span < wordCount) :
    ∃ report m' a', (∀ rounds, m.heap.capacity ≤ rounds →
        collectWithin rounds m a extra = some (report, m', a')) ∧
      Repaired m (wordGarbage m a extra) m' :=
  ⟨_, _, _, fun _ => collectWithin_eq_some a extra hspans, reclaim_repairs m a _⟩

/-- A heap with a header within the span of another, a span that reaches past the end, an element
that belongs to no array, and a free list that is all wrong. -/
def Heap.tangled : Heap where
  slots := #[.empty, .object ⟨.array 2, false⟩, .object ⟨.array 9, false⟩, .data (.bool true),
    .data .null, .object ⟨.array 40, false⟩, .data .null]
  free := ⟨[3, 3, 0, 99]⟩

/-- A collection of such a heap, with the first array in use. -/
theorem collection_repairs_free_list_tangled :
    (∀ r header, Heap.tangled.Meets r header → header.span < wordCount) ∧
      ∃ report m' a', (∀ rounds, Heap.tangled.capacity ≤ rounds →
          collectWithin rounds { heap := Heap.tangled, managed := [⟨1⟩] } Arena.new {} =
            some (report, m', a')) ∧
        Repaired { heap := Heap.tangled, managed := [⟨1⟩] }
          (wordGarbage { heap := Heap.tangled, managed := [⟨1⟩] } Arena.new {}) m' := by
  have hspans : ∀ r header, Heap.tangled.Meets r header → header.span < wordCount := by
    intro r header hmeets
    have hall : ∀ header ∈ Heap.tangled.headers, header.span < wordCount := by decide
    exact hall header hmeets.mem_headers
  exact ⟨hspans, collection_repairs_free_list { heap := Heap.tangled, managed := [⟨1⟩] } Arena.new {}
    hspans⟩

/-- **A collection does not come to an end** once the header of the one object has been patched to
that of an array of the greatest length. -/
theorem greatest_array_stalls_collection : ∃ r m m',
    (Memory.new 4 true).tryAllocate 1 = some (r, m) ∧
      m.patchData r (.array (wordCount - 1)) = .ok m' ∧
      ∀ rounds, collectWithin rounds m' Arena.new {} = none := by
  refine ⟨⟨1⟩, _, _, rfl, rfl, (collectWithin_eq_none_iff _ _ fun r header hmeets => ?_).mpr
    ⟨1, _, ⟨.here 1, rfl⟩, rfl⟩⟩
  cases List.mem_singleton.mp hmeets.mem_headers
  exact Nat.le_refl _

end ScriptCore
