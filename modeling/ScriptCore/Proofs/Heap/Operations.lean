import ScriptCore.Proofs.Heap.FirstFit
import ScriptCore.Proofs.Heap.Tiling

/-!
# The heap operations keep heaps well formed

One lemma for each operation that writes to the heap:

* a new heap is well formed (`Heap.wellFormed_new`);
* reserving takes a run of free slots and makes it an array of nulls (`Heap.WellFormed.reserve`);
* releasing an object gives its slots back (`Heap.WellFormed.release`);
* replacing a header by one of the same span, or an element by another, changes the form of no
  cell (`Heap.WellFormed.setHeader`, `Heap.WellFormed.write`).

The objects of a well-formed heap have their slots to themselves (`Heap.WellFormed.disjoint`,
`Heap.WellFormed.not_mem_free`).
-/

namespace ScriptCore

/-! ## Taking a run from the free list -/

namespace FreeList

/-- The run that is taken stands somewhere in the list, and the answer is the list without it. -/
theorem takeRun_eq_some {f f' : FreeList} {n s : Nat} (h : f.takeRun n = some (s, f')) :
    0 < n ∧ ∃ before after, f'.slots = before ++ after ∧
      f.slots = before ++ List.range' s n ++ after := by
  obtain ⟨hn, p, hfirst, hslots⟩ := takeRun_eq_some_iff.mp h
  exact ⟨hn, _, _, hslots, hfirst.run.eq_append⟩

/-- If no entry is listed twice, exactly the entries of the run are gone. -/
theorem mem_takeRun {f f' : FreeList} {n s : Nat} (h : f.takeRun n = some (s, f'))
    (hnodup : f.slots.Nodup) :
    f'.slots.Nodup ∧ (∀ i, s ≤ i → i < s + n → i ∈ f.slots) ∧
      ∀ i, i ∈ f'.slots ↔ i ∈ f.slots ∧ ¬ (s ≤ i ∧ i < s + n) := by
  obtain ⟨-, before, after, hrest, hslots⟩ := takeRun_eq_some h
  rw [hslots, List.append_assoc, List.nodup_append] at hnodup
  obtain ⟨hbefore, hnodup, hdisj⟩ := hnodup
  obtain ⟨-, hafter, hdisj'⟩ := List.nodup_append.mp hnodup
  rw [hrest, hslots]
  refine ⟨?_, ?_, ?_⟩
  · exact List.nodup_append.mpr ⟨hbefore, hafter,
      fun i hi j hj => hdisj i hi j (List.mem_append_right _ hj)⟩
  · intro i hs hn
    simp only [List.mem_append, List.mem_range'_1]
    exact .inl (.inr ⟨hs, hn⟩)
  · intro i
    have h1 : i ∈ before → ¬ (s ≤ i ∧ i < s + n) := fun hi hrun =>
      hdisj i hi i (List.mem_append_left _ (List.mem_range'_1.mpr hrun)) rfl
    have h2 : i ∈ after → ¬ (s ≤ i ∧ i < s + n) := fun hi hrun =>
      hdisj' i (List.mem_range'_1.mpr hrun) i hi rfl
    simp only [List.mem_append, List.mem_range'_1]
    grind

end FreeList

namespace Heap

/-! ## A new heap -/

theorem slot?_new {size i : Nat} {cell : Slot} (h : (new size).slot? i = some cell) :
    cell = .empty := by
  obtain ⟨hi, hcell⟩ := Array.getElem?_eq_some_iff.mp h
  rw [← hcell]
  simp [new]

theorem wellFormed_new (size : Nat) : (new size).WellFormed := by
  have hcap : (new size).capacity = max size 1 := by simp [capacity, new]
  have hempty : ∀ {i}, (new size).slot? i = some .empty ↔ i < max size 1 := by
    intro i
    constructor
    · intro h
      exact hcap ▸ lt_capacity_of_slot? h
    · intro h
      simp [slot?, new, h]
  refine ⟨Coherent.tiled ⟨hempty.mpr (by omega), ?_, ?_⟩, List.nodup_range', ?_, ?_⟩
  · intro r header k hr
    cases slot?_new hr
  · intro i v hi
    cases slot?_new hi
  · intro i
    rw [hempty]
    simp only [new, List.mem_range'_1]
    omega
  · intro r header hr
    cases slot?_new (header?_eq_some.mp hr).2

/-! ## Writing a run of cells -/

/-- Where the run that is written lies in the heap, its slots hold the cells written, and all other
slots what they held before. -/
theorem slot?_slotWrite {h : Heap} {free : FreeList} {start : Nat} {cells : List Slot}
    (hrun : ∀ k, k < cells.length → start + k < h.capacity) (i : Nat) :
    (Heap.mk (Slot.write h.slots start cells) free).slot? i =
      if start ≤ i ∧ i < start + cells.length then cells[i - start]? else h.slot? i := by
  rw [slot?, Slot.getElem?_write]
  by_cases hi : start ≤ i ∧ i < start + cells.length
  · have hlt := hrun (i - start) (by omega)
    rw [if_pos hi, if_pos ⟨hi.1, hi.2, by rw [capacity] at hlt; omega⟩]
  · rw [if_neg hi, if_neg (by omega)]
    rfl

theorem length_blank (n : Nat) : (blank n).length = n + 1 := by
  simp [blank]

theorem blank_zero (n : Nat) : (blank n)[0]? = some (.object ⟨.array n, false⟩) := rfl

theorem blank_pos {n k : Nat} (hpos : 0 < k) (hk : k < n + 1) :
    (blank n)[k]? = some (.data .null) := by
  obtain ⟨j, rfl⟩ := Nat.exists_eq_add_of_le' hpos
  simp [blank, List.getElem?_replicate]
  omega

/-- What reserving does: a run of empty slots becomes an array of nulls. -/
theorem WellFormed.reserve_eq_some {h h' : Heap} (hw : h.WellFormed) {size : Nat} {r : Ref}
    (hres : h.reserve size = some (r, h')) :
    0 < size ∧ 1 ≤ r.slot ∧ (∀ k, k < size → h.slot? (r.slot + k) = some .empty) ∧
      (∀ i, h'.slot? i = if r.slot ≤ i ∧ i < r.slot + size then (blank (size - 1))[i - r.slot]?
        else h.slot? i) ∧
      h.free.takeRun size = some (r.slot, h'.free) := by
  obtain ⟨⟨s, free⟩, htake, heq⟩ := Option.map_eq_some_iff.mp hres
  cases heq
  obtain ⟨hsize, -⟩ := FreeList.takeRun_eq_some htake
  obtain ⟨-, hrun, -⟩ := FreeList.mem_takeRun htake hw.free_nodup
  have hempty : ∀ k, k < size → 1 ≤ s + k ∧ h.slot? (s + k) = some .empty := fun k hk =>
    (hw.mem_free _).mp (hrun (s + k) (by omega) (by omega))
  have hlen : (blank (size - 1)).length = size := by
    rw [length_blank]
    omega
  refine ⟨hsize, (hempty 0 hsize).1, fun k hk => (hempty k hk).2, fun i => ?_, htake⟩
  rw [slot?_slotWrite (fun k hk => lt_capacity_of_slot? (hempty k (by omega)).2), hlen]

theorem WellFormed.reserve {h h' : Heap} (hw : h.WellFormed) {size : Nat} {r : Ref}
    (hres : h.reserve size = some (r, h')) : h'.WellFormed := by
  obtain ⟨hsize, hr, hempty, hslot, htake⟩ := hw.reserve_eq_some hres
  obtain ⟨hnodup, -, hmem⟩ := FreeList.mem_takeRun htake hw.free_nodup
  have hc := hw.tiled.coherent
  -- slots that were not empty are not in the run
  have hout : ∀ {i cell}, h.slot? i = some cell → cell ≠ .empty →
      ¬ (r.slot ≤ i ∧ i < r.slot + size) := by
    intro i cell hi hne hrun
    have := hempty (i - r.slot) (by omega)
    rw [show r.slot + (i - r.slot) = i by omega, hi] at this
    exact hne (Option.some.inj this)
  have hold : ∀ {i}, ¬ (r.slot ≤ i ∧ i < r.slot + size) → h'.slot? i = h.slot? i :=
    fun hi => by rw [hslot, if_neg hi]
  have hhead : h'.slot? r.slot = some (.object ⟨.array (size - 1), false⟩) := by
    rw [hslot, if_pos (by omega), Nat.sub_self, blank_zero]
  have hbody : ∀ {i}, r.slot < i → i < r.slot + size → h'.slot? i = some (.data .null) := by
    intro i hlt hi
    rw [hslot, if_pos (by omega), blank_pos (by omega) (by omega)]
  refine ⟨Coherent.tiled ⟨?_, ?_, ?_⟩, hnodup, ?_, ?_⟩
  · rw [hold (by omega), hc.null]
  · intro r' header k hr' hk hspan
    by_cases hrun : r.slot ≤ r' ∧ r' < r.slot + size
    · obtain rfl : r' = r.slot := by
        apply Nat.le_antisymm _ hrun.1
        apply Nat.le_of_not_lt
        intro hlt
        rw [hbody hlt hrun.2] at hr'
        cases hr'
      rw [hhead] at hr'
      cases hr'
      simp only [Header.span, ObjectData.span] at hspan
      exact ⟨_, hbody (by omega) (by omega)⟩
    · rw [hold hrun] at hr'
      obtain ⟨v, hv⟩ := hc.body hr' hk hspan
      exact ⟨v, by rw [hold (hout hv (by simp)), hv]⟩
  · intro i v hi
    by_cases hrun : r.slot ≤ i ∧ i < r.slot + size
    · have hne : i ≠ r.slot := by
        rintro rfl
        rw [hhead] at hi
        cases hi
      refine ⟨r.slot, _, hhead, by omega, ?_⟩
      simp only [Header.span, ObjectData.span]
      omega
    · rw [hold hrun] at hi
      obtain ⟨r', header, hr', hlt, hspan⟩ := hc.owner hi
      exact ⟨r', header, by rw [hold (hout hr' (by simp)), hr'], hlt, hspan⟩
  · intro i
    rw [hmem, hw.mem_free]
    by_cases hrun : r.slot ≤ i ∧ i < r.slot + size
    · have hne : h'.slot? i ≠ some .empty := by
        rcases Nat.eq_or_lt_of_le hrun.1 with rfl | hlt
        · rw [hhead]
          simp
        · rw [hbody hlt hrun.2]
          simp
      simp [hrun, hne]
    · rw [hold hrun]
      simp [hrun]
  · intro r' header hr'
    obtain ⟨hpos, hr'⟩ := header?_eq_some.mp hr'
    by_cases hrun : r.slot ≤ r'.slot ∧ r'.slot < r.slot + size
    · rcases Nat.eq_or_lt_of_le hrun.1 with heq | hlt
      · rw [← heq, hhead] at hr'
        cases hr'
        rfl
      · rw [hbody hlt hrun.2] at hr'
        cases hr'
    · rw [hold hrun] at hr'
      exact hw.unmarked (header?_eq_some.mpr ⟨hpos, hr'⟩)

/-! ## Objects have their slots to themselves -/

/-- The slots of an object hold no other header. -/
theorem Coherent.eq_of_slot?_object {h : Heap} (hc : h.Coherent) {r i : Nat}
    {header header' : Header} (hr : h.slot? r = some (.object header))
    (hi : h.slot? i = some (.object header')) (hle : r ≤ i) (hlt : i < r + header.span) :
    i = r := by
  apply Nat.le_antisymm _ hle
  apply Nat.le_of_not_lt
  intro hne
  obtain ⟨v, hv⟩ := hc.body (k := i - r) hr (by omega) (by omega)
  rw [show r + (i - r) = i by omega, hi] at hv
  cases hv

/-- Two objects that share a slot are one. -/
theorem Coherent.eq_of_overlap {h : Heap} (hc : h.Coherent) {r r' i : Nat}
    {header header' : Header} (hr : h.slot? r = some (.object header))
    (hr' : h.slot? r' = some (.object header')) (hi : r ≤ i ∧ i < r + header.span)
    (hi' : r' ≤ i ∧ i < r' + header'.span) : r' = r := by
  rcases Nat.le_total r r' with hle | hle
  · exact hc.eq_of_slot?_object hr hr' hle (by omega)
  · exact (hc.eq_of_slot?_object hr' hr hle (by omega)).symm

/-- **Different objects have no slot in common.** -/
theorem WellFormed.disjoint {h : Heap} (hw : h.WellFormed) {r r' : Ref} {header header' : Header}
    (hr : h.header? r = some header) (hr' : h.header? r' = some header') (hne : r ≠ r') (i : Nat) :
    ¬ ((r.slot ≤ i ∧ i < r.slot + header.span) ∧ r'.slot ≤ i ∧ i < r'.slot + header'.span) := by
  rintro ⟨hi, hi'⟩
  have heq := hw.tiled.coherent.eq_of_overlap (header?_eq_some.mp hr).2 (header?_eq_some.mp hr').2
    hi hi'
  exact hne (congrArg Ref.mk heq.symm)

theorem WellFormed.not_mem_free {h : Heap} (hw : h.WellFormed) {r : Ref} {header : Header}
    (hr : h.header? r = some header) {i : Nat} (hi : r.slot ≤ i ∧ i < r.slot + header.span) :
    i ∉ h.free.slots := by
  intro hmem
  obtain ⟨cell, hcell, hne⟩ := hw.tiled.coherent.exists_slot? (header?_eq_some.mp hr).2 hi
  rw [((hw.mem_free i).mp hmem).2] at hcell
  exact hne (Option.some.inj hcell).symm

/-! ## Releasing an object -/

/-- The slots of an object that is released are empty, and all others hold what they held. -/
theorem Coherent.slot?_release {h : Heap} (hc : h.Coherent) {r : Ref} {header : Header}
    (hr : h.slot? r.slot = some (.object header)) (i : Nat) :
    (h.release r header.span).slot? i =
      if r.slot ≤ i ∧ i < r.slot + header.span then some .empty else h.slot? i := by
  have hrun : ∀ k, k < (List.replicate header.span Slot.empty).length →
      r.slot + k < h.capacity := by
    intro k hk
    rw [List.length_replicate] at hk
    obtain ⟨cell, hcell, -⟩ := hc.exists_slot? hr (i := r.slot + k) ⟨by omega, by omega⟩
    exact lt_capacity_of_slot? hcell
  rw [Heap.release, slot?_slotWrite hrun, List.length_replicate]
  by_cases hi : r.slot ≤ i ∧ i < r.slot + header.span
  · rw [if_pos hi, if_pos hi, List.getElem?_replicate, if_pos (by omega)]
  · rw [if_neg hi, if_neg hi]

theorem WellFormed.release {h : Heap} (hw : h.WellFormed) {r : Ref} {header : Header}
    (hr : h.header? r = some header) : (h.release r header.span).WellFormed := by
  have hc := hw.tiled.coherent
  obtain ⟨hpos, hr'⟩ := header?_eq_some.mp hr
  have hslot := hc.slot?_release hr'
  -- what is left outside the object was there before
  have hold : ∀ {i cell}, (h.release r header.span).slot? i = some cell → cell ≠ .empty →
      ¬ (r.slot ≤ i ∧ i < r.slot + header.span) ∧ h.slot? i = some cell := by
    intro i cell hi hne
    rw [hslot] at hi
    split at hi
    · exact absurd (Option.some.inj hi).symm hne
    · exact ⟨‹_›, hi⟩
  refine ⟨Coherent.tiled ⟨?_, ?_, ?_⟩, ?_, ?_, ?_⟩
  · rw [hslot, if_neg (by omega), hc.null]
  · intro r' header' k hr'' hk hspan
    obtain ⟨hout, hr''⟩ := hold hr'' (by simp)
    obtain ⟨v, hv⟩ := hc.body hr'' hk hspan
    refine ⟨v, ?_⟩
    rw [hslot, if_neg, hv]
    intro hi
    have heq := hc.eq_of_overlap hr' hr'' hi ⟨by omega, by omega⟩
    have := header.data.span_pos
    exact hout ⟨by omega, by rw [heq]; exact Nat.lt_add_of_pos_right this⟩
  · intro i v hi
    obtain ⟨hout, hi⟩ := hold hi (by simp)
    obtain ⟨r', header', hr'', hlt, hspan⟩ := hc.owner hi
    refine ⟨r', header', ?_, hlt, hspan⟩
    rw [hslot, if_neg, hr'']
    intro hrun
    obtain rfl := hc.eq_of_slot?_object hr' hr'' hrun.1 hrun.2
    rw [hr'] at hr''
    cases hr''
    exact hout ⟨by omega, hspan⟩
  · rw [Heap.release, FreeList.slots_pushRun, List.nodup_append]
    refine ⟨List.nodup_range', hw.free_nodup, ?_⟩
    rintro i hi j hj rfl
    exact hw.not_mem_free hr (List.mem_range'_1.mp hi) hj
  · intro i
    rw [hslot, Heap.release, FreeList.slots_pushRun, List.mem_append, List.mem_range'_1,
      hw.mem_free]
    by_cases hi : r.slot ≤ i ∧ i < r.slot + header.span
    · simp only [hi, and_self, true_or, if_true, and_true, true_iff]
      omega
    · simp [hi]
  · intro r' header' hr''
    obtain ⟨hpos', hr''⟩ := header?_eq_some.mp hr''
    exact hw.unmarked (header?_eq_some.mpr ⟨hpos', (hold hr'' (by simp)).2⟩)

/-! ## Replacing a header or an element -/

theorem slot?_setHeader {h : Heap} {r : Ref} {old : Header} (hr : h.header? r = some old)
    (header : Header) (i : Nat) :
    (h.setHeader r header).slot? i = if i = r.slot then some (.object header) else h.slot? i := by
  have hlt : r.slot < h.slots.size := lt_capacity_of_slot? (header?_eq_some.mp hr).2
  rw [slot?, Heap.setHeader, Array.getElem?_setIfInBounds]
  by_cases hi : i = r.slot
  · rw [if_pos hi.symm, if_pos hlt, if_pos hi]
  · rw [if_neg (Ne.symm hi), if_neg hi]
    rfl

theorem WellFormed.setHeader {h : Heap} (hw : h.WellFormed) {r : Ref} {old header : Header}
    (hr : h.header? r = some old) (hspan : old.span = header.span)
    (hmarked : header.marked = false) : (h.setHeader r header).WellFormed := by
  obtain ⟨-, hslot⟩ := header?_eq_some.mp hr
  refine hw.congr rfl ?_ ?_
  · intro i
    rw [slot?_setHeader hr]
    split
    · subst i
      rw [hslot, Option.map_some, Option.map_some, form, form, hspan]
    · rfl
  · intro r' header' hr'
    rw [header?_setHeader hr] at hr'
    split at hr'
    · cases hr'
      exact hmarked
    · exact hw.unmarked hr'

/-- An element is written where there was one, and nothing else changes. -/
theorem write_eq_ok {h h' : Heap} {index : Nat} {v : Value} (hwrite : h.write index v = .ok h') :
    h'.free = h.free ∧ (∃ w, h.slot? index = some (.data w)) ∧
      ∀ i, h'.slot? i = if i = index then some (.data v) else h.slot? i := by
  unfold Heap.write at hwrite
  split at hwrite
  · rename_i w hw
    cases hwrite
    obtain ⟨cell, hcell, hvalue⟩ := Option.bind_eq_some_iff.mp hw
    refine ⟨rfl, ?_, fun i => ?_⟩
    · cases cell with
      | data w => exact ⟨w, hcell⟩
      | empty => cases hvalue
      | object header => cases hvalue
    · have hlt : index < h.slots.size := lt_capacity_of_slot? hcell
      rw [slot?, Array.getElem?_setIfInBounds]
      by_cases hi : i = index
      · rw [if_pos hi.symm, if_pos hlt, if_pos hi]
      · rw [if_neg (Ne.symm hi), if_neg hi]
        rfl
  · cases hwrite

theorem exists_write {h : Heap} {index : Nat} {w : Value} (hslot : h.slot? index = some (.data w))
    (v : Value) : ∃ h', h.write index v = .ok h' := by
  unfold Heap.write
  rw [hslot]
  exact ⟨_, rfl⟩

theorem WellFormed.write {h h' : Heap} (hw : h.WellFormed) {index : Nat} {v : Value}
    (hwrite : h.write index v = .ok h') : h'.WellFormed := by
  obtain ⟨hfree, ⟨w, hold⟩, hslot⟩ := write_eq_ok hwrite
  refine hw.congr hfree ?_ ?_
  · intro i
    rw [hslot]
    split
    · subst i
      rw [hold]
      rfl
    · rfl
  · intro r header hr
    obtain ⟨hpos, hr⟩ := header?_eq_some.mp hr
    rw [hslot] at hr
    split at hr
    · cases hr
    · exact hw.unmarked (header?_eq_some.mpr ⟨hpos, hr⟩)

end Heap

end ScriptCore
