import ScriptCore.Proofs.Collect.Reachability

/-!
# Marking and sweeping

What marking and sweeping do to a heap, slot by slot. Marking changes the mark of every header and
nothing else, so a heap made up of whole blocks stays one. Sweeping any heap leaves what remains of
each of its blocks (`Heap.blocks_sweep`). If these are whole, it keeps the slots of marked objects,
empties all others and leaves a well-formed heap (`Heap.Tiled.wellFormed_sweep`), whatever the free
list was before.

The second part says the same of the arena: `Arena.get?_sweep` tells which scopes are left.
-/

namespace ScriptCore

namespace Heap

/-! ## Marking -/

/-- A cell with the mark that `u` gives it at slot `i`. -/
def stamp (u : Unreached) (i : Nat) : Slot → Slot
  | .object header =>
    if i = 0 then .object header else .object { header with marked := !u.has (.object ⟨i⟩) }
  | cell => cell

theorem slot?_mark (h : Heap) (u : Unreached) (i : Nat) :
    (h.mark u).slot? i = (h.slot? i).map (stamp u i) := by
  simp only [slot?, mark, Array.getElem?_mapIdx]
  cases h.slots[i]? with
  | none => rfl
  | some cell => cases cell <;> rfl

theorem capacity_mark (h : Heap) (u : Unreached) : (h.mark u).capacity = h.capacity := by
  simp [capacity, mark]

theorem header?_mark (h : Heap) (u : Unreached) (r : Ref) :
    (h.mark u).header? r =
      (h.header? r).map fun header => { header with marked := !u.has (.object r) } := by
  unfold header?
  by_cases h0 : r.slot = 0
  · simp [Ref.isNull, h0]
  · rw [if_neg (by simpa [Ref.isNull] using h0), if_neg (by simpa [Ref.isNull] using h0),
      slot?_mark]
    cases h.slot? r.slot with
    | none => rfl
    | some cell => cases cell <;> simp [stamp, Slot.header?, h0]

theorem form_stamp (u : Unreached) (i : Nat) (cell : Slot) : form (stamp u i cell) = form cell := by
  cases cell with
  | empty => rfl
  | data v => rfl
  | object header =>
    simp only [stamp]
    split <;> rfl

theorem Tiled.mark {h : Heap} (ht : h.Tiled) (u : Unreached) : (h.mark u).Tiled :=
  (ht.coherent.congr fun i => by simp [slot?_mark, Function.comp_def, form_stamp]).tiled

theorem map_data_mapIdx {f : Nat → Slot → Slot}
    (hf : ∀ i cell, (f i cell).header?.map Header.data = cell.header?.map Header.data)
    (cells : List Slot) :
    ((cells.mapIdx f).filterMap Slot.header?).map Header.data =
      (cells.filterMap Slot.header?).map Header.data := by
  induction cells generalizing f with
  | nil => rfl
  | cons cell rest ih =>
    have hrest := ih fun i => hf (i + 1)
    have hcell := hf 0 cell
    rw [List.mapIdx_cons, List.filterMap_cons, List.filterMap_cons]
    cases hnew : (f 0 cell).header? <;> cases hold : cell.header? <;> simp_all

/-- Marking keeps the data of all objects. -/
theorem map_data_headers_mark (h : Heap) (u : Unreached) :
    (h.mark u).headers.map Header.data = h.headers.map Header.data := by
  rw [headers, headers, mark, Array.toList_mapIdx]
  refine map_data_mapIdx ?_ _
  intro i cell
  cases cell with
  | empty => rfl
  | data v => rfl
  | object header =>
    simp only
    split <;> rfl

theorem length_headers_mark (h : Heap) (u : Unreached) :
    (h.mark u).headers.length = h.headers.length := by
  rw [← List.length_map (f := Header.data), map_data_headers_mark, List.length_map]

theorem used_mark (h : Heap) (u : Unreached) : (h.mark u).used = h.used := by
  have hspan : ∀ l : List Header, l.map Header.span = (l.map Header.data).map ObjectData.span :=
    fun l => by rw [List.map_map]; rfl
  rw [used, used, hspan, hspan, map_data_headers_mark]

end Heap

/-! ## Sweeping -/

namespace Block

/-- The blocks that a sweep leaves in place of a block. -/
def remains : Block → List Block
  | loose n => [loose n]
  | object n header body =>
    if header.marked then [object n { header with marked := false } body]
    else (List.range' n (body.length + 1)).map loose

theorem flatMap_cells_remains (b : Block) : b.remains.flatMap cells = b.swept := by
  cases b with
  | loose n => rfl
  | object n header body =>
    simp only [remains, swept]
    split
    · simp [cells]
    · rw [flatMap_cells_map_loose, List.length_range']

@[simp] theorem length_swept (b : Block) : b.swept.length = b.size := by
  cases b with
  | loose n => rfl
  | object n header body =>
    simp only [swept]
    split <;> simp

theorem whole_remains {b c : Block} (hb : b.Whole) (hc : c ∈ b.remains) : c.Whole := by
  cases b with
  | loose n =>
    obtain rfl := List.mem_singleton.mp hc
    trivial
  | object n header body =>
    simp only [remains] at hc
    split at hc
    · obtain rfl := List.mem_singleton.mp hc
      exact hb
    · obtain ⟨i, -, rfl⟩ := List.mem_map.mp hc
      trivial

theorem object_mem_remains {b : Block} {n : Nat} {header : Header} {body : List Slot} :
    object n header body ∈ b.remains ↔
      ∃ old, b = object n old body ∧ old.marked = true ∧
        header = { old with marked := false } := by
  cases b with
  | loose m => simp [remains]
  | object m old body' =>
    simp only [remains]
    split
    · rename_i hmarked
      simp only [List.mem_singleton, object.injEq]
      constructor
      · rintro ⟨rfl, rfl, rfl⟩
        exact ⟨old, ⟨rfl, rfl, rfl⟩, hmarked, rfl⟩
      · rintro ⟨old', ⟨rfl, rfl, rfl⟩, -, rfl⟩
        exact ⟨rfl, rfl, rfl⟩
    · rename_i hmarked
      constructor
      · intro h
        obtain ⟨i, -, hi⟩ := List.mem_map.mp h
        cases hi
      · rintro ⟨old', heq, hmarked', -⟩
        cases heq
        exact absurd hmarked' hmarked

theorem loose_mem_remains {b : Block} {i : Nat} :
    loose i ∈ b.remains ↔ b.survives = false ∧ i ∈ b.slots := by
  cases b with
  | loose n =>
    simp only [remains, List.mem_singleton, loose.injEq, survives, mem_slots, start_loose,
      size_loose, true_and]
    omega
  | object n header body =>
    simp only [remains, survives]
    split
    · rename_i hmarked
      simp [hmarked]
    · rename_i hmarked
      simp [hmarked, slots]

/-- A sum over the objects of a list of blocks is made up of the share of those that die and the
share of those that remain. -/
theorem sum_remains (w : ObjectData → Nat) (bs : List Block) :
    (((bs.filter dies).filterMap header?).map fun header => w header.data).sum +
        (((bs.flatMap remains).filterMap header?).map fun header => w header.data).sum =
      ((bs.filterMap header?).map fun header => w header.data).sum := by
  induction bs with
  | nil => rfl
  | cons b rest ih =>
    rw [List.flatMap_cons, List.filterMap_append, List.map_append, List.sum_append]
    cases b with
    | loose n => simpa [remains, dies, List.filterMap_cons] using ih
    | object n header body =>
      by_cases hmarked : header.marked = true
      · simp [remains, dies, survives, hmarked]
        omega
      · have hloose : ((List.range' n (body.length + 1)).map loose).filterMap header? = [] := by
          simp [List.filterMap_eq_nil_iff]
        simp [remains, dies, survives, hmarked, hloose]
        omega

theorem length_filterMap_header?_dies (bs : List Block) :
    ((bs.filter dies).filterMap header?).length = (bs.filter dies).length := by
  rw [List.filterMap_length_eq_length]
  intro b hb
  obtain ⟨-, hdies⟩ := List.mem_filter.mp hb
  cases b with
  | loose n => cases hdies
  | object n header body => rfl

theorem sum_size_dies {bs : List Block} (hwhole : ∀ b ∈ bs, b.Whole) :
    (bs.filter dies).foldr (fun block slots => block.size + slots) 0 =
      (((bs.filter dies).filterMap header?).map fun header => header.data.span).sum := by
  induction bs with
  | nil => rfl
  | cons b rest ih =>
    have hrest := ih fun c hc => hwhole c (List.mem_cons_of_mem b hc)
    cases b with
    | loose n => simpa [dies] using hrest
    | object n header body =>
      have hlen : body.length + 1 = header.data.span := (hwhole _ List.mem_cons_self).1
      by_cases hmarked : header.marked = true
      · simpa [dies, survives, hmarked] using hrest
      · simp [dies, survives, hmarked, hlen] at hrest ⊢
        exact hrest

end Block

namespace Heap

theorem Reads.replicate {n : Nat} {rest : List Slot} {bs : List Block} (len : Nat)
    (h : Reads (n + len) rest bs) :
    Reads n (List.replicate len .empty ++ rest) ((List.range' n len).map .loose ++ bs) := by
  induction len generalizing n with
  | zero => exact h
  | succ len ih => exact .loose rfl (ih (by rwa [Nat.add_right_comm]))

/-- **What a sweep leaves of the blocks of a heap is read as what is left of each of them**, also
where an object is cut short by the end of the heap. -/
theorem Reads.sweep {n : Nat} {cells : List Slot} {bs : List Block} (h : Reads n cells bs) :
    Reads n (bs.flatMap Block.swept) (bs.flatMap Block.remains) := by
  induction h with
  | nil n => exact .nil n
  | loose _ _ ih => exact .loose rfl ih
  | @object n header rest bs hrest ih =>
    rw [List.flatMap_cons, List.flatMap_cons, Block.swept, Block.remains]
    split
    · -- either the body has its full length, or nothing comes after it
      refine .of_body ?_ (fun hlt => ?_) ih
      · exact List.length_take_le _ _
      · change (rest.take (header.span - 1)).length < header.span - 1 at hlt
        rw [List.length_take] at hlt
        rw [List.drop_eq_nil_of_le (by omega)] at hrest
        cases hrest
        rfl
    · exact .replicate _ ih

/-- The null slot stays what it is, and each block is swept. -/
theorem toList_sweep (h : Heap) : h.sweep.slots.toList =
    h.slots.toList.take 1 ++ h.blocks.flatMap Block.swept := by
  rw [sweep, sweepBlocks, Array.toList_append, Array.take_eq_extract, Array.toList_extract]
  rfl

theorem blocks_of_slots_eq_nil {h : Heap} (hnil : h.slots.toList = []) : h.blocks = [] := by
  refine Reads.blocks_eq ?_
  rw [hnil]
  exact .nil 1

/-- What is left of each block makes up the heap after a sweep. -/
theorem blocks_sweep (h : Heap) : h.sweep.blocks = h.blocks.flatMap Block.remains := by
  refine Reads.blocks_eq ?_
  rw [toList_sweep]
  cases hslots : h.slots.toList with
  | nil =>
    rw [blocks_of_slots_eq_nil hslots]
    exact .nil 1
  | cons null rest => exact h.reads_blocks.sweep

/-- An object block of a swept heap was there before, with a mark. -/
theorem object_mem_sweep {h : Heap} {n : Nat} {header : Header} {body : List Slot} :
    .object n header body ∈ h.sweep.blocks ↔
      ∃ old, .object n old body ∈ h.blocks ∧ old.marked = true ∧
        header = { old with marked := false } := by
  rw [blocks_sweep, List.mem_flatMap]
  constructor
  · rintro ⟨b, hb, hmem⟩
    obtain ⟨old, rfl, hmarked, hheader⟩ := Block.object_mem_remains.mp hmem
    exact ⟨old, hb, hmarked, hheader⟩
  · rintro ⟨old, hb, hmarked, hheader⟩
    exact ⟨_, hb, Block.object_mem_remains.mpr ⟨old, rfl, hmarked, hheader⟩⟩

/-- The free list has the blocks of a swept heap that are no objects. -/
theorem mem_free_sweep {h : Heap} {i : Nat} :
    i ∈ h.sweep.free.slots ↔ .loose i ∈ h.sweep.blocks := by
  rw [blocks_sweep]
  simp [Heap.sweep, sweepBlocks, List.mem_flatMap, Block.loose_mem_remains, and_assoc]

theorem pairwise_free_sweep (h : Heap) : h.sweep.free.slots.Pairwise (· < ·) :=
  h.laid_blocks.pairwise_slots _

theorem length_flatMap_swept (h : Heap) :
    (h.blocks.flatMap Block.swept).length = (h.slots.toList.drop 1).length := by
  rw [← h.reads_blocks.length_flatMap]
  simp only [List.length_flatMap, Block.length_swept, Block.length_cells]

theorem capacity_sweep (h : Heap) : h.sweep.capacity = h.capacity := by
  rw [capacity, ← Array.length_toList, toList_sweep, List.length_append, h.length_flatMap_swept,
    capacity, ← Array.length_toList, ← List.length_append, List.take_append_drop]

namespace Tiled

variable {h : Heap}

theorem toList_sweep (ht : h.Tiled) :
    h.sweep.slots.toList = .empty :: (h.blocks.flatMap Block.remains).flatMap Block.cells := by
  have hcells : (h.blocks.flatMap Block.remains).flatMap Block.cells =
      h.blocks.flatMap Block.swept := by
    rw [List.flatMap_assoc]
    simp only [Block.flatMap_cells_remains]
  rw [hcells, Heap.toList_sweep, ht.toList_slots]
  rfl

theorem whole_remains (ht : h.Tiled) : ∀ c ∈ h.blocks.flatMap Block.remains, c.Whole := by
  intro c hc
  obtain ⟨b, hb, hc⟩ := List.mem_flatMap.mp hc
  exact Block.whole_remains (ht.whole b hb) hc

theorem sweep (ht : h.Tiled) : h.sweep.Tiled :=
  ⟨_, h.reads_blocks.sweep.laid, ht.whole_remains, ht.toList_sweep⟩

theorem header?_sweep (ht : h.Tiled) {r : Ref} {header : Header} :
    h.sweep.header? r = some header ↔
      ∃ old, h.header? r = some old ∧ old.marked = true ∧
        header = { old with marked := false } := by
  rw [ht.sweep.header?_eq_some_iff]
  constructor
  · rintro ⟨body, hb⟩
    obtain ⟨old, hb, hmarked, hheader⟩ := object_mem_sweep.mp hb
    exact ⟨old, ht.header?_eq_some_iff.mpr ⟨body, hb⟩, hmarked, hheader⟩
  · rintro ⟨old, hold, hmarked, hheader⟩
    obtain ⟨body, hb⟩ := ht.header?_eq_some_iff.mp hold
    exact ⟨body, object_mem_sweep.mpr ⟨old, hb, hmarked, hheader⟩⟩

/-- The elements of a marked object stay. -/
theorem slot?_sweep (ht : h.Tiled) {r : Ref} {header : Header} (hr : h.header? r = some header)
    (hmarked : header.marked = true) {k : Nat} (hpos : 0 < k) (hk : k < header.span) :
    h.sweep.slot? (r.slot + k) = h.slot? (r.slot + k) := by
  obtain ⟨body, hb⟩ := ht.header?_eq_some_iff.mp hr
  have hb' := object_mem_sweep.mpr ⟨header, hb, hmarked, rfl⟩
  have hlen := (ht.whole _ hb).1
  have hold := ht.slot?_block hb (k := k) (by rw [Block.size_object]; omega)
  have hnew := ht.sweep.slot?_block hb' (k := k) (by rw [Block.size_object]; omega)
  rw [Block.start_object] at hold hnew
  rw [hold, hnew]
  obtain ⟨j, rfl⟩ := Nat.exists_eq_add_of_le' hpos
  simp [Block.cells]

/-- **A sweep leaves a well-formed heap, whatever the free list was before.** -/
theorem wellFormed_sweep (ht : h.Tiled) : h.sweep.WellFormed := by
  refine wellFormed_of_blocks h.reads_blocks.sweep.laid ht.whole_remains ht.toList_sweep
    (h.pairwise_free_sweep.imp Nat.ne_of_lt) ?_ ?_
  · intro i
    rw [mem_free_sweep, blocks_sweep]
  · intro n header body hb
    obtain ⟨b, -, hb⟩ := List.mem_flatMap.mp hb
    obtain ⟨old, -, -, rfl⟩ := Block.object_mem_remains.mp hb
    rfl

/-- The objects freed by a sweep and the objects left are the objects there were. -/
theorem length_headers_sweep (ht : h.Tiled) :
    (h.blocks.filter Block.dies).length + h.sweep.headers.length = h.headers.length := by
  have hsum := Block.sum_remains (fun _ => 1) h.blocks
  rw [← h.blocks_sweep, ← ht.headers_eq, ← ht.sweep.headers_eq] at hsum
  rwa [List.map_const', List.map_const', List.map_const', List.sum_replicate_nat,
    List.sum_replicate_nat, List.sum_replicate_nat, Nat.mul_one, Nat.mul_one, Nat.mul_one,
    Block.length_filterMap_header?_dies] at hsum

theorem used_sweep (ht : h.Tiled) :
    (h.blocks.filter Block.dies).foldr (fun block slots => block.size + slots) 0 + h.sweep.used =
      h.used := by
  have hsum := Block.sum_remains ObjectData.span h.blocks
  rw [← h.blocks_sweep, ← ht.headers_eq, ← ht.sweep.headers_eq] at hsum
  rw [Block.sum_size_dies ht.whole]
  exact hsum

end Tiled

end Heap

/-! ## Scopes -/

namespace Arena

theorem mem_ids {a : Arena} {id : ScopeId} : id ∈ a.ids ↔ a.contains id = true := by
  simp only [ids, List.mem_filter, and_iff_right_iff_imp]
  intro hid
  refine List.mem_map.mpr ⟨id.index, List.mem_range.mpr ?_, rfl⟩
  apply Nat.lt_of_not_le
  intro hle
  simp [contains, get?, Array.getElem?_eq_none hle] at hid

@[simp] theorem global_release (a : Arena) (id : ScopeId) : (a.release id).global = a.global := by
  unfold release
  split <;> rfl

@[simp] theorem nextSerial_release (a : Arena) (id : ScopeId) :
    (a.release id).nextSerial = a.nextSerial := by
  unfold release
  split <;> rfl

@[simp] theorem suspended_release (a : Arena) (id : ScopeId) :
    (a.release id).suspended = a.suspended := by
  unfold release
  split <;> rfl

/-- Reclaiming scopes one by one leaves the scopes that are not listed. -/
theorem get?_foldl_release (a : Arena) (dead : List ScopeId) (id : ScopeId) :
    (dead.foldl release a).get? id = if id ∈ dead then none else a.get? id := by
  induction dead generalizing a with
  | nil => simp
  | cons d rest ih =>
    rw [List.foldl_cons, ih, get?_release]
    by_cases hrest : id ∈ rest
    · simp [hrest]
    · by_cases hd : id = d
      · simp [hd]
      · simp [hrest, hd]

theorem liveCount_release_le (a : Arena) (id : ScopeId) :
    (a.release id).liveCount ≤ a.liveCount := by
  unfold release
  split
  · rw [liveCount, liveCount, Array.setIfInBounds]
    split
    · rw [Array.countP_set]
      simp
    · exact Nat.le_refl _
  · exact Nat.le_refl _

theorem liveCount_sweep_le (a : Arena) (u : Unreached) : (a.sweep u).liveCount ≤ a.liveCount := by
  rw [sweep]
  generalize a.ids.filter _ = dead
  induction dead generalizing a with
  | nil => exact Nat.le_refl _
  | cons d rest ih => exact Nat.le_trans (ih _) (a.liveCount_release_le d)

theorem frame_sweep (a : Arena) (u : Unreached) :
    (a.sweep u).global = a.global ∧ (a.sweep u).nextSerial = a.nextSerial ∧
      (a.sweep u).suspended = a.suspended := by
  rw [sweep]
  generalize a.ids.filter _ = dead
  induction dead generalizing a with
  | nil => exact ⟨rfl, rfl, rfl⟩
  | cons d rest ih => simpa using ih (a.release d)

theorem size_sweep (a : Arena) (u : Unreached) : (a.sweep u).scopes.size = a.scopes.size := by
  rw [sweep]
  generalize a.ids.filter _ = dead
  induction dead generalizing a with
  | nil => rfl
  | cons d rest ih =>
    have hrelease : (a.release d).scopes.size = a.scopes.size := by
      unfold release
      split
      · exact Array.size_setIfInBounds
      · rfl
    exact (ih (a.release d)).trans hrelease

/-- A sweep reclaims the unreached scopes, the global one excepted. -/
theorem get?_sweep (a : Arena) (u : Unreached) (id : ScopeId) :
    (a.sweep u).get? id =
      if u.has (.scope id) = true ∧ id ≠ a.global then none else a.get? id := by
  rw [sweep, get?_foldl_release]
  by_cases hdead : u.has (.scope id) = true ∧ id ≠ a.global
  · rw [if_pos hdead]
    by_cases hlive : a.contains id = true
    · rw [if_pos (List.mem_filter.mpr ⟨mem_ids.mpr hlive, by simpa using hdead⟩)]
    · have hnone : a.get? id = none := by simpa [contains] using hlive
      rw [hnone, ite_self]
  · rw [if_neg hdead, if_neg]
    intro hmem
    exact hdead (by simpa using (List.mem_filter.mp hmem).2)

end Arena

end ScriptCore
