import ScriptCore.Collect.Cursor
import ScriptCore.Proofs.Collect.Exactness
import ScriptCore.Proofs.Heap.Scanning

/-!
# The cursor goes from block to block

One look at the slot under the cursor deals with the block that starts there, provided that the span
of its header is a machine word (`Sweep.Before.next`). So the cursor passes all blocks of a heap in
which a scan meets such headers only, and the collection on machine words does what a collection by
blocks does (`collectWithin_eq_some`). A cursor that comes to a header whose span is one more than
the greatest word stays there, and then no number of rounds is enough (`collectWithin_eq_none_iff`).

The two collections agree on every heap whose objects end within the machine words
(`collectWithin_eq_collect`), which a tiled heap has.
-/

namespace ScriptCore

/-! ## Cells that are written -/

namespace Slot

variable (slots : Array Slot) (start : Nat) (xs ys : List Slot)

theorem write_append : write slots start (xs ++ ys) =
    write (write slots start xs) (start + xs.length) ys := by
  induction xs generalizing slots start with
  | nil => rfl
  | cons x xs ih =>
    rw [List.cons_append, write, write, ih, List.length_cons, Nat.add_assoc, Nat.add_comm 1]

theorem drop_write : (write slots start xs).toList.drop (start + xs.length) =
    slots.toList.drop (start + xs.length) := by
  refine List.ext_getElem? fun i => ?_
  rw [List.getElem?_drop, List.getElem?_drop, Array.getElem?_toList, Array.getElem?_toList,
    getElem?_write, if_neg (by omega)]

variable {slots start xs ys}

/-- Writing what is there already changes nothing. -/
theorem write_of_drop (hthere : slots.toList.drop start = xs ++ ys) :
    write slots start xs = slots := by
  refine Array.ext_getElem? fun i => ?_
  rw [getElem?_write]
  split
  · rename_i hi
    have hcell : (xs ++ ys)[i - start]? = slots[i]? := by
      rw [← hthere, List.getElem?_drop, Array.getElem?_toList, Nat.add_sub_cancel' hi.1]
    rw [← hcell, List.getElem?_append_left (by omega)]
  · rfl

/-- Where only the first cell is another one, it is enough to write this cell. -/
theorem write_cons_of_drop {old cell : Slot} (hthere : slots.toList.drop start = old :: (xs ++ ys)) :
    write slots start (cell :: xs) = slots.setIfInBounds start cell := by
  have hdrop : (slots.setIfInBounds start cell).toList.drop (start + 1) =
      slots.toList.drop (start + 1) := drop_write slots start [cell]
  have hrest : slots.toList.drop (start + 1) = xs ++ ys := by
    rw [← List.drop_drop, hthere, List.drop_one, List.tail_cons]
  rw [write, write_of_drop (hdrop.trans hrest)]

/-- Writing up to the end. -/
theorem toList_write_of_length (hlength : xs.length = slots.size - start) :
    (write slots start xs).toList = slots.toList.take start ++ xs := by
  have htake : (slots.toList.take start).length = min start slots.size := by
    rw [List.length_take, Array.length_toList]
  refine List.ext_getElem? fun i => ?_
  rw [Array.getElem?_toList, getElem?_write]
  rcases Nat.lt_or_ge i (min start slots.size) with hlt | hge
  · rw [if_neg (by omega), List.getElem?_append_left (by omega), List.getElem?_take,
      if_pos (by omega), Array.getElem?_toList]
  · rw [List.getElem?_append_right (by omega), htake]
    rcases Nat.lt_or_ge i slots.size with hi | hi
    · rw [if_pos (by omega), Nat.min_eq_left (by omega)]
    · rw [if_neg (by omega), Array.getElem?_eq_none hi, List.getElem?_eq_none (by omega)]

end Slot

/-! ## One look -/

/-- The span of the block's header, if it has one, is a machine word. -/
def Block.Fits (b : Block) : Prop :=
  ∀ header ∈ b.header?, header.span < wordCount

namespace Sweep

variable {s : Sweep} {b : Block} {bs : List Block}

/-- The cells from the cursor on are read as the blocks `bs`. -/
def Before (s : Sweep) (bs : List Block) : Prop :=
  Heap.Reads s.cursor (s.slots.toList.drop s.cursor) bs

theorem before_start (h : Heap) : (start h).Before h.blocks := h.reads_blocks

/-- The sweep in which the cursor has passed the block in front of it. -/
def pass (s : Sweep) (b : Block) : Sweep where
  slots := Slot.write s.slots s.cursor b.swept
  cursor := s.cursor + b.size
  free := if b.survives then s.free else s.free ++ b.slots
  freedObjects := if b.dies then s.freedObjects + 1 else s.freedObjects
  freedSlots := if b.dies then s.freedSlots + b.size else s.freedSlots

theorem drop_pass : (s.pass b).slots.toList.drop (s.pass b).cursor =
    s.slots.toList.drop (s.cursor + b.size) := by
  have hdrop := Slot.drop_write s.slots s.cursor b.swept
  rwa [Block.length_swept] at hdrop

theorem Before.pass (hb : s.Before (b :: bs)) : (s.pass b).Before bs := by
  unfold Before at hb ⊢
  rw [drop_pass]
  generalize hcells : s.slots.toList.drop s.cursor = cells at hb
  cases hb with
  | loose hc hrest =>
    have hdrop := Heap.drop_succ_of_drop (h := s.heap) hcells.symm
    rwa [hdrop] at hrest
  | object hrest =>
    have hdrop := Heap.drop_take_of_drop (h := s.heap) hcells.symm
    rwa [hdrop] at hrest

theorem Before.stands (hb : s.Before (b :: bs)) : b.start = s.cursor ∧ s.heap.Stands b :=
  ⟨(Heap.Reads.laid hb).1, Heap.Reads.stands hb rfl b List.mem_cons_self⟩

/-- The cursor has not passed the last slot as long as there is a block in front of it. -/
theorem Before.cursor_lt (hb : s.Before (b :: bs)) : s.cursor < s.slots.size := by
  obtain ⟨hstart, hstands⟩ := hb.stands
  rw [← hstart]
  cases b with
  | loose n =>
    obtain ⟨cell, hslot, -⟩ := hstands
    exact Heap.lt_capacity_of_slot? hslot
  | object n header body => exact Heap.lt_capacity_of_slot? hstands.1

theorem Before.getElem?_cursor {header : Header} (hb : s.Before (b :: bs))
    (hheader : b.header? = some header) : s.slots[s.cursor]? = some (.object header) := by
  obtain ⟨hstart, hstands⟩ := hb.stands
  rw [← hstart]
  cases b with
  | loose n => cases hheader
  | object n first body =>
    cases hheader
    exact hstands.1

/-- **One look at the slot under the cursor deals with the whole block.** -/
theorem Before.next (hb : s.Before (b :: bs)) (hfits : b.Fits) : s.next = s.pass b := by
  obtain ⟨-, hstands⟩ := hb.stands
  unfold Before at hb
  generalize hcells : s.slots.toList.drop s.cursor = cells at hb
  cases hb with
  | loose =>
    obtain ⟨cell, hslot, hc⟩ := hstands
    change s.slots[s.cursor]? = some cell at hslot
    rw [Sweep.next, hslot]
    cases cell with
    | empty => rfl
    | data v => rfl
    | object header => cases hc
  | @object n header rest bs hrest =>
    obtain ⟨hslot, hsize⟩ := hstands
    change s.slots[s.cursor]? = some (.object header) at hslot
    change _ = min header.span (s.slots.size - s.cursor) at hsize
    have hword : header.wordSpan = header.span := ObjectData.wordSpan_of_lt (hfits header rfl)
    rw [Sweep.next, hslot]
    simp only [hword, ← hsize, Sweep.pass, Block.swept, Block.survives, Block.dies,
      Block.isObject, Block.slots, Block.start_object, Block.size_object]
    rcases Bool.eq_false_or_eq_true header.marked with hm | hm
    · -- the cells after the header are left as they are
      rw [← List.take_append_drop (header.span - 1) rest] at hcells
      simp only [hm, if_true, Bool.not_true, Bool.and_false, Bool.false_eq_true, if_false,
        Slot.write_cons_of_drop hcells]
    · simp only [hm, Bool.false_eq_true, if_false, Bool.not_false, Bool.and_true, if_true]

/-! ## All looks -/

theorem run_of_le (rounds : Nat) (hle : s.slots.size ≤ s.cursor) : s.run rounds = some s := by
  cases rounds <;> exact if_neg (Nat.not_lt_of_le hle)

theorem run_succ (rounds : Nat) (hlt : s.cursor < s.slots.size) :
    s.run (rounds + 1) = s.next.run rounds :=
  if_pos hlt

/-- A cursor that is always in front of headers whose spans are machine words passes all blocks, in
no more rounds than there are slots. -/
theorem Before.run_eq_some (hb : s.Before bs) (hfits : ∀ b ∈ bs, b.Fits) {rounds : Nat}
    (hrounds : s.slots.size ≤ s.cursor + rounds) :
    s.run rounds = some (bs.foldl Sweep.pass s) := by
  induction bs generalizing s rounds with
  | nil =>
    have hlength := Heap.Reads.length_flatMap hb
    have hsize := s.slots.length_toList
    rw [List.flatMap_nil, List.length_nil, List.length_drop] at hlength
    exact run_of_le rounds (by omega)
  | cons b bs ih =>
    have hlt := hb.cursor_lt
    obtain ⟨rounds, rfl⟩ := Nat.exists_eq_add_of_lt (show 0 < rounds by omega)
    rw [Nat.zero_add, run_succ rounds hlt, hb.next (hfits b List.mem_cons_self), List.foldl_cons]
    refine ih hb.pass (fun c hc => hfits c (List.mem_cons_of_mem b hc)) ?_
    have hpos := b.size_pos
    rw [Sweep.pass, Slot.size_write]
    simp only
    omega

/-- The cursor is at a header whose span comes out as `0`. -/
def Stuck (s : Sweep) : Prop :=
  ∃ header, s.slots[s.cursor]? = some (.object header) ∧ header.wordSpan = 0

theorem Stuck.next (hs : s.Stuck) : s.next.Stuck := by
  obtain ⟨header, hslot, hspan⟩ := hs
  rw [Sweep.next, hslot]
  have hlt := (Array.getElem?_eq_some_iff.mp hslot).1
  simp only [hspan, Nat.zero_min, Nat.add_zero, List.replicate_zero, Slot.write]
  split
  · refine ⟨{ header with marked := false }, ?_, hspan⟩
    rw [Array.getElem?_setIfInBounds_self_of_lt hlt]
  · exact ⟨header, hslot, hspan⟩

theorem Stuck.cursor_lt (hs : s.Stuck) : s.cursor < s.slots.size := by
  obtain ⟨header, hslot, -⟩ := hs
  exact (Array.getElem?_eq_some_iff.mp hslot).1

theorem Stuck.run_eq_none (hs : s.Stuck) (rounds : Nat) : s.run rounds = none := by
  induction rounds generalizing s with
  | zero => exact if_pos hs.cursor_lt
  | succ rounds ih =>
    rw [run_succ rounds hs.cursor_lt]
    exact ih hs.next

/-- A cursor that comes to a header whose span is one more than the greatest word never passes the
last slot. -/
theorem Before.run_eq_none (hb : s.Before bs)
    (hwords : ∀ b ∈ bs, ∀ header ∈ b.header?, header.span ≤ wordCount)
    (hstuck : ∃ b ∈ bs, ∃ header ∈ b.header?, header.span = wordCount) (rounds : Nat) :
    s.run rounds = none := by
  induction bs generalizing s rounds with
  | nil =>
    obtain ⟨b, hmem, -⟩ := hstuck
    cases hmem
  | cons b bs ih =>
    by_cases hstall : ∃ header ∈ b.header?, header.span = wordCount
    · obtain ⟨header, hheader, hspan⟩ := hstall
      exact Stuck.run_eq_none
        ⟨header, hb.getElem?_cursor hheader, ObjectData.wordSpan_of_eq hspan⟩ rounds
    · have hfits : b.Fits := fun header hheader =>
        Nat.lt_of_le_of_ne (hwords b List.mem_cons_self header hheader)
          fun hspan => hstall ⟨header, hheader, hspan⟩
      cases rounds with
      | zero => exact if_pos hb.cursor_lt
      | succ rounds =>
        rw [run_succ rounds hb.cursor_lt, hb.next hfits]
        refine ih hb.pass (fun c hc => hwords c (List.mem_cons_of_mem b hc)) ?_ rounds
        obtain ⟨c, hc, hheader⟩ := hstuck
        rcases List.mem_cons.mp hc with rfl | hc
        · exact absurd hheader hstall
        · exact ⟨c, hc, hheader⟩

/-! ## What the cursor leaves -/

theorem slots_foldl_pass (s : Sweep) (bs : List Block) : (bs.foldl pass s).slots =
    Slot.write s.slots s.cursor (bs.flatMap Block.swept) := by
  induction bs generalizing s with
  | nil => rfl
  | cons b bs ih =>
    rw [List.foldl_cons, ih, List.flatMap_cons, Slot.write_append, Block.length_swept]
    rfl

theorem free_foldl_pass (s : Sweep) (bs : List Block) : (bs.foldl pass s).free.toList =
    s.free.toList ++ (bs.filter fun b => !b.survives).flatMap Block.slots := by
  induction bs generalizing s with
  | nil => simp
  | cons b bs ih =>
    rw [List.foldl_cons, ih, pass, List.filter_cons]
    cases b.survives <;> simp

theorem freedObjects_foldl_pass (s : Sweep) (bs : List Block) :
    (bs.foldl pass s).freedObjects = s.freedObjects + (bs.filter Block.dies).length := by
  induction bs generalizing s with
  | nil => rfl
  | cons b bs ih =>
    rw [List.foldl_cons, ih, pass, List.filter_cons]
    cases b.dies
    · rfl
    · exact Nat.add_right_comm ..

theorem freedSlots_foldl_pass (s : Sweep) (bs : List Block) : (bs.foldl pass s).freedSlots =
    s.freedSlots + (bs.filter Block.dies).foldr (fun block slots => block.size + slots) 0 := by
  induction bs generalizing s with
  | nil => rfl
  | cons b bs ih =>
    rw [List.foldl_cons, ih, pass, List.filter_cons]
    cases b.dies
    · rfl
    · exact Nat.add_assoc ..

/-- The cursor that has passed all blocks leaves the swept heap. -/
theorem heap_foldl_start (h : Heap) : (h.blocks.foldl pass (start h)).heap = h.sweep := by
  have hslots : (h.blocks.foldl pass (start h)).slots = h.sweep.slots := by
    apply Array.toList_inj.mp
    rw [slots_foldl_pass, h.toList_sweep]
    exact Slot.toList_write_of_length (h.length_flatMap_swept.trans (Heap.length_of_drop rfl))
  rw [heap, hslots, free_foldl_pass]
  rfl

end Sweep

/-! ## Collections -/

namespace Heap

variable {h : Heap} {r : Nat} {header : Header}

/-- Marking changes nothing about where a scan goes. -/
theorem meets_mark (u : Unreached) : (h.mark u).Meets r header ↔
    ∃ old, h.Meets r old ∧ header = { old with marked := !u.has (.object ⟨r⟩) } := by
  have hform : ∀ i, ((h.mark u).slot? i).map form = (h.slot? i).map form := by
    intro i
    simp [slot?_mark, Function.comp_def, form_stamp]
  have hvisits : (h.mark u).Visits 1 r ↔ h.Visits 1 r :=
    ⟨Visits.congr fun i => (hform i).symm, Visits.congr hform⟩
  unfold Meets
  rw [hvisits, slot?_mark]
  constructor
  · rintro ⟨hv, hslot⟩
    obtain ⟨cell, hcell, hstamp⟩ := Option.map_eq_some_iff.mp hslot
    cases cell with
    | empty => cases hstamp
    | data v => cases hstamp
    | object old =>
      have hpos : r ≠ 0 := Nat.one_le_iff_ne_zero.mp hv.le
      rw [stamp, if_neg hpos] at hstamp
      cases hstamp
      exact ⟨old, ⟨hv, hcell⟩, rfl⟩
  · rintro ⟨old, ⟨hv, hslot⟩, rfl⟩
    have hpos : r ≠ 0 := Nat.one_le_iff_ne_zero.mp hv.le
    refine ⟨hv, ?_⟩
    rw [hslot, Option.map_some, stamp, if_neg hpos]

/-- What is said of the spans of the headers that a scan meets holds of the blocks after marking. -/
theorem header?_blocks_mark {p : Nat → Prop} (hspans : ∀ r header, h.Meets r header → p header.span)
    (u : Unreached) : ∀ b ∈ (h.mark u).blocks, ∀ header ∈ b.header?, p header.span := by
  intro b hb header hheader
  cases b with
  | loose => cases hheader
  | object r first body =>
    cases hheader
    obtain ⟨old, hold, rfl⟩ := (meets_mark u).mp (meets_iff.mpr ⟨body, hb⟩)
    exact hspans r old hold

end Heap

section Collections

variable {m : Memory} (a : Arena) (extra : RootSet)

/-- **The cursor comes to the end if it meets only headers whose spans are machine words.** -/
theorem collectWithin_eq_some
    (hspans : ∀ r header, m.heap.Meets r header → header.span < wordCount) {rounds : Nat}
    (hrounds : m.heap.capacity ≤ rounds) :
    collectWithin rounds m a extra = some (reclaim m a (wordGarbage m a extra)) := by
  have hfits : ∀ b ∈ (m.heap.mark (wordGarbage m a extra)).blocks, b.Fits :=
    Heap.header?_blocks_mark (p := (· < wordCount)) hspans _
  have hsize : (m.heap.mark (wordGarbage m a extra)).slots.size ≤ 1 + rounds := by
    have hcapacity := m.heap.capacity_mark (wordGarbage m a extra)
    unfold Heap.capacity at hcapacity hrounds
    omega
  rw [collectWithin, (Sweep.before_start _).run_eq_some hfits hsize]
  simp only [Option.map_some, Sweep.heap_foldl_start, Sweep.free_foldl_pass,
    Sweep.freedObjects_foldl_pass, Sweep.freedSlots_foldl_pass, ← Array.length_toList]
  simp only [Sweep.start, Nat.zero_add, List.nil_append]
  rfl

/-- **No number of rounds is enough if and only if a scan meets an array of the greatest length.** -/
theorem collectWithin_eq_none_iff
    (hwords : ∀ r header, m.heap.Meets r header → header.span ≤ wordCount) :
    (∀ rounds, collectWithin rounds m a extra = none) ↔
      ∃ r header, m.heap.Meets r header ∧ header.span = wordCount := by
  constructor
  · intro hnone
    apply Classical.byContradiction
    intro hnot
    have hspans : ∀ r header, m.heap.Meets r header → header.span < wordCount :=
      fun r header hmeets => Nat.lt_of_le_of_ne (hwords r header hmeets)
        fun hspan => hnot ⟨r, header, hmeets, hspan⟩
    have hsome := collectWithin_eq_some a extra hspans (Nat.le_refl _)
    rw [hnone] at hsome
    cases hsome
  · rintro ⟨r, header, hmeets, hspan⟩ rounds
    have hmarked := (Heap.meets_mark (wordGarbage m a extra)).mpr ⟨header, hmeets, rfl⟩
    obtain ⟨body, hb⟩ := Heap.meets_iff.mp hmarked
    have hblocks := Heap.header?_blocks_mark (p := (· ≤ wordCount)) hwords (wordGarbage m a extra)
    have hnone := (Sweep.before_start _).run_eq_none hblocks ⟨_, hb, _, rfl, hspan⟩ rounds
    rw [collectWithin, hnone]
    rfl

/-! ## The two collections -/

theorem Heap.wordSuccessors_eq {h : Heap} {r : Ref} {header : Header}
    (hr : h.header? r = some header) (hend : r.slot + header.span ≤ wordCount) :
    h.wordSuccessors r header = h.successors r header := by
  have hpos : 0 < r.slot := Nat.pos_of_ne_zero (Heap.header?_eq_some.mp hr).1
  have hspan : header.wordSpan = header.span := ObjectData.wordSpan_of_lt (by
    change header.span < wordCount
    omega)
  have hwrapped : r.slot + header.span - wordCount = 0 := by omega
  rw [wordSuccessors, successors, wordElements, hspan, hwrapped, Array.extract_zero]
  simp

/-- **Where all objects end within the machine words, a collection on machine words is a collection
by blocks.** -/
theorem collectWithin_eq_collect (hends : ∀ r header, m.heap.header? r = some header →
    r.slot + header.span ≤ wordCount) {rounds : Nat} (hrounds : m.heap.capacity ≤ rounds) :
    collectWithin rounds m a extra = some (collect m a extra) := by
  have hspans : ∀ r header, m.heap.Meets r header → header.span < wordCount := by
    intro r header hmeets
    have hpos := hmeets.1.le
    have hend := hends ⟨r⟩ header (Heap.header?_eq_some.mpr ⟨by simp; omega, hmeets.2⟩)
    simp only at hend
    omega
  have hnext : wordSuccessors m.heap a = successors m.heap a := by
    funext c
    cases c with
    | scope id => rfl
    | object r =>
      rw [wordSuccessors, successors]
      cases hr : m.heap.header? r with
      | none => rfl
      | some header => exact Heap.wordSuccessors_eq hr (hends r header hr)
  rw [collectWithin_eq_some a extra hspans hrounds, wordGarbage, hnext]
  rfl

/-- The objects of a tiled heap end where the heap ends. -/
theorem collectWithin_of_tiled (ht : m.heap.Tiled) (hcapacity : m.heap.capacity ≤ wordCount)
    {rounds : Nat} (hrounds : m.heap.capacity ≤ rounds) :
    collectWithin rounds m a extra = some (collect m a extra) := by
  refine collectWithin_eq_collect a extra (fun r header hr => ?_) hrounds
  have hslot := (Heap.header?_eq_some.mp hr).2
  have hspan : 0 < header.span := header.data.span_pos
  obtain ⟨cell, hcell, -⟩ := ht.coherent.exists_slot? (i := r.slot + header.span - 1) hslot
    (by omega)
  have hlt := Heap.lt_capacity_of_slot? hcell
  omega

end Collections

end ScriptCore
