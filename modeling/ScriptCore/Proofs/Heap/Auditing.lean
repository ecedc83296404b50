import ScriptCore.Memory
import ScriptCore.Proofs.Heap.Tiling
import Mathlib.Data.List.Induction

/-!
# The audit of the free list is exact

Nothing is assumed of the heap here: the free list may be any list. `Heap.Listed` says that it is
right, and `Heap.Defect` what is wrong with it otherwise. An entry has a flaw or not in view of the
entries before it (`Heap.Flaw`); the first entry with a flaw is the defect, and if there is none, the
number of empty slots that are missing.

The audit keeps a table with a flag for each slot. After good entries it has the flags that
`Heap.unseenAfter` gives, so that the next entry is judged as `Heap.Flaw` says
(`Heap.Flaw.auditEntries`, `Heap.auditEntries_of_good`). Since every list has a defect or is right
(`Heap.listed_or_defect`), the audit answers `p` exactly if `p` is the defect
(`Heap.audit_eq_error_iff`). The table always has the size of the heap, which is why the audit is
the same as one with look-ups that cannot miss (`Heap.audit_eq_auditWithin`).
-/

namespace ScriptCore

namespace Heap

variable {h : Heap} {before entries rest : List Nat} {slot i : Nat} {p : FreeListProblem}

theorem exists_slot?_of_lt (hlt : i < h.capacity) : ∃ cell, h.slot? i = some cell :=
  ⟨_, Array.getElem?_eq_getElem hlt⟩

/-! ## What may be wrong -/

/-- What is wrong with the entry `slot` behind the entries `before`. If it is wrong in several ways,
the first of them counts. -/
inductive Flaw (h : Heap) (before : List Nat) (slot : Nat) : FreeListProblem → Prop
  | outside (hslot : slot = 0 ∨ h.capacity ≤ slot) : Flaw h before slot (.outside slot)
  | repeated (hpos : 1 ≤ slot) (hlt : slot < h.capacity) (hmem : slot ∈ before) :
      Flaw h before slot (.repeated slot)
  | listsData {v : Value} (hpos : 1 ≤ slot) (hnew : slot ∉ before)
      (hcell : h.slot? slot = some (.data v)) : Flaw h before slot (.listsData slot)
  | listsObject {header : Header} (hpos : 1 ≤ slot) (hnew : slot ∉ before)
      (hcell : h.slot? slot = some (.object header)) : Flaw h before slot (.listsObject slot)

/-- No entry has a flaw. -/
def Flawless (h : Heap) (entries : List Nat) : Prop :=
  ∀ before slot after, entries = before ++ slot :: after → ∀ p, ¬ h.Flaw before slot p

/-- The empty usable slots that the free list has not. -/
def missing (h : Heap) : List Nat :=
  (List.range' 1 (h.capacity - 1)).filter fun i =>
    (h.slot? i).any Slot.isEmpty && !h.free.contains i

/-- What is wrong with the free list: its first entry with a flaw, or else that slots are
missing. -/
inductive Defect (h : Heap) : FreeListProblem → Prop
  | entry {before after : List Nat} {slot : Nat} {p : FreeListProblem}
      (hfree : h.free.slots = before ++ slot :: after) (hbefore : h.Flawless before)
      (hflaw : h.Flaw before slot p) : Defect h p
  | unlisted (hfree : h.Flawless h.free.slots) (hmissing : h.missing ≠ []) :
      Defect h (.unlisted h.missing.length)

/-- The free list has every empty usable slot exactly once, and nothing else. -/
structure Listed (h : Heap) : Prop where
  nodup : h.free.slots.Nodup
  mem_iff : ∀ i, i ∈ h.free.slots ↔ 1 ≤ i ∧ i < h.capacity ∧ h.slot? i = some .empty

/-- An entry has a flaw, or it is an empty usable slot that has not been listed before. -/
theorem flaw_or_good (h : Heap) (before : List Nat) (slot : Nat) : (∃ p, h.Flaw before slot p) ∨
    1 ≤ slot ∧ slot ∉ before ∧ h.slot? slot = some .empty := by
  by_cases hin : 1 ≤ slot ∧ slot < h.capacity
  · obtain ⟨hpos, hlt⟩ := hin
    by_cases hmem : slot ∈ before
    · exact .inl ⟨_, .repeated hpos hlt hmem⟩
    · obtain ⟨cell, hcell⟩ := exists_slot?_of_lt hlt
      cases cell with
      | empty => exact .inr ⟨hpos, hmem, hcell⟩
      | data v => exact .inl ⟨_, .listsData hpos hmem hcell⟩
      | object header => exact .inl ⟨_, .listsObject hpos hmem hcell⟩
  · exact .inl ⟨_, .outside (by omega)⟩

/-- It cannot be both. -/
theorem Flaw.not_good (hflaw : h.Flaw before slot p) :
    ¬ (1 ≤ slot ∧ slot ∉ before ∧ h.slot? slot = some .empty) := by
  rintro ⟨hpos, hnew, hcell⟩
  have hlt := lt_capacity_of_slot? hcell
  cases hflaw with
  | outside hslot => omega
  | repeated _ _ hmem => exact hnew hmem
  | listsData _ _ hcell' => cases hcell.symm.trans hcell'
  | listsObject _ _ hcell' => cases hcell.symm.trans hcell'

theorem flawless_nil (h : Heap) : h.Flawless [] := by
  intro before slot after hnil
  cases before <;> cases hnil

theorem flawless_concat : h.Flawless (entries ++ [slot]) ↔
    h.Flawless entries ∧ ∀ p, ¬ h.Flaw entries slot p := by
  constructor
  · intro hall
    refine ⟨fun before i after heq => ?_, hall entries slot [] rfl⟩
    exact hall before i (after ++ [slot]) (by rw [heq, List.append_assoc, List.cons_append])
  · rintro ⟨hentries, hlast⟩ before i after heq
    rcases List.eq_nil_or_concat after with rfl | ⟨after, last, rfl⟩
    · obtain ⟨rfl, hslot⟩ := List.append_inj' heq rfl
      cases hslot
      exact hlast
    · rw [List.concat_eq_append, ← List.cons_append, ← List.append_assoc] at heq
      obtain ⟨rfl, -⟩ := List.append_inj' heq rfl
      exact hentries before i after rfl

/-- Entries without a flaw are empty usable slots, each listed once. -/
theorem flawless_iff : h.Flawless entries ↔
    entries.Nodup ∧ ∀ i ∈ entries, 1 ≤ i ∧ h.slot? i = some .empty := by
  induction entries using List.reverseRec with
  | nil => simp [flawless_nil]
  | append_singleton entries slot ih =>
    have hlast : (∀ p, ¬ h.Flaw entries slot p) ↔
        1 ≤ slot ∧ slot ∉ entries ∧ h.slot? slot = some .empty := by
      constructor
      · intro hnone
        exact (h.flaw_or_good entries slot).resolve_left fun ⟨p, hflaw⟩ => hnone p hflaw
      · exact fun hgood p hflaw => hflaw.not_good hgood
    rw [flawless_concat, hlast, ih]
    simp only [List.nodup_append, List.mem_append, List.mem_singleton]
    grind

/-- Every list is without a flaw, or has a first entry with one. -/
theorem flawless_or_exists_flaw (h : Heap) (entries : List Nat) : h.Flawless entries ∨
    ∃ before slot after p, entries = before ++ slot :: after ∧ h.Flawless before ∧
      h.Flaw before slot p := by
  induction entries using List.reverseRec with
  | nil => exact .inl h.flawless_nil
  | append_singleton entries slot ih =>
    rcases ih with hentries | ⟨before, i, after, p, rfl, hbefore, hflaw⟩
    · by_cases hlast : ∃ p, h.Flaw entries slot p
      · obtain ⟨p, hflaw⟩ := hlast
        exact .inr ⟨entries, slot, [], p, rfl, hentries, hflaw⟩
      · exact .inl (flawless_concat.mpr ⟨hentries, not_exists.mp hlast⟩)
    · exact .inr ⟨before, i, after ++ [slot], p, by rw [List.append_assoc, List.cons_append],
        hbefore, hflaw⟩

theorem mem_missing_iff :
    i ∈ h.missing ↔ 1 ≤ i ∧ h.slot? i = some .empty ∧ i ∉ h.free.slots := by
  have hempty : (h.slot? i).any Slot.isEmpty = true ↔ h.slot? i = some .empty := by
    cases h.slot? i with
    | none => simp
    | some cell => cases cell <;> simp [Slot.isEmpty]
  rw [missing, List.mem_filter, List.mem_range'_1, Bool.and_eq_true, hempty, FreeList.contains]
  constructor
  · rintro ⟨⟨hpos, -⟩, hcell, hnew⟩
    exact ⟨hpos, hcell, by simpa using hnew⟩
  · rintro ⟨hpos, hcell, hnew⟩
    have hlt := lt_capacity_of_slot? hcell
    exact ⟨⟨hpos, by omega⟩, hcell, by simpa using hnew⟩

/-- The free list is right if no entry has a flaw and no slot is missing. -/
theorem listed_iff : h.Listed ↔ h.Flawless h.free.slots ∧ h.missing = [] := by
  rw [flawless_iff, List.eq_nil_iff_forall_not_mem]
  constructor
  · intro hlisted
    refine ⟨⟨hlisted.nodup, fun i hi => ?_⟩, fun i hi => ?_⟩
    · obtain ⟨hpos, -, hcell⟩ := (hlisted.mem_iff i).mp hi
      exact ⟨hpos, hcell⟩
    · obtain ⟨hpos, hcell, hnew⟩ := mem_missing_iff.mp hi
      exact hnew ((hlisted.mem_iff i).mpr ⟨hpos, lt_capacity_of_slot? hcell, hcell⟩)
  · rintro ⟨⟨hnodup, hgood⟩, hmissing⟩
    refine ⟨hnodup, fun i => ⟨fun hi => ?_, fun ⟨hpos, hlt, hcell⟩ => ?_⟩⟩
    · obtain ⟨hpos, hcell⟩ := hgood i hi
      exact ⟨hpos, lt_capacity_of_slot? hcell, hcell⟩
    · exact Classical.byContradiction fun hnew =>
        hmissing i (mem_missing_iff.mpr ⟨hpos, hcell, hnew⟩)

/-- **The free list is right, or it has a defect.** -/
theorem listed_or_defect (h : Heap) : h.Listed ∨ ∃ p, h.Defect p := by
  rcases h.flawless_or_exists_flaw h.free.slots with
    hflawless | ⟨before, slot, after, p, hfree, hbefore, hflaw⟩
  · by_cases hmissing : h.missing = []
    · exact .inl (listed_iff.mpr ⟨hflawless, hmissing⟩)
    · exact .inr ⟨_, .unlisted hflawless hmissing⟩
  · exact .inr ⟨p, .entry hfree hbefore hflaw⟩

/-! ## One entry -/

/-- The flags after the entries `before`: the slots that none of them names. -/
def unseenAfter (h : Heap) (before : List Nat) : Array Bool :=
  Array.ofFn fun i : Fin h.capacity => !before.contains i.val

theorem getElem?_unseenAfter (hlt : i < h.capacity) :
    (h.unseenAfter before)[i]? = some (!before.contains i) := by
  simp [unseenAfter, hlt]

theorem unseenAfter_nil (h : Heap) : h.unseenAfter [] = Array.replicate h.capacity true := by
  apply Array.ext <;> simp [unseenAfter]

theorem setIfInBounds_unseenAfter (h : Heap) (before : List Nat) (slot : Nat) :
    (h.unseenAfter before).setIfInBounds slot false = h.unseenAfter (before ++ [slot]) := by
  apply Array.ext_getElem?
  intro i
  have hsize : (h.unseenAfter before).size = h.capacity := Array.size_ofFn
  rw [Array.getElem?_setIfInBounds, hsize]
  by_cases hlt : i < h.capacity
  · rw [getElem?_unseenAfter hlt, getElem?_unseenAfter hlt]
    by_cases heq : slot = i
    · subst heq
      simp [hlt]
    · simp [heq, Ne.symm heq]
  · have hnone : ∀ entries, (h.unseenAfter entries)[i]? = none := fun entries =>
      Array.getElem?_eq_none (by rw [unseenAfter, Array.size_ofFn]; omega)
    rw [hnone, hnone]
    split
    · rw [if_neg (by omega)]
    · rfl

/-- An entry that is new and in range is judged by its cell. -/
theorem auditEntries_cons (hpos : 1 ≤ slot) (hnew : slot ∉ before) {cell : Slot} :
    h.slot? slot = some cell → auditEntries h.slots (h.unseenAfter before) (slot :: rest) =
      match cell with
      | .empty => auditEntries h.slots (h.unseenAfter (before ++ [slot])) rest
      | .data _ => .error (.listsData slot)
      | .object _ => .error (.listsObject slot) := by
  intro hcell
  have hflag : (h.unseenAfter before)[slot]? = some true := by
    rw [getElem?_unseenAfter (lt_capacity_of_slot? hcell)]
    simpa using hnew
  rw [slot?] at hcell
  rw [auditEntries, hcell, setIfInBounds_unseenAfter]
  exact (if_neg (Nat.ne_of_gt hpos)).trans (if_pos hflag)

/-- The audit stops at an entry with a flaw. -/
theorem Flaw.auditEntries (hflaw : h.Flaw before slot p) :
    Heap.auditEntries h.slots (h.unseenAfter before) (slot :: rest) = .error p := by
  cases hflaw with
  | outside hslot =>
    rw [Heap.auditEntries]
    rcases hslot with rfl | hslot
    · split
      · rfl
      · rw [if_pos rfl]
    · rw [Array.getElem?_eq_none hslot]
  | repeated hpos hlt hmem =>
    obtain ⟨cell, hcell⟩ := exists_slot?_of_lt hlt
    rw [slot?] at hcell
    rw [Heap.auditEntries, hcell, getElem?_unseenAfter hlt]
    dsimp only
    rw [if_neg (Nat.ne_of_gt hpos), if_neg (by simpa using hmem)]
  | listsData hpos hnew hcell => exact auditEntries_cons hpos hnew hcell
  | listsObject hpos hnew hcell => exact auditEntries_cons hpos hnew hcell

/-- The audit goes on behind an entry without a flaw. -/
theorem auditEntries_of_good (hgood : ∀ p, ¬ h.Flaw before slot p) :
    auditEntries h.slots (h.unseenAfter before) (slot :: rest) =
      auditEntries h.slots (h.unseenAfter (before ++ [slot])) rest := by
  obtain ⟨hpos, hnew, hcell⟩ :=
    (h.flaw_or_good before slot).resolve_left fun ⟨p, hflaw⟩ => hgood p hflaw
  exact auditEntries_cons hpos hnew hcell

/-! ## The whole list -/

/-- The audit goes on behind any entries without a flaw. -/
theorem auditEntries_append (hbefore : h.Flawless before) :
    auditEntries h.slots (Array.replicate h.capacity true) (before ++ rest) =
      auditEntries h.slots (h.unseenAfter before) rest := by
  induction before using List.reverseRec generalizing rest with
  | nil => rw [unseenAfter_nil, List.nil_append]
  | append_singleton before slot ih =>
    obtain ⟨hbefore, hslot⟩ := flawless_concat.mp hbefore
    rw [List.append_assoc, List.singleton_append, ih hbefore, auditEntries_of_good hslot]

/-- The number that the audit gives in the end is that of the missing slots. -/
theorem unlistedCount_eq (h : Heap) :
    unlistedCount h.slots (h.unseenAfter h.free.slots) = h.missing.length := by
  have hlist : (h.slots.zip (h.unseenAfter h.free.slots)).toList.drop 1 =
      (List.range' 1 (h.capacity - 1)).map fun i =>
        ((h.slot? i).getD .empty, !h.free.contains i) := by
    apply List.ext_getElem?
    intro k
    rw [List.getElem?_drop, Array.getElem?_toList, List.getElem?_map]
    by_cases hk : 1 + k < h.capacity
    · obtain ⟨cell, hcell⟩ := exists_slot?_of_lt hk
      rw [List.getElem?_range' (by omega), Nat.one_mul, Option.map_some, hcell]
      exact Array.getElem?_zip_eq_some.mpr ⟨hcell, getElem?_unseenAfter hk⟩
    · have hsize : (h.slots.zip (h.unseenAfter h.free.slots)).size ≤ 1 + k := by
        rw [Array.size_zip]
        exact Nat.le_trans (Nat.min_le_left _ _) (Nat.le_of_not_lt hk)
      rw [Array.getElem?_eq_none hsize,
        List.getElem?_eq_none (by rw [List.length_range']; omega)]
      rfl
  rw [unlistedCount, hlist, List.countP_map, List.countP_eq_length_filter, missing]
  congr 1
  apply List.filter_congr
  intro i hi
  have hlt : i < h.capacity := by
    have := List.mem_range'_1.mp hi
    omega
  obtain ⟨cell, hcell⟩ := exists_slot?_of_lt hlt
  simp [hcell]

theorem audit_of_flawless (hfree : h.Flawless h.free.slots) :
    h.audit = if h.missing.length = 0 then .ok () else .error (.unlisted h.missing.length) := by
  have hentries : auditEntries h.slots (Array.replicate h.capacity true) (h.free.slots ++ []) =
      .ok (h.unseenAfter h.free.slots) := auditEntries_append hfree
  rw [List.append_nil] at hentries
  rw [audit, hentries, ← unlistedCount_eq]
  rfl

theorem Listed.audit (hlisted : h.Listed) : h.audit = .ok () := by
  obtain ⟨hfree, hmissing⟩ := listed_iff.mp hlisted
  rw [audit_of_flawless hfree, hmissing, if_pos List.length_nil]

theorem Defect.audit (hdefect : h.Defect p) : h.audit = .error p := by
  cases hdefect with
  | entry hfree hbefore hflaw =>
    rw [Heap.audit, hfree, auditEntries_append hbefore, hflaw.auditEntries]
    rfl
  | unlisted hfree hmissing =>
    rw [audit_of_flawless hfree, if_neg fun hzero => hmissing (List.length_eq_zero_iff.mp hzero)]

/-- **The audit finds nothing exactly if the free list is right.** -/
theorem audit_eq_ok_iff : h.audit = .ok () ↔ h.Listed := by
  constructor
  · intro hok
    refine h.listed_or_defect.resolve_right fun ⟨p, hdefect⟩ => ?_
    cases hdefect.audit.symm.trans hok
  · exact Listed.audit

/-- **What the audit finds is the defect.** -/
theorem audit_eq_error_iff : h.audit = .error p ↔ h.Defect p := by
  constructor
  · intro herror
    rcases h.listed_or_defect with hlisted | ⟨q, hdefect⟩
    · cases hlisted.audit.symm.trans herror
    · cases hdefect.audit.symm.trans herror
      exact hdefect
  · exact Defect.audit

/-! ## Look-ups that cannot miss -/

/-- The audit of the entries with tables that have one place for each of the `n` slots. Every index
that is looked up comes with a proof that it is below `n`. -/
def auditEntriesWithin {n : Nat} (slots : Vector Slot n) (unseen : Vector Bool n) :
    List Nat → Except FreeListProblem (Vector Bool n)
  | [] => .ok unseen
  | slot :: rest =>
    if hlt : slot < n then
      if slot = 0 then .error (.outside slot)
      else if unseen[slot] then
        match slots[slot] with
        | .empty => auditEntriesWithin slots (unseen.set slot false) rest
        | .data _ => .error (.listsData slot)
        | .object _ => .error (.listsObject slot)
      else .error (.repeated slot)
    else .error (.outside slot)

/-- The slots as a table. -/
def table (h : Heap) : Vector Slot h.capacity := ⟨h.slots, rfl⟩

/-- The audit with look-ups that cannot miss. -/
def auditWithin (h : Heap) : Except FreeListProblem Unit := do
  let unseen ← auditEntriesWithin h.table (Vector.replicate h.capacity true) h.free.slots
  let unlisted := (List.finRange h.capacity).countP fun i =>
    decide (1 ≤ i.val) && h.table[i].isEmpty && unseen[i]
  if unlisted = 0 then pure () else throw (.unlisted unlisted)

theorem auditEntries_toArray {n : Nat} (slots : Vector Slot n) (unseen : Vector Bool n)
    (entries : List Nat) :
    auditEntries slots.toArray unseen.toArray entries =
      (auditEntriesWithin slots unseen entries).map Vector.toArray := by
  induction entries generalizing unseen with
  | nil => rfl
  | cons slot rest ih =>
    rw [auditEntriesWithin, auditEntries]
    by_cases hlt : slot < n
    · have hcell : slots.toArray[slot]? = some slots[slot] := by simp [hlt]
      have hflag : unseen.toArray[slot]? = some unseen[slot] := by simp [hlt]
      rw [dif_pos hlt, hcell, hflag]
      dsimp only
      by_cases hzero : slot = 0
      · rw [if_pos hzero, if_pos hzero]
        rfl
      rw [if_neg hzero, if_neg hzero]
      by_cases hnew : unseen[slot] = true
      · rw [if_pos hnew, if_pos (congrArg some hnew)]
        cases slots[slot] with
        | empty =>
          dsimp only
          rw [← ih, Vector.toArray_set, Array.setIfInBounds_def, dif_pos (by simp [hlt])]
        | data v => rfl
        | object header => rfl
      · rw [if_neg hnew, if_neg fun heq => hnew (Option.some.inj heq)]
        rfl
    · rw [dif_neg hlt, Array.getElem?_eq_none (by simpa using hlt)]
      rfl

theorem unlistedCount_toArray {n : Nat} (slots : Vector Slot n) (unseen : Vector Bool n) :
    unlistedCount slots.toArray unseen.toArray =
      (List.finRange n).countP fun i =>
        decide (1 ≤ i.val) && slots[i].isEmpty && unseen[i] := by
  have hzip : (slots.toArray.zip unseen.toArray).toList =
      (List.finRange n).map fun i => (slots[i], unseen[i]) := by
    apply List.ext_getElem <;> simp
  rw [unlistedCount, hzip]
  cases n with
  | zero => rfl
  | succ n =>
    rw [List.finRange_succ, List.countP_cons_of_neg (by simp), List.map_cons, List.drop_succ_cons,
      List.drop_zero, List.countP_map, List.countP_map, List.countP_map]
    apply List.countP_congr
    intro i _
    simp

/-- **No look-up of the audit misses.** -/
theorem audit_eq_auditWithin (h : Heap) : h.audit = h.auditWithin := by
  have hentries := auditEntries_toArray h.table (Vector.replicate h.capacity true) h.free.slots
  rw [Vector.toArray_replicate] at hentries
  rw [audit, auditWithin]
  change (auditEntries h.table.toArray _ _ >>= _) = _
  rw [hentries]
  cases auditEntriesWithin h.table (Vector.replicate h.capacity true) h.free.slots with
  | error p => rfl
  | ok unseen =>
    exact congrArg (fun n => if n = 0 then pure () else throw (FreeListProblem.unlisted n))
      (unlistedCount_toArray h.table unseen)

/-! ## Well-formed heaps -/

theorem WellFormed.listed (hw : h.WellFormed) : h.Listed where
  nodup := hw.free_nodup
  mem_iff i := by
    rw [hw.mem_free]
    exact ⟨fun ⟨hpos, hcell⟩ => ⟨hpos, lt_capacity_of_slot? hcell, hcell⟩,
      fun ⟨hpos, _, hcell⟩ => ⟨hpos, hcell⟩⟩

/-- **The audit finds nothing wrong with a well-formed heap.** -/
theorem WellFormed.audit (hw : h.WellFormed) : h.audit = .ok () :=
  hw.listed.audit

end Heap

/-! ## The state -/

theorem Memory.verify_eq_ok_iff {m : Memory} : m.verify = .ok () ↔ m.heap.Listed := by
  rw [← Heap.audit_eq_ok_iff, verify]
  cases m.heap.audit <;> simp [Except.mapError]

theorem Memory.verify_eq_error_iff {m : Memory} {fault : Fault} :
    m.verify = .error fault ↔
      ∃ p, m.heap.Defect p ∧ fault = .freeListCorrupted p.message := by
  simp only [← Heap.audit_eq_error_iff, verify]
  cases m.heap.audit <;> simp [Except.mapError, eq_comm]

theorem Memory.verify_eq_ok {m : Memory} (hw : m.heap.WellFormed) : m.verify = .ok () :=
  verify_eq_ok_iff.mpr hw.listed

/-- Where the free list has empty slots only, each of them once, nothing can be wrong but that there
are empty slots which it has not. -/
theorem Memory.verify_of_listed {m : Memory} (hnodup : m.heap.free.slots.Nodup)
    (hempty : ∀ i ∈ m.heap.free.slots, 1 ≤ i ∧ m.heap.slot? i = some .empty) :
    m.verify = .ok () ∨ ∃ n, 0 < n ∧
      m.verify = .error (.freeListCorrupted (FreeListProblem.unlisted n).message) := by
  rw [verify, Heap.audit_of_flawless (Heap.flawless_iff.mpr ⟨hnodup, hempty⟩)]
  split
  · exact .inl rfl
  · exact .inr ⟨_, Nat.pos_of_ne_zero ‹_›, rfl⟩

/-- **The audit of the free list is exact**, whatever the heap and the list are. It succeeds if the
list has every empty usable slot once and nothing else, it stops at the first entry with a flaw,
and otherwise it gives the number of the empty usable slots that are missing. The message is that
of the problem found, and no table is read outside its bounds. -/
theorem free_list_audit_exact (m : Memory) :
    (m.verify = .ok () ↔ m.heap.Listed) ∧
      (∀ p, m.heap.audit = .error p ↔ m.heap.Defect p) ∧
      (∀ fault, m.verify = .error fault ↔
        ∃ p, m.heap.Defect p ∧ fault = .freeListCorrupted p.message) ∧
      m.heap.audit = m.heap.auditWithin :=
  ⟨Memory.verify_eq_ok_iff, fun _ => Heap.audit_eq_error_iff, fun _ => Memory.verify_eq_error_iff,
    m.heap.audit_eq_auditWithin⟩

end ScriptCore
