import ScriptCore.Memory
import ScriptCore.Proofs.Heap.Operations

/-!
# When a request fits

The free list gives a run of `n` slots if and only if it has one (`FreeList.takeRun_eq_none_iff`).
In an ascending list that is a matter of which slots are listed (`FreeList.runAt_of_ascending`), and
in a list with one run only a matter of its length (`FreeList.runAt_range'`).

`Heap.Reserved` says what a heap looks like after a request that fits: there is one object more, an
array of nulls in slots that were empty, and the others are as they were.
-/

namespace ScriptCore

namespace FreeList

/-- In an ascending list consecutive numbers stand at consecutive places. -/
theorem runAt_of_ascending {entries : List Nat} (hsorted : entries.Pairwise (· < ·)) {n s : Nat}
    (hmem : ∀ k, k < n → s + k ∈ entries) : ∃ p, RunAt n entries p s := by
  cases n with
  | zero => exact ⟨0, fun k hk => absurd hk (Nat.not_lt_zero k)⟩
  | succ n =>
    have hlt := List.pairwise_iff_getElem.mp hsorted
    obtain ⟨p, hp, hps⟩ := List.getElem_of_mem (hmem 0 (Nat.succ_pos n))
    refine ⟨p, fun k hk => ?_⟩
    induction k with
    | zero => exact List.getElem?_eq_some_iff.mpr ⟨hp, hps⟩
    | succ k ih =>
      obtain ⟨hpk, hk'⟩ := List.getElem?_eq_some_iff.mp (ih (by omega))
      obtain ⟨j, hj, hjs⟩ := List.getElem_of_mem (hmem (k + 1) hk)
      -- the next number is listed behind this one, and nothing fits in between
      have hpj : p + k < j := by
        apply Nat.lt_of_not_le
        intro hle
        rcases Nat.eq_or_lt_of_le hle with rfl | hjp
        · omega
        · have := hlt j (p + k) hj hpk hjp
          omega
      have hnext := hlt (p + k) (p + (k + 1)) hpk (by omega) (by omega)
      refine List.getElem?_eq_some_iff.mpr ⟨by omega, ?_⟩
      rcases Nat.eq_or_lt_of_le (show p + (k + 1) ≤ j by omega) with heq | hjlt
      · subst heq
        exact hjs
      · have := hlt (p + (k + 1)) j (by omega) hj hjlt
        omega

theorem runAt_range' {start len n : Nat} (h : n ≤ len) :
    RunAt n (List.range' start len) 0 start := by
  intro k hk
  rw [Nat.zero_add, List.getElem?_range' (by omega), Nat.one_mul]

/-- A run that is taken is no longer than the list. -/
theorem le_length_of_takeRun {f f' : FreeList} {n s : Nat} (h : f.takeRun n = some (s, f')) :
    n ≤ f.length := by
  obtain ⟨-, before, after, -, hslots⟩ := takeRun_eq_some h
  simp only [length, hslots, List.length_append, List.length_range']
  omega

end FreeList

namespace Heap

/-- `h'` is `h` with a new array of nulls of `n` slots at `r`. -/
structure Reserved (h h' : Heap) (n : Nat) (r : Ref) : Prop where
  pos : 0 < n
  vacant : ∀ {k}, k < n → h.slot? (r.slot + k) = some .empty
  header : h'.header? r = some ⟨.array (n - 1), false⟩
  element : ∀ {k}, 0 < k → k < n → h'.slot? (r.slot + k) = some (.data .null)
  outside : ∀ {i}, ¬ (r.slot ≤ i ∧ i < r.slot + n) → h'.slot? i = h.slot? i
  wellFormed : h'.WellFormed

theorem WellFormed.reserved {h h' : Heap} (hw : h.WellFormed) {n : Nat} {r : Ref}
    (hres : h.reserve n = some (r, h')) : Reserved h h' n r := by
  obtain ⟨hpos, hr, hvacant, hslots, -⟩ := hw.reserve_eq_some hres
  refine ⟨hpos, fun hk => hvacant _ hk, ?_, fun {k} hk hn => ?_, fun hi => ?_, hw.reserve hres⟩
  · rw [header?_eq_some, hslots, if_pos (by omega), Nat.sub_self, blank_zero]
    exact ⟨by omega, rfl⟩
  · rw [hslots, if_pos (by omega), Nat.add_sub_cancel_left]
    exact blank_pos hk (by omega)
  · rw [hslots, if_neg hi]

namespace Reserved

variable {h h' : Heap} {n : Nat} {r : Ref} (hres : Reserved h h' n r)
include hres

theorem header?_eq_none : h.header? r = none := by
  have hslot := hres.vacant hres.pos
  rw [Nat.add_zero] at hslot
  cases hr : h.header? r with
  | none => rfl
  | some header =>
    rw [(header?_eq_some.mp hr).2] at hslot
    cases hslot

/-- No slot of an object that was there is among those taken. -/
theorem not_taken (hw : h.WellFormed) {r' : Ref} {header : Header}
    (hr : h.header? r' = some header) {k : Nat} (hk : k < header.span) :
    ¬ (r.slot ≤ r'.slot + k ∧ r'.slot + k < r.slot + n) := by
  intro hin
  obtain ⟨cell, hcell, hne⟩ := hw.tiled.coherent.exists_slot? (i := r'.slot + k)
    (header?_eq_some.mp hr).2 ⟨by omega, by omega⟩
  have hvacant := hres.vacant (k := r'.slot + k - r.slot) (by omega)
  rw [show r.slot + (r'.slot + k - r.slot) = r'.slot + k by omega, hcell] at hvacant
  exact hne (Option.some.inj hvacant)

theorem slot?_kept (hw : h.WellFormed) {r' : Ref} {header : Header}
    (hr : h.header? r' = some header) {k : Nat} (hk : k < header.span) :
    h'.slot? (r'.slot + k) = h.slot? (r'.slot + k) :=
  hres.outside (hres.not_taken hw hr hk)

/-- The other objects are those there were. -/
theorem header?_of_ne {r' : Ref} (hne : r' ≠ r) : h'.header? r' = h.header? r' := by
  by_cases hin : r.slot ≤ r'.slot ∧ r'.slot < r.slot + n
  · -- a slot behind the new header holds an element now and was empty before
    have hslot : r'.slot ≠ r.slot := fun heq => hne (by cases r; cases r'; exact congrArg _ heq)
    obtain ⟨k, hk⟩ := Nat.exists_eq_add_of_le hin.1
    have helement := hres.element (k := k) (by omega) (by omega)
    have hvacant := hres.vacant (k := k) (by omega)
    simp only [header?, hk, helement, hvacant, Option.bind_some, Slot.header?]
  · simp only [header?, hres.outside hin]

end Reserved

end Heap

theorem Memory.tryAllocate_eq_some {m m' : Memory} {n : Nat} {r : Ref} :
    m.tryAllocate n = some (r, m') ↔
      ∃ heap, m.heap.reserve n = some (r, heap) ∧ m' = { m with heap } := by
  unfold tryAllocate
  rw [Option.map_eq_some_iff]
  constructor
  · rintro ⟨⟨r, heap⟩, hres, heq⟩
    cases heq
    exact ⟨heap, hres, rfl⟩
  · rintro ⟨heap, hres, rfl⟩
    exact ⟨(r, heap), hres, rfl⟩

end ScriptCore
