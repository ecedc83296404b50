import ScriptCore.Heap.FreeList

/-!
# First fit

A request for `n` slots is met at the first place of the free list from which on `n` entries have
consecutive numbers (`FreeList.FirstRun`). The entries there are taken out and the others stay in
their order (`FreeList.takeRun_eq_some_iff`); if there is no such place, nothing is taken
(`FreeList.takeRun_eq_none_iff`). Of the list itself nothing is assumed: it may be in any order, and
a number may be in it more than once.

`FreeList.seekRun` reads the list once and keeps the run that it is in. What it has to be told is
that no run of the length asked for starts among the entries it has passed (`FreeList.finds_seekRun`).
-/

namespace ScriptCore.FreeList

variable {f f' : FreeList} {n p q s t start count slot : Nat} {entries before after passed : List Nat}

/-! ## Runs in a list -/

/-- The `n` entries from place `p` on have the numbers `s`, …, `s + n - 1`. -/
def RunAt (n : Nat) (entries : List Nat) (p s : Nat) : Prop :=
  ∀ k, k < n → entries[p + k]? = some (s + k)

/-- The first `n` entries that have consecutive numbers are those from place `p` on, and the first
of the numbers is `s`. -/
structure FirstRun (n : Nat) (entries : List Nat) (p s : Nat) : Prop where
  run : RunAt n entries p s
  le : ∀ {q t}, RunAt n entries q t → p ≤ q

theorem FirstRun.unique (hn : 0 < n) (h : FirstRun n entries p s) (h' : FirstRun n entries q t) :
    p = q ∧ s = t := by
  obtain rfl : p = q := Nat.le_antisymm (h.le h'.run) (h'.le h.run)
  have hs : entries[p]? = some s := h.run 0 hn
  have ht : entries[p]? = some t := h'.run 0 hn
  exact ⟨rfl, Option.some.inj (hs.symm.trans ht)⟩

theorem runAt_append (n : Nat) (before after : List Nat) (s : Nat) :
    RunAt n (before ++ List.range' s n ++ after) before.length s := by
  intro k hk
  rw [List.append_assoc, List.getElem?_append_right (Nat.le_add_right _ _), Nat.add_sub_cancel_left,
    List.getElem?_append_left (by rwa [List.length_range']), List.getElem?_range' hk, Nat.one_mul]

/-- A run and what stands before and behind it. -/
theorem RunAt.eq_append (h : RunAt n entries p s) :
    entries = entries.take p ++ List.range' s n ++ entries.drop (p + n) := by
  have hrun : (entries.drop p).take n = List.range' s n := by
    apply List.ext_getElem?
    intro k
    rw [List.getElem?_take]
    by_cases hk : k < n
    · rw [if_pos hk, List.getElem?_drop, h k hk, List.getElem?_range' hk, Nat.one_mul]
    · rw [if_neg hk, List.getElem?_eq_none (by rw [List.length_range']; omega)]
  rw [← hrun, List.append_assoc, ← List.drop_drop, List.take_append_drop, List.take_append_drop]

/-! ## The search for a run -/

/-- What the answer of a search says about the list that was searched. -/
def Finds (n : Nat) (entries : List Nat) : Option (Nat × List Nat) → Prop
  | none => ∀ p s, ¬ RunAt n entries p s
  | some (s, rest) =>
    ∃ p, FirstRun n entries p s ∧ rest = entries.take p ++ entries.drop (p + n)

theorem finds_run (hfirst : ∀ {q t}, RunAt n (before ++ List.range' s n ++ after) q t →
    before.length ≤ q) :
    Finds n (before ++ List.range' s n ++ after) (some (s, before ++ after)) := by
  refine ⟨before.length, ⟨runAt_append n before after s, hfirst⟩, ?_⟩
  have hlength : (before ++ List.range' s n).length = before.length + n := by
    rw [List.length_append, List.length_range']
  rw [← hlength, List.drop_left, List.append_assoc, List.take_left]

/-- No run starts among counted entries that are too few and are not followed by the next number. -/
theorem le_of_runAt_of_ne (hcount : count < n) (hslot : slot ≠ start + count)
    (h : RunAt n (before ++ List.range' start count ++ slot :: after) p s) (hp : before.length ≤ p) :
    before.length + count ≤ p := by
  apply Nat.le_of_not_lt
  intro hlt
  obtain ⟨j, rfl⟩ := Nat.exists_eq_add_of_le hp
  have hfirst := h 0 (by omega)
  rw [Nat.add_zero, List.append_assoc, List.getElem?_append_right hp, Nat.add_sub_cancel_left,
    List.getElem?_append_left (by rw [List.length_range']; omega),
    List.getElem?_range' (by omega)] at hfirst
  -- the run would have to go on from the counted entries to `slot`
  have hnext := h (count - j) (by omega)
  rw [List.getElem?_append_right (by rw [List.length_append, List.length_range']; omega),
    List.length_append, List.length_range',
    show before.length + j + (count - j) - (before.length + count) = 0 by omega,
    List.getElem?_cons_zero] at hnext
  simp only [Option.some.injEq] at hfirst hnext
  omega

/-- **The search finds the first run, if there is one.** The list is made up of the entries passed,
among which no run starts, the counted ones, and those still to be read. -/
theorem finds_seekRun (hcount : count < n) (hpassed : ∀ {q t},
      RunAt n (passed.reverse ++ List.range' start count ++ entries) q t → passed.length ≤ q) :
    Finds n (passed.reverse ++ List.range' start count ++ entries)
      (seekRun n passed start count entries) := by
  induction entries generalizing passed start count with
  | nil =>
    intro p s h
    have hp := hpassed h
    have hlast := (List.getElem?_eq_some_iff.mp (h (n - 1) (by omega))).1
    simp only [List.append_nil, List.length_append, List.length_reverse,
      List.length_range'] at hlast
    omega
  | cons slot rest ih =>
    rw [seekRun]
    split
    · rename_i hslot
      have hlist : passed.reverse ++ List.range' start count ++ slot :: rest =
          passed.reverse ++ List.range' start (count + 1) ++ rest := by
        rw [List.range'_1_concat, hslot]
        simp
      rw [hlist] at hpassed ⊢
      split
      · rename_i hn
        subst hn
        exact finds_run fun h => by simpa using hpassed h
      · exact ih (by omega) hpassed
    · rename_i hslot
      have hlist : passed.reverse ++ List.range' start count ++ slot :: rest =
          ((List.range' start count).reverse ++ passed).reverse ++ List.range' slot 1 ++ rest := by
        simp
      have hpassed' : ∀ {q t}, RunAt n (passed.reverse ++ List.range' start count ++ slot :: rest)
          q t → ((List.range' start count).reverse ++ passed).length ≤ q := by
        intro q t h
        have hlater := le_of_runAt_of_ne hcount hslot h (by simpa using hpassed h)
        simpa [Nat.add_comm] using hlater
      rw [hlist] at hpassed' ⊢
      dsimp only
      split
      · rename_i hn
        subst hn
        exact finds_run fun h => by simpa [Nat.add_comm] using hpassed' h
      · exact ih (by omega) hpassed'

/-! ## Requests -/

theorem seekRun_zero (passed : List Nat) (start count : Nat) (entries : List Nat) :
    seekRun 0 passed start count entries = none := by
  induction entries generalizing passed start count with
  | nil => rfl
  | cons slot rest ih => simp [seekRun, ih]

theorem takeRun_zero (f : FreeList) : f.takeRun 0 = none := by
  rw [takeRun, seekRun_zero]
  rfl

theorem finds_takeRun (f : FreeList) (hn : 0 < n) :
    Finds n f.slots ((f.takeRun n).map fun taken => (taken.1, taken.2.slots)) := by
  have hpassed : ∀ {q t}, RunAt n ([].reverse ++ List.range' 0 0 ++ f.slots) q t →
      ([] : List Nat).length ≤ q := fun _ => Nat.zero_le _
  have hseek : Finds n f.slots (seekRun n [] 0 0 f.slots) := finds_seekRun hn hpassed
  unfold takeRun
  cases hfound : seekRun n [] 0 0 f.slots with
  | none => rwa [hfound] at hseek
  | some found => rwa [hfound] at hseek

/-- **A request takes the first run** and leaves the other entries in their order. -/
theorem takeRun_eq_some_iff : f.takeRun n = some (s, f') ↔
    0 < n ∧ ∃ p, FirstRun n f.slots p s ∧ f'.slots = f.slots.take p ++ f.slots.drop (p + n) := by
  rcases Nat.eq_zero_or_pos n with rfl | hn
  · simp [takeRun_zero]
  have hfinds := f.finds_takeRun hn
  constructor
  · intro h
    rw [h] at hfinds
    exact ⟨hn, hfinds⟩
  · rintro ⟨-, p, hfirst, hslots⟩
    cases htake : f.takeRun n with
    | none =>
      rw [htake] at hfinds
      exact absurd hfirst.run (hfinds p s)
    | some taken =>
      obtain ⟨t, g⟩ := taken
      rw [htake] at hfinds
      obtain ⟨q, hfirst', hslots'⟩ := hfinds
      obtain ⟨rfl, rfl⟩ := hfirst.unique hn hfirst'
      cases f'
      cases g
      exact congrArg (fun rest => some (s, FreeList.mk rest)) (hslots'.trans hslots.symm)

/-- **A request is refused only if there is no run.** -/
theorem takeRun_eq_none_iff : f.takeRun n = none ↔ n = 0 ∨ ∀ p s, ¬ RunAt n f.slots p s := by
  rcases Nat.eq_zero_or_pos n with rfl | hn
  · simp [takeRun_zero]
  have hfinds := f.finds_takeRun hn
  constructor
  · intro h
    rw [h] at hfinds
    exact .inr hfinds
  · rintro (rfl | hnone)
    · exact absurd hn (Nat.lt_irrefl 0)
    · cases htake : f.takeRun n with
      | none => rfl
      | some taken =>
        rw [htake] at hfinds
        obtain ⟨p, hfirst, -⟩ := hfinds
        exact absurd hfirst.run (hnone p taken.1)

end ScriptCore.FreeList
