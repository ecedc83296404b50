import ScriptCore.Proofs.Heap.Fitting
import ScriptCore.Proofs.Session.Collection

/-!
# Allocation fails only when it must

An allocation makes up to three attempts: at once, after a collection, and after a compaction if
that is allowed. `Session.Attempt` are the sessions in which one is made, and
`Session.allocate_cases` says how an allocation ends: one of the attempts finds room, or the last
one does not. Each takes the first run of the free list that is long enough
(`FreeList.takeRun_eq_some_iff`).

What the last attempt finds depends on the reachable objects alone. A collection leaves these and
nothing else, so the slots that it leaves free are `Session.liveSpan` fewer than there are, and a
compaction makes one run of them. `Session.allocate_exact` puts this together.
-/

namespace ScriptCore

namespace Heap

/-- The headers are those of the objects, in the order of their slots. -/
theorem Tiled.headers_eq_filterMap_refs {h : Heap} (ht : h.Tiled) :
    h.headers = h.refs.filterMap h.header? := by
  have hlist : h.slots.toList.map some = (List.range h.capacity).map h.slot? := by
    apply List.ext_getElem?
    intro i
    simp only [List.getElem?_map, Array.getElem?_toList, capacity]
    by_cases hi : i < h.slots.size
    · simp [hi, slot?]
    · simp [hi]
  have hslot : ∀ i, (h.slot? i).bind Slot.header? = h.header? ⟨i⟩ := by
    intro i
    cases i with
    | zero => rw [ht.slot?_zero]; rfl
    | succ i => rfl
  calc h.headers
      = (h.slots.toList.map some).filterMap (·.bind Slot.header?) := by
        rw [List.filterMap_map]; rfl
    _ = (List.range h.capacity).filterMap fun i => h.header? ⟨i⟩ := by
        rw [hlist, List.filterMap_map]; exact List.filterMap_congr fun i _ => hslot i
    _ = h.refs.filterMap h.header? := by
        rw [refs, List.filterMap_filter, List.filterMap_map]
        refine List.filterMap_congr fun i _ => ?_
        cases hi : h.header? ⟨i⟩ <;> simp [hi]

end Heap

namespace Session

open Run

/-! ## The attempts of an allocation -/

/-- The session in which an allocation of `n` slots that found no room has collected garbage. -/
def swept (S : Session) (n : Nat) : Session :=
  Session.collected
    { S with events := S.events.push (.heapExhausted n S.memory.available) } none

/-- The session in which an allocation of `n` slots makes its last attempt. -/
def tidied (S : Session) (n : Nat) : Session :=
  if S.options.compaction then (S.swept n).slid else S.swept n

/-- The sessions in which an allocation of `n` slots looks for room. -/
inductive Attempt (S : Session) (n : Nat) : Session → Prop
  | first : Attempt S n S
  | swept : Attempt S n (S.swept n)
  | tidied : Attempt S n (S.tidied n)

theorem exec_tryAllocate_some {S : Session} {n : Nat} {r : Ref} {m : Memory}
    (h : S.memory.tryAllocate n = some (r, m)) :
    (tryAllocate n).exec S = (.ok (some r), { S with memory := m }) := by
  unfold tryAllocate
  rw [exec_modifyGet, h]

theorem exec_tryAllocate_none {S : Session} {n : Nat} (h : S.memory.tryAllocate n = none) :
    (tryAllocate n).exec S = (.ok none, S) := by
  unfold tryAllocate
  rw [exec_modifyGet, h]

section WellFormed

variable {S : Session} (hw : S.memory.heap.WellFormed)
include hw

theorem wellFormed_swept (n : Nat) : (S.swept n).memory.heap.WellFormed :=
  wellFormed_collected hw none

theorem wellFormed_tidied (n : Nat) : (S.tidied n).memory.heap.WellFormed := by
  unfold tidied
  split
  · exact wellFormed_slid (wellFormed_swept hw n)
  · exact wellFormed_swept hw n

theorem exec_slideAndRetry (n : Nat) : (slideAndRetry n).exec S =
    if S.options.compaction then (tryAllocate n).exec S.slid else (.ok none, S) := by
  unfold slideAndRetry
  rw [exec_bind_ok (exec_get S)]
  split
  · rw [exec_bind_ok (exec_slide hw)]
  · rfl

theorem Attempt.wellFormed {n : Nat} {T : Session} (h : S.Attempt n T) :
    T.memory.heap.WellFormed := by
  cases h with
  | first => exact hw
  | swept => exact wellFormed_swept hw n
  | tidied => exact wellFormed_tidied hw n

/-- **How an allocation ends**: some attempt finds room, or the last one does not. -/
theorem allocate_cases (size : Nat) :
    (∃ T r m, S.Attempt (max size 1) T ∧ T.memory.tryAllocate (max size 1) = some (r, m) ∧
      (allocate size).exec S = (.ok r, { T with memory := m })) ∨
    ((S.tidied (max size 1)).memory.tryAllocate (max size 1) = none ∧
      (allocate size).exec S =
        (.error (.fault (.outOfMemory (max size 1) (S.tidied (max size 1)).memory.available)),
          S.tidied (max size 1))) := by
  unfold allocate
  dsimp only
  generalize max size 1 = n
  cases hfirst : S.memory.tryAllocate n with
  | some p =>
    refine .inl ⟨S, p.1, p.2, .first, hfirst, ?_⟩
    rw [exec_bind_ok (exec_tryAllocate_some hfirst)]
    rfl
  | none =>
    rw [exec_bind_ok (exec_tryAllocate_none hfirst)]
    dsimp only
    rw [exec_bind_ok (exec_get S), exec_bind_ok (exec_report _ _),
      exec_bind_ok (exec_collectFrom (by exact hw) none)]
    change _ ∨ _ ∧ Run.exec _ (S.swept n) = _
    change (∃ T r m, _ ∧ _ ∧ Run.exec _ (S.swept n) = _) ∨ _
    cases hswept : (S.swept n).memory.tryAllocate n with
    | some p =>
      refine .inl ⟨S.swept n, p.1, p.2, .swept, hswept, ?_⟩
      rw [exec_bind_ok (exec_tryAllocate_some hswept)]
      rfl
    | none =>
      rw [exec_bind_ok (exec_tryAllocate_none hswept)]
      dsimp only
      have hretry := exec_slideAndRetry (wellFormed_swept hw n) n
      cases htidied : (S.tidied n).memory.tryAllocate n with
      | some p =>
        refine .inl ⟨S.tidied n, p.1, p.2, .tidied, htidied, ?_⟩
        by_cases hc : S.options.compaction = true
        · rw [tidied, if_pos hc] at htidied ⊢
          rw [if_pos (by exact hc), exec_tryAllocate_some htidied] at hretry
          rw [exec_bind_ok hretry]
          rfl
        · rw [tidied, if_neg hc, hswept] at htidied
          cases htidied
      | none =>
        refine .inr ⟨rfl, ?_⟩
        have hlast : (slideAndRetry n).exec (S.swept n) = (.ok none, S.tidied n) := by
          rw [hretry]
          by_cases hc : S.options.compaction = true
          · rw [tidied, if_pos hc] at htidied ⊢
            rw [if_pos (by exact hc), exec_tryAllocate_none htidied]
          · rw [tidied, if_neg hc, if_neg (by exact hc)]
        rw [exec_bind_ok hlast]
        rfl

end WellFormed

/-! ## The room there is -/

/-- The objects that can be reached, in the order of their slots. -/
noncomputable def liveRefs (S : Session) : List Ref :=
  open Classical in S.memory.heap.refs.filter fun r => S.Reaches (.object r)

/-- The number of slots that the reachable objects occupy. -/
noncomputable def liveSpan (S : Session) : Nat :=
  ((S.liveRefs.filterMap S.memory.heap.header?).map Header.span).sum

/-- Somewhere `n` slots in a row belong to no reachable object. -/
def HasWindow (S : Session) (n : Nat) : Prop :=
  ∃ start, 1 ≤ start ∧ start + n ≤ S.memory.capacity ∧ ∀ i, start ≤ i → i < start + n →
    ∀ {r header}, S.Reaches (.object r) → S.memory.heap.header? r = some header →
      ¬ (r.slot ≤ i ∧ i < r.slot + header.span)

theorem capacity_swept (S : Session) (n : Nat) :
    (S.swept n).memory.capacity = S.memory.capacity :=
  (Heap.capacity_sweep _).trans (Heap.capacity_mark _ _)

section Room

variable {S : Session} (hw : S.memory.heap.WellFormed)
include hw

theorem header?_swept {n : Nat} {r : Ref} {header : Header} :
    (S.swept n).memory.heap.header? r = some header ↔
      S.memory.heap.header? r = some header ∧ S.Reaches (.object r) :=
  header?_collect S.arena (S.rootSet none) hw

/-- The objects that a collection leaves. -/
theorem refs_swept (n : Nat) : (S.swept n).memory.heap.refs = S.liveRefs := by
  unfold liveRefs Heap.refs
  have hcap : (S.swept n).memory.heap.capacity = S.memory.heap.capacity := S.capacity_swept n
  rw [hcap, List.filter_filter]
  refine List.filter_congr fun r _ => ?_
  rw [Bool.eq_iff_iff]
  simp only [Option.isSome_iff_exists, header?_swept hw, Bool.and_eq_true, decide_eq_true_eq]
  grind

/-- The slots in use after a collection are those of the reachable objects. -/
theorem used_swept (n : Nat) : (S.swept n).memory.heap.used = S.liveSpan := by
  have htiled := (wellFormed_swept hw n).tiled
  rw [Heap.used, htiled.headers_eq_filterMap_refs, refs_swept hw, liveSpan]
  congr 2
  refine List.filterMap_congr fun r hr => ?_
  rw [← refs_swept hw n, Heap.mem_refs] at hr
  obtain ⟨header, hheader⟩ := Option.isSome_iff_exists.mp hr
  rw [hheader, ((header?_swept hw).mp hheader).1]

theorem liveSpan_le_used : S.liveSpan ≤ S.memory.heap.used := by
  have hused := ((hw.tiled.mark (garbage S.memory S.arena (S.rootSet none))).used_sweep).trans
    (Heap.used_mark _ _)
  rw [← collect_heap, show (collect S.memory S.arena (S.rootSet none)).2.1.heap.used = S.liveSpan
    from used_swept hw 0] at hused
  omega

theorem available_swept (n : Nat) :
    (S.swept n).memory.available = S.memory.capacity - 1 - S.liveSpan := by
  have hcount := (wellFormed_swept hw n).available_add_used
  have hcap : (S.swept n).memory.heap.capacity = S.memory.capacity := S.capacity_swept n
  rw [used_swept hw, hcap] at hcount
  change (S.swept n).memory.heap.available = _
  omega

/-- After a compaction the free slots are one run behind the objects. -/
theorem free_slid : S.slid.memory.heap.free.slots =
    List.range' (1 + S.memory.heap.used) S.memory.available := by
  have hcount := hw.available_add_used
  have hlength : S.memory.available = S.memory.heap.capacity - (1 + S.memory.heap.used) := by
    change S.memory.heap.available = _
    omega
  rw [hlength]
  exact hw.tiled.free_slide

theorem available_tidied (n : Nat) :
    (S.tidied n).memory.available = S.memory.capacity - 1 - S.liveSpan := by
  unfold tidied
  split
  · have hfree := free_slid (wellFormed_swept hw n)
    rw [available_swept hw] at hfree
    change List.length _ = _
    rw [hfree, List.length_range']
  · exact available_swept hw n

/-- No attempt sees more free slots than the last one. -/
theorem Attempt.available_le {n : Nat} {T : Session} (h : S.Attempt n T) :
    T.memory.available ≤ S.memory.capacity - 1 - S.liveSpan := by
  cases h with
  | first =>
    have hcount := hw.available_add_used
    have hlive := liveSpan_le_used hw
    change S.memory.heap.available ≤ S.memory.heap.capacity - 1 - S.liveSpan
    omega
  | swept => exact Nat.le_of_eq (available_swept hw n)
  | tidied => exact Nat.le_of_eq (available_tidied hw n)

theorem le_available_of_tryAllocate {T : Session} {n : Nat} {r : Ref} {m : Memory}
    (hT : S.Attempt n T) (h : T.memory.tryAllocate n = some (r, m)) :
    n ≤ S.memory.capacity - 1 - S.liveSpan := by
  obtain ⟨heap, hres, -⟩ := Memory.tryAllocate_eq_some.mp h
  obtain ⟨-, -, -, -, hrun⟩ := (hT.wellFormed hw).reserve_eq_some hres
  exact Nat.le_trans (FreeList.le_length_of_takeRun hrun) (hT.available_le hw)

/-- Without compaction an attempt takes slots of no reachable object. -/
theorem hasWindow_of_tryAllocate {T : Session} {n : Nat} {r : Ref} {m : Memory}
    (hT : T = S ∨ T = S.swept n) (h : T.memory.tryAllocate n = some (r, m)) : S.HasWindow n := by
  have hcap : T.memory.capacity = S.memory.capacity := by
    rcases hT with rfl | rfl
    · rfl
    · exact S.capacity_swept n
  have hkept : ∀ {r' header}, S.Reaches (.object r') → S.memory.heap.header? r' = some header →
      T.memory.heap.header? r' = some header := by
    intro r' header hreach hheader
    rcases hT with rfl | rfl
    · exact hheader
    · exact (header?_swept hw).mpr ⟨hheader, hreach⟩
  have hwT : T.memory.heap.WellFormed := by
    rcases hT with rfl | rfl
    · exact hw
    · exact wellFormed_swept hw n
  obtain ⟨heap, hres, -⟩ := Memory.tryAllocate_eq_some.mp h
  obtain ⟨hpos, hr, -⟩ := hwT.reserve_eq_some hres
  have hreserved := hwT.reserved hres
  refine ⟨r.slot, hr, ?_, fun i hle hlt r' header hreach hheader hcovers => ?_⟩
  · have hlast := Heap.lt_capacity_of_slot? (hreserved.vacant (k := n - 1) (by omega))
    change T.memory.heap.capacity = _ at hcap
    omega
  · obtain ⟨k, rfl⟩ := Nat.exists_eq_add_of_le hcovers.1
    exact hreserved.not_taken hwT (hkept hreach hheader) (by omega) ⟨hle, hlt⟩

/-- A row of slots of no reachable object is free after a collection, and found. -/
theorem not_hasWindow_of_swept {n : Nat} (hn : 0 < n)
    (h : (S.swept n).memory.tryAllocate n = none) : ¬ S.HasWindow n := by
  rintro ⟨start, hstart, hend, hfree⟩
  have hwT := wellFormed_swept hw n
  have hrun : (S.swept n).memory.heap.free.takeRun n = none :=
    Option.map_eq_none_iff.mp (Option.map_eq_none_iff.mp h)
  have hnone := (FreeList.takeRun_eq_none_iff.mp hrun).resolve_left (Nat.ne_of_gt hn)
  have hcap : (S.swept n).memory.heap.capacity = S.memory.capacity := S.capacity_swept n
  have hlisted : ∀ k, k < n → start + k ∈ (S.swept n).memory.heap.free.slots := by
    intro k hk
    obtain ⟨b, hb, hmem⟩ := hwT.tiled.exists_block (i := start + k) (by omega) (by omega)
    cases b with
    | loose i =>
      simp only [Block.mem_slots, Block.start_loose, Block.size_loose] at hmem
      obtain rfl : i = start + k := by omega
      exact (hwT.mem_free _).mpr (hwT.tiled.loose_mem_iff.mp hb)
    | object i header body =>
      have hheader := (hwT.tiled.header?_eq_some_iff (r := ⟨i⟩)).mpr ⟨body, hb⟩
      obtain ⟨hold, hreach⟩ := (header?_swept hw).mp hheader
      have hwhole := (hwT.tiled.whole _ hb).1
      simp only [Block.mem_slots, Block.start_object, Block.size_object, hwhole] at hmem
      exact absurd hmem (hfree _ (by omega) (by omega) hreach hold)
  obtain ⟨p, hp⟩ := FreeList.runAt_of_ascending (Heap.pairwise_free_sweep _) hlisted
  exact hnone p start hp

/-- After a compaction every request fits that is not larger than the number of free slots. -/
theorem lt_of_slid {n : Nat} (hn : 0 < n) (h : S.slid.memory.tryAllocate n = none) :
    S.memory.available < n := by
  have hrun : S.slid.memory.heap.free.takeRun n = none :=
    Option.map_eq_none_iff.mp (Option.map_eq_none_iff.mp h)
  apply Nat.lt_of_not_le
  intro hle
  refine (FreeList.takeRun_eq_none_iff.mp hrun).resolve_left (Nat.ne_of_gt hn) 0
    (1 + S.memory.heap.used) ?_
  rw [free_slid hw]
  exact FreeList.runAt_range' hle

end Room

/-! ## The exact condition -/

/-- What an allocation of `n` slots comes to. -/
structure Allocates (S : Session) (n : Nat) (outcome : Except Stop Ref) (T : Session) : Prop where
  /-- If objects may be moved, it takes as many slots that belong to no reachable object. -/
  moving : S.options.compaction = true →
    ((∃ r, outcome = .ok r) ↔ n ≤ S.memory.capacity - 1 - S.liveSpan)
  /-- If not, these have to be in a row. -/
  fixed : S.options.compaction = false → ((∃ r, outcome = .ok r) ↔ S.HasWindow n)
  /-- There is one way to fail. -/
  refused : ∀ {stop}, outcome = .error stop →
    stop = .fault (.outOfMemory n (S.memory.capacity - 1 - S.liveSpan))
  /-- The slots taken are an array of nulls. -/
  header : ∀ {r}, outcome = .ok r → T.memory.heap.header? r = some ⟨.array (n - 1), false⟩
  element : ∀ {r}, outcome = .ok r → ∀ {k}, 0 < k → k < n →
    T.memory.heap.slot? (r.slot + k) = some (.data .null)
  /-- None of them belongs to another object. -/
  disjoint : ∀ {r}, outcome = .ok r → ∀ {r' header}, T.memory.heap.header? r' = some header →
    r' ≠ r → ∀ i, ¬ ((r.slot ≤ i ∧ i < r.slot + n) ∧ r'.slot ≤ i ∧ i < r'.slot + header.span)
  wellFormed : T.memory.heap.WellFormed

/-- **Allocation fails exactly when it must.** -/
theorem allocate_exact {S : Session} (hw : S.memory.heap.WellFormed) (size : Nat) :
    Allocates S (max size 1) ((allocate size).exec S).1 ((allocate size).exec S).2 := by
  have hn : 0 < max size 1 := by omega
  rcases allocate_cases hw size with ⟨T, r, m, hT, htaken, hexec⟩ | ⟨hnone, hexec⟩
  · rw [hexec]
    obtain ⟨heap, hres, rfl⟩ := Memory.tryAllocate_eq_some.mp htaken
    have hreserved := (hT.wellFormed hw).reserved hres
    refine {
      moving := fun _ => ⟨fun _ => le_available_of_tryAllocate hw hT htaken, fun _ => ⟨r, rfl⟩⟩
      fixed := fun hc => ⟨fun _ => hasWindow_of_tryAllocate hw ?_ htaken, fun _ => ⟨r, rfl⟩⟩
      refused := fun h => by cases h
      header := fun h => Except.ok.inj h ▸ hreserved.header
      element := fun h => Except.ok.inj h ▸ hreserved.element
      disjoint := ?_
      wellFormed := hreserved.wellFormed }
    · cases hT with
      | first => exact .inl rfl
      | swept => exact .inr rfl
      | tidied => exact .inr (by rw [tidied, hc]; rfl)
    · rintro _ ⟨⟩ r' header hr' hne i
      have hdisjoint := hreserved.wellFormed.disjoint hreserved.header hr' (Ne.symm hne) i
      have hspan : Header.span ⟨.array (max size 1 - 1), false⟩ = max size 1 := by
        simp only [Header.span, ObjectData.span]
        omega
      rwa [hspan] at hdisjoint
  · rw [hexec]
    refine {
      moving := fun hc => ⟨fun h => ?_, fun hle => ?_⟩
      fixed := fun hc => ⟨fun h => ?_, fun hwindow => ?_⟩
      refused := fun h => by rw [← Except.error.inj h, available_tidied hw]
      header := fun h => by cases h
      element := fun h => by cases h
      disjoint := fun h => by cases h
      wellFormed := wellFormed_tidied hw _ }
    · obtain ⟨r, h⟩ := h
      cases h
    · rw [tidied, if_pos hc] at hnone
      have hlt := lt_of_slid (wellFormed_swept hw _) hn hnone
      rw [available_swept hw] at hlt
      omega
    · obtain ⟨r, h⟩ := h
      cases h
    · rw [tidied, hc] at hnone
      exact absurd hwindow (not_hasWindow_of_swept hw hn hnone)

/-- A session on a heap with two free slots that are not next to each other. -/
def gapped : Session :=
  { Session.new {} with memory := { heap := Heap.gapped, managed := [⟨1⟩] } }

/-- Two slots that can be had only when objects are freed or moved. -/
theorem allocate_exact_gapped : gapped.memory.heap.WellFormed ∧
    Allocates gapped 2 ((allocate 2).exec gapped).1 ((allocate 2).exec gapped).2 :=
  ⟨Heap.gapped_wellFormed, allocate_exact Heap.gapped_wellFormed 2⟩

end Session

end ScriptCore
