import ScriptCore.Proofs.Scope.Resumption

/-!
# The books of the arena

An index without a scope is vacant, and is used again before the arena grows. `Arena.Accounted` adds
to an arena in which scopes are numbered that every such index is listed and that the outermost
scope is in its place. Making a scope takes the first index from the list and a sweep puts any
number in front; whatever else a request does leaves the books as they are (`Arena.Rests`).

A serial number is given once in a run: the numbers given out, one after the other, are those up to
the next one (`ScopeRequest.range_nextSerial_run`).
-/

namespace ScriptCore

namespace Arena

variable {a a' a'' : Arena}

/-! ## The scopes there are -/

theorem length_ids (a : Arena) : a.ids.length = a.liveCount := by
  rw [liveCount, ← Array.countP_toList, toList_scopes, List.countP_map, ids,
    ← List.countP_eq_length_filter, List.countP_map]
  rfl

theorem pairwise_ids (a : Arena) : a.ids.Pairwise fun x y => x.index < y.index := by
  refine List.Pairwise.filter _ (List.pairwise_map.mpr ?_)
  exact List.pairwise_lt_range

/-! ## Books in order -/

/-- Exactly the indices without a scope are vacant, serial numbers are given in order, and the
outermost scope is the one with which the arena was made. -/
structure Accounted (a : Arena) : Prop extends Numbered a where
  mem_vacant : ∀ {i}, i < a.scopes.size → a.get? ⟨i⟩ = none → i ∈ a.vacant
  global_eq : a.global = Arena.new.global
  global_serial : (a.get? a.global).map Scope.serial = some 0

theorem accounted_new : Arena.new.Accounted where
  toNumbered := numbered_new
  mem_vacant {i} hi hnone := by
    obtain rfl : i = 0 := Nat.lt_one_iff.mp hi
    cases hnone
  global_eq := rfl
  global_serial := rfl

theorem Accounted.mem_vacant_iff (ha : a.Accounted) {i : Nat} :
    i ∈ a.vacant ↔ i < a.scopes.size ∧ a.get? ⟨i⟩ = none :=
  ⟨ha.orderly.vacant_free i, fun ⟨hi, hnone⟩ => ha.mem_vacant hi hnone⟩

/-! ### Making a scope -/

/-- The index of the new scope is the only one that is no longer vacant. -/
theorem mem_vacant_create {state : ScopeState} {outer : Option ScopeId} {i : Nat}
    (hmem : i ∈ a.vacant) (hne : (⟨i⟩ : ScopeId) ≠ (a.create state outer).1) :
    i ∈ (a.create state outer).2.vacant := by
  unfold create at hne ⊢
  cases hvacant : a.vacant with
  | nil =>
    rw [hvacant] at hmem
    cases hmem
  | cons index vacant =>
    rw [hvacant] at hmem hne
    exact (List.mem_cons.mp hmem).resolve_left fun heq => hne (congrArg ScopeId.mk heq)

/-- The arena grows at most by the index of the new scope. -/
theorem lt_size_of_lt_size_create {state : ScopeState} {outer : Option ScopeId} {i : Nat}
    (hi : i < (a.create state outer).2.scopes.size)
    (hne : (⟨i⟩ : ScopeId) ≠ (a.create state outer).1) : i < a.scopes.size := by
  unfold create at hi hne
  cases hvacant : a.vacant with
  | nil =>
    rw [hvacant] at hi hne
    have hlast : i ≠ a.scopes.size := fun heq => hne (congrArg ScopeId.mk heq)
    have hle : i < a.scopes.size + 1 := by simpa using hi
    omega
  | cons index vacant =>
    rw [hvacant] at hi
    simpa using hi

theorem Accounted.create (ha : a.Accounted) (state : ScopeState) (outer : Option ScopeId) :
    (a.create state outer).2.Accounted := by
  have hglobal := (a.frame_create state outer).1
  have habides : a.Abides id (fun _ _ => True) (a.create state outer).2 :=
    abides_create ha.toNumbered trivial
  refine ⟨habides.numbered, fun {i} hi hnone => ?_, hglobal.trans ha.global_eq, ?_⟩
  · have hne : (⟨i⟩ : ScopeId) ≠ (a.create state outer).1 := by
      intro heq
      rw [heq, (ha.orderly.get?_create state outer).2] at hnone
      cases hnone
    rw [get?_create_of_ne hne] at hnone
    exact mem_vacant_create (ha.mem_vacant (lt_size_of_lt_size_create hi hne) hnone) hne
  · obtain ⟨s, hs, hserial⟩ := Option.map_eq_some_iff.mp ha.global_serial
    rw [hglobal, ha.orderly.get?_create_of_get? state outer hs]
    exact congrArg some hserial

/-! ### Reclaiming scopes -/

theorem mem_vacant_foldl_release (dead : List ScopeId)
    (ha : ∀ {i}, i < a.scopes.size → a.get? ⟨i⟩ = none → i ∈ a.vacant) {i : Nat}
    (hi : i < (dead.foldl release a).scopes.size)
    (hnone : (dead.foldl release a).get? ⟨i⟩ = none) : i ∈ (dead.foldl release a).vacant := by
  induction dead generalizing a with
  | nil => exact ha hi hnone
  | cons id rest ih =>
    refine ih (fun {j} hj hgone => ?_) hi hnone
    rw [get?_release] at hgone
    unfold release at hj ⊢
    by_cases hlive : a.contains id = true
    · rw [if_pos hlive] at hj ⊢
      by_cases heq : (⟨j⟩ : ScopeId) = id
      · subst heq
        exact List.mem_cons_self
      · rw [if_neg heq] at hgone
        exact List.mem_cons_of_mem _ (ha (by simpa using hj) hgone)
    · rw [if_neg hlive] at hj ⊢
      have hkept : a.get? ⟨j⟩ = none := by
        by_cases heq : (⟨j⟩ : ScopeId) = id
        · subst heq
          simpa [contains] using hlive
        · rwa [if_neg heq] at hgone
      exact ha hj hkept

theorem Accounted.sweep (ha : a.Accounted) (u : Unreached) : (a.sweep u).Accounted := by
  have hglobal := (a.frame_sweep u).1
  have habides : a.Abides id (fun _ _ => True) (a.sweep u) := abides_sweep ha.toNumbered u
  refine ⟨habides.numbered, fun {i} hi hnone => ?_, hglobal.trans ha.global_eq, ?_⟩
  · exact mem_vacant_foldl_release _ ha.mem_vacant hi hnone
  · rw [get?_sweep, hglobal, if_neg fun hdead => hdead.2 rfl]
    exact ha.global_serial

/-! ### All else -/

/-- No scope has been made or reclaimed. -/
structure Rests (a a' : Arena) : Prop where
  size : a'.scopes.size = a.scopes.size
  vacant : a'.vacant = a.vacant
  nextSerial : a'.nextSerial = a.nextSerial
  global : a'.global = a.global
  serial : ∀ x, (a'.get? x).map Scope.serial = (a.get? x).map Scope.serial

namespace Rests

theorem refl (a : Arena) : a.Rests a := ⟨rfl, rfl, rfl, rfl, fun _ => rfl⟩

theorem trans (h : a.Rests a') (h' : a'.Rests a'') : a.Rests a'' where
  size := h'.size.trans h.size
  vacant := h'.vacant.trans h.vacant
  nextSerial := h'.nextSerial.trans h.nextSerial
  global := h'.global.trans h.global
  serial x := (h'.serial x).trans (h.serial x)

theorem get?_eq_none_iff (h : a.Rests a') (x : ScopeId) : a'.get? x = none ↔ a.get? x = none := by
  rw [← Option.map_eq_none_iff (f := Scope.serial), h.serial, Option.map_eq_none_iff]

theorem accounted (h : a.Rests a') (ha : a.Accounted) : a'.Accounted := by
  have hscope : ∀ {x s'}, a'.get? x = some s' → ∃ s, a.get? x = some s ∧ s.serial = s'.serial := by
    intro x s' hs'
    have hserial := h.serial x
    rw [hs', Option.map_some] at hserial
    exact Option.map_eq_some_iff.mp hserial.symm
  refine ⟨⟨⟨?_, fun i hi => ?_, fun hs' => ?_⟩, fun hs' ht' heq => ?_⟩, fun {i} hi hnone => ?_,
    h.global.trans ha.global_eq, ?_⟩
  · rw [h.vacant]
    exact ha.orderly.vacant_nodup
  · rw [h.vacant] at hi
    rw [h.size, h.get?_eq_none_iff]
    exact ha.orderly.vacant_free i hi
  · obtain ⟨s, hs, hserial⟩ := hscope hs'
    rw [h.nextSerial, ← hserial]
    exact ha.orderly.serial_lt hs
  · obtain ⟨s, hs, hserial⟩ := hscope hs'
    obtain ⟨t, ht, hserial'⟩ := hscope ht'
    exact ha.eq_of_serial hs ht (hserial.trans (heq.trans hserial'.symm))
  · rw [h.size] at hi
    rw [h.vacant]
    exact ha.mem_vacant hi ((h.get?_eq_none_iff _).mp hnone)
  · rw [h.global, h.serial]
    exact ha.global_serial

end Rests

theorem rests_modify (a : Arena) (x : ScopeId) {g : Scope → Scope}
    (hg : ∀ s, (g s).serial = s.serial) : a.Rests (a.modify x g) where
  size := by simp [modify]
  vacant := rfl
  nextSerial := rfl
  global := rfl
  serial y := by
    rw [get?_modify]
    split
    · subst y
      rw [Option.map_map]
      exact Option.map_congr fun s _ => hg s
    · rfl

theorem rests_setControl (a : Arena) (x : ScopeId) (c : Control) : a.Rests (a.setControl x c) :=
  a.rests_modify x fun s => (s.kin_setControl c).serial

theorem rests_foldl_setControl (a : Arena) (g : Control → Control)
    (parked : List (ScopeId × Control)) :
    a.Rests (parked.foldl (fun a p => a.setControl p.1 (g p.2)) a) := by
  induction parked generalizing a with
  | nil => exact .refl a
  | cons p rest ih => exact (a.rests_setControl p.1 (g p.2)).trans (ih _)

theorem rests_setSuspended (a : Arena) (l : List Suspended) : a.Rests (a.setSuspended l) :=
  ⟨rfl, rfl, rfl, rfl, fun _ => rfl⟩

theorem rests_suspendControl (a : Arena) (x : ScopeId) : a.Rests (a.suspendControl x) := by
  rw [suspendControl_eq]
  exact (a.rests_foldl_setControl Control.cleared _).trans (rests_setSuspended _ _)

theorem rests_restoreControl (a : Arena) : a.Rests a.restoreControl := by
  unfold restoreControl
  split
  · exact .refl a
  · rename_i owners parked suspended _
    have hrest := a.rests_setSuspended suspended
    dsimp only
    split
    · exact hrest
    · exact hrest.trans (rests_foldl_setControl _ (fun c => c) parked)

theorem rests_mapRefs (a : Arena) (f : Ref → Ref) : a.Rests (a.mapRefs f) where
  size := by simp [mapRefs]
  vacant := rfl
  nextSerial := rfl
  global := rfl
  serial x := by
    rw [get?_mapRefs, Option.map_map]
    rfl

end Arena

namespace ScopeRequest

variable {request : ScopeRequest} {a a' : Arena}

/-! ## Runs -/

/-- A request makes a scope, reclaims scopes, or leaves the books as they are. -/
theorem Changes.create_or_sweep_or_rests (h : Changes request a a') :
    (∃ state outer, request = .create state outer ∧ a' = (a.create state outer).2) ∨
      (∃ u, a' = a.sweep u) ∨ a.Rests a' := by
  cases h with
  | create h => exact .inl ⟨_, _, h, rfl⟩
  | sweep u => exact .inr (.inl ⟨u, rfl⟩)
  | same => exact .inr (.inr (.refl a))
  | rebound h =>
    obtain ⟨x, g, hg, rfl⟩ := h
    exact .inr (.inr (a.rests_modify x fun s => (hg s).1.serial))
  | control _ _ => exact .inr (.inr (a.rests_setControl _ _))
  | suspend x => exact .inr (.inr (a.rests_suspendControl x))
  | restore => exact .inr (.inr a.rests_restoreControl)
  | move f => exact .inr (.inr (a.rests_mapRefs f))

/-- **Every request keeps the books in order.** -/
theorem apply_accounted (request : ScopeRequest) {s : Memory × Arena} (hs : s.2.Accounted) :
    (request.apply s).2.Accounted := by
  rcases (request.apply_changes s).create_or_sweep_or_rests with
    ⟨state, outer, -, hcreate⟩ | ⟨u, hsweep⟩ | hrests
  · rw [hcreate]
    exact hs.create state outer
  · rw [hsweep]
    exact hs.sweep u
  · exact hrests.accounted hs

theorem run_accounted (requests : List ScopeRequest) {s : Memory × Arena} (hs : s.2.Accounted) :
    (run requests s).2.Accounted := by
  induction requests generalizing s with
  | nil => exact hs
  | cons request rest ih => exact ih (request.apply_accounted hs)

/-- The serial number that the scope made by a request is given. -/
def given : ScopeRequest → Memory × Arena → List Nat
  | .create state outer, (_, a) =>
    let made := a.create state outer
    ((made.2.get? made.1).map Scope.serial).toList
  | _, _ => []

/-- The serial numbers given in a run, one after the other. -/
def serials : List ScopeRequest → Memory × Arena → List Nat
  | [], _ => []
  | request :: rest, s => request.given s ++ serials rest (request.apply s)

/-- The number given is the next one, and a request that makes no scope uses none up. -/
theorem range_nextSerial_apply (request : ScopeRequest) {s : Memory × Arena} (hs : s.2.Orderly) :
    List.range (request.apply s).2.nextSerial = List.range s.2.nextSerial ++ request.given s := by
  obtain ⟨m, a⟩ := s
  by_cases hcreate : ∃ state outer, request = .create state outer
  · obtain ⟨state, outer, rfl⟩ := hcreate
    dsimp only [apply, given]
    rw [(hs.get?_create state outer).2, a.nextSerial_create, List.range_succ]
    rfl
  · have hgiven : request.given (m, a) = [] := by
      cases request with
      | create state outer => exact absurd ⟨state, outer, rfl⟩ hcreate
      | _ => rfl
    have hnext : (request.apply (m, a)).2.nextSerial = a.nextSerial := by
      rcases (request.apply_changes (m, a)).create_or_sweep_or_rests with
        ⟨state, outer, heq, -⟩ | ⟨u, hsweep⟩ | hrests
      · exact absurd ⟨state, outer, heq⟩ hcreate
      · rw [hsweep]
        exact (a.frame_sweep u).2.1
      · exact hrests.nextSerial
    rw [hgiven, hnext, List.append_nil]

/-- **The serial numbers given in a run are the next ones, in order.** -/
theorem range_nextSerial_run (requests : List ScopeRequest) {s : Memory × Arena}
    (hs : s.2.Accounted) :
    List.range (run requests s).2.nextSerial = List.range s.2.nextSerial ++ serials requests s := by
  induction requests generalizing s with
  | nil => exact (List.append_nil _).symm
  | cons request rest ih =>
    have hrest := ih (request.apply_accounted hs)
    rw [request.range_nextSerial_apply hs.orderly, List.append_assoc] at hrest
    exact hrest

end ScopeRequest

/-- **The books of the arena.** Take any run of requests on new scopes beside any memory.

* The vacant indices are those without a scope, each listed once.
* A scope that is made now gets an index without a scope, and no other scope changes.
* Scopes have serial numbers of their own, all of them below the next one. Those given in the whole
  run, after that of the outermost scope, are different from each other, and every scope there is
  has one of them.
* The outermost scope is still there, at its index and with its serial number.
* Exactly the scopes there are are listed, in the order of their indices, and as many are counted. -/
theorem arena_bookkeeping (m : Memory) (requests : List ScopeRequest) :
    let a := (ScopeRequest.run requests (m, Arena.new)).2
    let serials := 0 :: ScopeRequest.serials requests (m, Arena.new)
    (a.vacant.Nodup ∧ ∀ i, i ∈ a.vacant ↔ i < a.scopes.size ∧ a.get? ⟨i⟩ = none) ∧
      (∀ state outer, a.get? (a.create state outer).1 = none ∧
        (a.create state outer).2.get? (a.create state outer).1 =
          some { state, outer, serial := a.nextSerial } ∧
        ∀ x, x ≠ (a.create state outer).1 → (a.create state outer).2.get? x = a.get? x) ∧
      ((∀ x s, a.get? x = some s → s.serial < a.nextSerial) ∧
        (∀ x y s t, a.get? x = some s → a.get? y = some t → s.serial = t.serial → x = y) ∧
        serials.Nodup ∧ ∀ x s, a.get? x = some s → s.serial ∈ serials) ∧
      (a.global = Arena.new.global ∧
        ∃ s s', Arena.SameAt Arena.new a Arena.new.global s s') ∧
      a.liveCount = a.ids.length ∧ (a.ids.Pairwise fun x y => x.index < y.index) ∧
      ∀ x, x ∈ a.ids ↔ ∃ s, a.get? x = some s := by
  intro a serials
  have ha : a.Accounted := ScopeRequest.run_accounted requests Arena.accounted_new
  have hserials : List.range a.nextSerial = serials :=
    ScopeRequest.range_nextSerial_run requests Arena.accounted_new
  refine ⟨⟨ha.orderly.vacant_nodup, fun i => ha.mem_vacant_iff⟩, fun state outer => ?_,
    ⟨fun x s hs => ha.orderly.serial_lt hs, fun x y s t hs ht => ha.eq_of_serial hs ht, ?_,
      fun x s hs => ?_⟩, ⟨ha.global_eq, ?_⟩, a.length_ids.symm, a.pairwise_ids,
    fun x => Arena.mem_ids.trans Option.isSome_iff_exists⟩
  · obtain ⟨hfresh, hscope⟩ := ha.orderly.get?_create state outer
    exact ⟨hfresh, hscope, fun x hx => Arena.get?_create_of_ne hx⟩
  · rw [← hserials]
    exact List.nodup_range
  · rw [← hserials]
    exact List.mem_range.mpr (ha.orderly.serial_lt hs)
  · obtain ⟨s, hs, hserial⟩ := Option.map_eq_some_iff.mp ha.global_serial
    rw [ha.global_eq] at hs
    exact ⟨_, s, rfl, hs, hserial⟩

end ScriptCore
