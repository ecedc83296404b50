import ScriptCore.Proofs.Scope.Calm

/-!
# Scopes inside scopes

`Arena.Opens` says that a scope has been made inside another one. The scope inside sees what the
scope around it sees, and its own control state (`Arena.Opens.sees`); a signal raised inside is
taken there or goes where it would go from outside (`Arena.Opens.owns_iff`).

`Arena.Records` says that the only trace of what has been run in a scope is one signal, recorded at
its owner, or none. `Arena.Opens.leave` carries that from a scope to the scope around it, for a
signal that is not taken inside, and `Arena.Opens.absorb` forgets a signal that is.
-/

namespace ScriptCore

theorem ScopeState.calling?_of_sub {s : ScopeState} (h : s.kind.category = .sub) :
    s.calling? = none := by
  cases s <;> first | rfl | cases h

/-- Binding a name makes no difference to other names. -/
theorem Scope.binds_insert (s : Scope) (name : String) (entry : Binding) {other : String}
    (hne : other ≠ name) :
    Scope.binds { s with bindings := s.bindings.insert name entry } other = s.binds other := by
  simp [Scope.binds, Scope.table?, Bindings.contains, Bindings.get?_insert, hne]

namespace Arena

variable {names : List String} {a a' a'' : Arena} {id b owner x : ScopeId} {signal : Signal}
  {c k : Control} {s : Scope}

/-! ## A new scope -/

/-- The scope `s` has been made at `b` inside `id`. -/
structure Opens (s : Scope) (id b : ScopeId) (a a' : Arena) : Prop where
  sub : s.kind.category = .sub
  outer : s.outer = some id
  serial : s.serial = a.nextSerial
  fresh : a.get? b = none
  scope : a'.get? b = some s
  others : ∀ {x}, x ≠ b → a'.get? x = a.get? x
  nextSerial : a'.nextSerial = a.nextSerial + 1
  global : a'.global = a.global
  suspended : a'.suspended = a.suspended
  orderly : a'.Orderly

theorem get?_eq_none_of_size_le {i : Nat} (h : a.scopes.size ≤ i) : a.get? ⟨i⟩ = none := by
  simp [get?, Array.getElem?_eq_none h]

theorem Orderly.get?_create (h : a.Orderly) (state : ScopeState) (outer : Option ScopeId) :
    a.get? (a.create state outer).1 = none ∧
      (a.create state outer).2.get? (a.create state outer).1
        = some { state, outer, serial := a.nextSerial } := by
  unfold create
  cases hv : a.vacant with
  | nil => exact ⟨get?_eq_none_of_size_le (Nat.le_refl _), by simp [get?]⟩
  | cons i vacant =>
    obtain ⟨hlt, hnone⟩ := h.vacant_free i (by simp [hv])
    exact ⟨hnone, by simp [get?, hlt]⟩

theorem Orderly.create (h : a.Orderly) (state : ScopeState) (outer : Option ScopeId) :
    (a.create state outer).2.Orderly := by
  obtain ⟨hfresh, hscope⟩ := h.get?_create state outer
  have hnext : (a.create state outer).2.nextSerial = a.nextSerial + 1 := by
    unfold Arena.create
    cases a.vacant <;> rfl
  have hserial : ∀ {x s}, (a.create state outer).2.get? x = some s →
      s.serial < a.nextSerial + 1 := by
    intro x s hs
    by_cases hx : x = (a.create state outer).1
    · subst hx
      obtain rfl := Option.some.inj (hscope.symm.trans hs)
      exact Nat.lt_succ_self _
    · rw [get?_create_of_ne hx] at hs
      exact Nat.lt_succ_of_lt (h.serial_lt hs)
  -- the indices that are still vacant were vacant before, and are not the one used now
  have hvacant : (a.create state outer).2.vacant.Nodup ∧ ∀ i ∈ (a.create state outer).2.vacant,
      i ∈ a.vacant ∧ (⟨i⟩ : ScopeId) ≠ (a.create state outer).1 := by
    have hnodup := h.vacant_nodup
    unfold Arena.create
    cases hv : a.vacant with
    | nil => simp
    | cons i vacant =>
      rw [hv, List.nodup_cons] at hnodup
      refine ⟨hnodup.2, fun j hj => ⟨List.mem_cons_of_mem i hj, ?_⟩⟩
      rintro heq
      cases heq
      exact hnodup.1 hj
  have hsize : a.scopes.size ≤ (a.create state outer).2.scopes.size := by
    unfold Arena.create
    cases a.vacant <;> simp
  refine ⟨hvacant.1, fun i hi => ?_, fun hs => hnext ▸ hserial hs⟩
  obtain ⟨hmem, hne⟩ := hvacant.2 i hi
  obtain ⟨hlt, hnone⟩ := h.vacant_free i hmem
  exact ⟨Nat.lt_of_lt_of_le hlt hsize, (get?_create_of_ne hne).trans hnone⟩

/-- What making a scope of the sub category does. -/
theorem Orderly.opens_create (h : a.Orderly) {state : ScopeState} (id : ScopeId)
    (hs : state.kind.category = .sub) :
    Opens { state, outer := some id, serial := a.nextSerial } id (a.create state (some id)).1 a
      (a.create state (some id)).2 where
  sub := hs
  outer := rfl
  serial := rfl
  fresh := (h.get?_create state (some id)).1
  scope := (h.get?_create state (some id)).2
  others hx := get?_create_of_ne hx
  nextSerial := by
    unfold Arena.create
    cases a.vacant <;> rfl
  global := by
    unfold Arena.create
    cases a.vacant <;> rfl
  suspended := by
    unfold Arena.create
    cases a.vacant <;> rfl
  orderly := h.create state (some id)

namespace Opens

theorem isMain (h : Opens s id b a a') : s.isMain = false := by
  simp [Scope.isMain, h.sub]

theorem above (h : Opens s id b a a') : a'.Above b id := .outer .self h.scope h.outer

theorem not_sameAt (h : Opens s id b a a') (t t' : Scope) : ¬ SameAt a a'' b t t' := by
  intro hs
  have hfresh := h.fresh.symm.trans hs.1
  cases hfresh

theorem sameAt (h : Opens s id b a a') {t : Scope} (ht : a.get? x = some t) :
    SameAt a a' x t t := by
  have hx : x ≠ b := by
    rintro rfl
    cases h.fresh.symm.trans ht
  exact ⟨ht, (h.others hx).trans ht, rfl⟩

/-- A new scope changes nothing for the scope around it. -/
theorem keeps (names : List String) (h : Opens s id b a a') (hg : a.Grounded x) :
    Keeps names x a a' := by
  -- a scope that is on both sides is the same scope
  have heq : ∀ {y t t'}, SameAt a a' y t t' → t' = t := by
    intro y t t' ht
    exact Option.some.inj (ht.2.1.symm.trans (h.sameAt ht.1).2.1)
  refine ⟨⟨?_, ?_, ?_, ?_, h.global, h.orderly⟩, ?_, h.suspended⟩
  · intro y hy
    obtain ⟨t, ht⟩ := hg y hy
    exact ⟨t, t, h.sameAt ht⟩
  · intro y t t' ht
    exact heq ht ▸ .refl names t
  · intro y t' ht'
    by_cases hy : y = b
    · subst hy
      obtain rfl := Option.some.inj (h.scope.symm.trans ht')
      exact .inr (Nat.le_of_eq h.serial.symm)
    · exact .inl ⟨t', h.sameAt ((h.others hy).symm.trans ht')⟩
  · rw [h.nextSerial]
    exact Nat.le_succ _
  · intro y t t' ht
    rw [heq ht]

theorem above_iff (h : Opens s id b a a') (hg : a.Grounded id) :
    a'.Above b x ↔ x = b ∨ a.Above id x := by
  have hkeeps := h.keeps [] hg
  constructor
  · intro hx
    induction hx with
    | self => exact .inl rfl
    | @outer y z t _ ht ho ih =>
      rcases ih with rfl | ih
      · obtain rfl := Option.some.inj (h.scope.symm.trans ht)
        obtain rfl := Option.some.inj (h.outer.symm.trans ho)
        exact .inr .self
      · rw [← hkeeps.above_iff] at ih ⊢
        exact .inr (.outer ih ht ho)
    | @calling y z t _ ht hc ih =>
      rcases ih with rfl | ih
      · obtain rfl := Option.some.inj (h.scope.symm.trans ht)
        have hnone := ScopeState.calling?_of_sub h.sub
        cases hnone.symm.trans hc
      · rw [← hkeeps.above_iff] at ih ⊢
        exact .inr (.calling ih ht hc)
  · rintro (rfl | hx)
    · exact .self
    · exact h.above.trans (hkeeps.above_iff.mpr hx)

theorem grounded (h : Opens s id b a a') (hg : a.Grounded id) : a'.Grounded b := by
  intro x hx
  rcases (h.above_iff hg).mp hx with rfl | hx
  · exact ⟨s, h.scope⟩
  · obtain ⟨t, ht⟩ := hg x hx
    exact ⟨t, (h.sameAt ht).2.1⟩

/-- A signal raised in a new scope is taken there, or goes where it would go from outside. -/
theorem owns_iff (h : Opens s id b a a') (hg : a.Grounded id) : a'.Owns signal owner b ↔
    (s.route signal = .owns ∧ owner = b) ∨
      (s.route signal = .passes (some id) ∧ a.Owns signal owner id) := by
  have hparallel := (h.keeps [] hg).parallel
  constructor
  · intro ho
    cases ho with
    | here hs hr =>
      obtain rfl := Option.some.inj (h.scope.symm.trans hs)
      exact .inl ⟨hr, rfl⟩
    | @pass _ next t hs hr ho =>
      obtain rfl := Option.some.inj (h.scope.symm.trans hs)
      have hnext : next = id := by
        rcases Scope.route_eq_passes hr with ho | hc
        · exact Option.some.inj (ho.symm.trans h.outer)
        · cases (ScopeState.calling?_of_sub h.sub).symm.trans hc
      subst hnext
      exact .inr ⟨hr, hparallel.owns_iff.mp ho⟩
  · rintro (⟨hr, rfl⟩ | ⟨hr, ho⟩)
    · exact .here h.scope hr
    · exact .pass h.scope hr (hparallel.owns_iff.mpr ho)

/-- What can be seen from a new scope is the scope itself and what can be seen from outside. -/
theorem sees (h : Opens s id b a a') (hg : a.Grounded id) (hsees : a'.Sees b owner) :
    owner = b ∨ a.Sees id owner := by
  rcases hsees with ho | ho | ho
  · rcases (h.owns_iff hg).mp ho with ⟨-, rfl⟩ | ⟨-, ho⟩
    · exact .inl rfl
    · exact .inr (.inl ho)
  · rcases (h.owns_iff hg).mp ho with ⟨-, rfl⟩ | ⟨-, ho⟩
    · exact .inl rfl
    · exact .inr (.inr (.inl ho))
  · cases ho with
    | here _ _ => exact .inl rfl
    | outward hs _ ho hencl =>
      obtain rfl := Option.some.inj (h.scope.symm.trans hs)
      obtain rfl := Option.some.inj (h.outer.symm.trans ho)
      exact .inr (.inr (.inr ((h.keeps [] hg).parallel.encloses_iff.mp hencl)))

theorem clear (h : Opens s id b a a') (hg : a.Grounded id) (hc : a.Clear id)
    (hs : ∀ c, s.control? = some c → c = c.cleared) : a'.Clear b := by
  intro owner hsees c hcontrol
  rcases h.sees hg hsees with rfl | hsees
  · rw [control?, h.scope] at hcontrol
    exact hs c hcontrol
  · refine hc owner hsees c ?_
    rwa [(h.keeps [] hg).control?_eq hsees.above] at hcontrol

/-- Bindings made in a new scope. -/
theorem modify_bindings (h : Opens s id b a a') (f : Bindings → Bindings) :
    Opens { s with bindings := f s.bindings } id b a
      (a'.modify b fun s => { s with bindings := f s.bindings }) where
  sub := h.sub
  outer := h.outer
  serial := h.serial
  fresh := h.fresh
  scope := by
    rw [get?_modify, if_pos rfl, h.scope]
    rfl
  others hx := by
    rw [get?_modify, if_neg hx]
    exact h.others hx
  nextSerial := h.nextSerial
  global := h.global
  suspended := h.suspended
  orderly := h.orderly.modify b fun _ => rfl

theorem undeclared (h : Opens s id b a a') (hg : a.Grounded id) {name : String}
    (hb : s.binds name = false) (hu : a.Undeclared name id) : a'.Undeclared name b :=
  .outward h.scope hb h.isMain h.outer
    ((h.keeps [name] hg).parallel.undeclared (List.mem_singleton.mpr rfl) hu)

end Opens

/-! ## What a run leaves behind -/

/-- Between `a` and `a'` nothing has happened to the scopes above `id` but that the signal of
`mark` has been recorded at its owner, if there is one. -/
def Records (names : List String) (id : ScopeId) (mark : Option (Signal × Control)) (a a' : Arena) :
    Prop :=
  match mark with
  | none => Keeps names id a a'
  | some (signal, k) => ∃ owner, a.Owns signal owner id ∧ Keeps names id (a.setControl owner k) a'

/-- The signal of a mark fits the control state, which is pending and holds no reference. -/
def Signalled (mark : Option (Signal × Control)) : Prop :=
  ∀ {signal k}, mark = some (signal, k) →
    k.takes signal = true ∧ k.isPending = true ∧ k.plain = true

theorem Records.carries {mark : Option (Signal × Control)} (h : Records names id mark a a')
    (ha : a.Orderly) (hg : a.Grounded id) : Carries names id a a' := by
  cases mark with
  | none => exact h.toCarries
  | some mark =>
    obtain ⟨owner, -, hkeeps⟩ := h
    exact (carries_setControl names ha hg owner mark.2).trans ha hkeeps.toCarries

/-- The owner of a signal that has been recorded is the only scope in sight at which something is
pending. -/
theorem Records.pending (h : Records names id (some (signal, k)) a a') (ha : a.Orderly)
    (hg : a.Grounded id) (hclear : a.Clear id) (hk : k.takes signal = true) :
    ∃ owner, a.Owns signal owner id ∧ Keeps names id (a.setControl owner k) a' ∧
      a'.control? owner = some k ∧ ∀ other, a.Sees id other → other ≠ owner →
        ∀ c, a'.control? other = some c → c = c.cleared := by
  obtain ⟨owner, ho, hkeeps⟩ := h
  obtain ⟨c, hc, ht⟩ := ho.exists_control
  have hcarries := carries_setControl names ha hg owner k
  refine ⟨owner, ho, hkeeps, ?_, fun other hsees hne c hc => ?_⟩
  · rw [hkeeps.control?_eq (hcarries.above_iff.mpr ho.above),
      control?_setControl hc (Control.cleared_eq_of_takes ht hk)]
  · rw [hkeeps.control?_eq (hcarries.above_iff.mpr hsees.above),
      control?_setControl_of_ne hne] at hc
    exact hclear other hsees c hc

/-- An exception is seen exactly if one has been recorded. -/
theorem Records.hasException_iff {mark : Option (Signal × Control)} (h : Records names id mark a a')
    (ha : a.Orderly) (hg : a.Grounded id) (hclear : a.Clear id) (hmark : Signalled mark) :
    a'.hasException id = true ↔ ∃ k, mark = some (.throwing, k) := by
  cases mark with
  | none =>
    have hnone := (h.clear hclear).hasException
    simp [hnone]
  | some mark =>
    obtain ⟨signal, k⟩ := mark
    obtain ⟨hk, hpending, -⟩ := hmark rfl
    have hparallel := (h.carries ha hg).parallel
    obtain ⟨owner, ho, -, hcontrol, hothers⟩ := h.pending ha hg hclear hk
    by_cases hs : signal = .throwing
    · subst hs
      cases k <;> simp [Control.takes] at hk
      obtain ⟨pending, rfl⟩ := Option.isSome_iff_exists.mp hpending
      have hcaught := (hparallel.owns_iff.mpr ho).caught_eq hcontrol
      simp [Arena.hasException, Arena.exception, hcaught]
    · -- the scope that takes exceptions is another one, and nothing is pending there
      have hnone : a'.caught id = none := by
        refine caught_eq_none fun other pending hother hc => ?_
        have hne : other ≠ owner := by
          rintro rfl
          obtain rfl := Option.some.inj (hcontrol.symm.trans hc)
          cases signal <;> simp [Control.takes] at hk hs
        have hcleared := hothers other (hparallel.owns_iff.mp hother).sees hne _ hc
        simp [Control.cleared] at hcleared
      simp [Arena.hasException, Arena.exception, hnone, hs]

/-- Statements stop exactly if a signal has been recorded. -/
theorem Records.halts {mark : Option (Signal × Control)} (h : Records names id mark a a')
    (ha : a.Orderly) (hg : a.Grounded id) (hclear : a.Clear id) (hmark : Signalled mark) :
    (a'.hasException id || a'.interrupted id) = mark.isSome := by
  have hexception := h.hasException_iff ha hg hclear hmark
  cases mark with
  | none =>
    have hclear' := h.clear hclear
    simp [hclear'.hasException, hclear'.interrupted]
  | some mark =>
    obtain ⟨signal, k⟩ := mark
    obtain ⟨hk, hpending, -⟩ := hmark rfl
    by_cases hs : signal = .throwing
    · rw [hexception.mpr ⟨k, by rw [hs]⟩]
      rfl
    · obtain ⟨owner, ho, -, hcontrol, -⟩ := h.pending ha hg hclear hk
      have howns := (h.carries ha hg).parallel.owns_iff.mpr ho
      rw [interrupted_iff.mpr (howns.stopped hs hcontrol hpending), Bool.or_true]
      rfl

namespace Opens

/-- What is kept for the scope inside is kept for the scope around it. -/
theorem close (h : Opens s id b a a') (ha : a.Orderly) (hg : a.Grounded id)
    (hkeeps : Keeps names b a' a'') : Keeps names id a a'' :=
  (h.keeps names hg).trans ha (hkeeps.weaken h.above)

/-- A signal that is not taken inside is recorded where it would be from outside. -/
theorem leave (h : Opens s id b a a') (ha : a.Orderly) (hg : a.Grounded id)
    {mark : Option (Signal × Control)}
    (hmark : ∀ {signal k}, mark = some (signal, k) →
      s.route signal ≠ .owns ∧ k.takes signal = true)
    (hrec : Records names b mark a' a'') : Records names id mark a a'' := by
  cases mark with
  | none => exact h.close ha hg hrec
  | some mark =>
    obtain ⟨signal, k⟩ := mark
    obtain ⟨hr, hk⟩ := hmark rfl
    obtain ⟨owner, ho, hkeeps⟩ := hrec
    obtain ⟨hroute, -⟩ | ⟨-, ho⟩ := (h.owns_iff hg).mp ho
    · exact absurd hroute hr
    · obtain ⟨c, hc, ht⟩ := ho.exists_control
      have houtside : Keeps names id (a.setControl owner k) (a'.setControl owner k) :=
        (h.keeps names hg).setControl ha ho.above hc (Control.cleared_eq_of_takes ht hk)
      have habove : (a'.setControl owner k).Above b id :=
        (carries_setControl [] h.orderly (h.grounded hg) owner k).above_iff.mpr h.above
      exact ⟨owner, ho, houtside.trans (ha.setControl owner k) (hkeeps.weaken habove)⟩

/-- A signal that is not taken inside leaves the control state inside alone. -/
theorem control?_eq (h : Opens s id b a a') {mark : Option (Signal × Control)}
    (hmark : ∀ {signal k}, mark = some (signal, k) → s.route signal ≠ .owns)
    (hrec : Records names b mark a' a'') : a''.control? b = s.control? := by
  have hcontrol : a'.control? b = s.control? := by
    rw [control?, h.scope]
    rfl
  cases mark with
  | none => exact (Keeps.control?_eq hrec .self).trans hcontrol
  | some mark =>
    obtain ⟨owner, ho, hkeeps⟩ := hrec
    have hne : b ≠ owner := by
      rintro rfl
      obtain ⟨t, ht, hr⟩ := ho.exists_route
      obtain rfl := Option.some.inj (h.scope.symm.trans ht)
      exact hmark rfl hr
    rw [hkeeps.control?_eq .self, control?_setControl_of_ne hne, hcontrol]

/-- A signal that is taken inside leaves no trace outside, and none inside either once the control
state is cleared. -/
theorem absorb (h : Opens s id b a a') (ha : a.Orderly) (hg : a.Grounded id)
    (hr : s.route signal = .owns) (hk : k.takes signal = true)
    (hrec : Records names b (some (signal, k)) a' a'') :
    a''.control? b = some k ∧ Keeps names id a a'' ∧
      ∀ c, s.control? = some c → Keeps names b a' (a''.setControl b c) := by
  obtain ⟨owner, ho, hkeeps⟩ := hrec
  obtain rfl : owner = b := by
    rcases (h.owns_iff hg).mp ho with ⟨-, rfl⟩ | ⟨hroute, -⟩
    · rfl
    · cases hr.symm.trans hroute
  obtain ⟨c, hc, ht⟩ := ho.exists_control
  have hkc : k.cleared = c.cleared := Control.cleared_eq_of_takes ht hk
  have hchanged : (a'.setControl owner k).control? owner = some k := control?_setControl hc hkc
  have hcarries := carries_setControl names h.orderly (h.grounded hg) owner k
  refine ⟨(hkeeps.control?_eq .self).trans hchanged, ?_, fun c' hc' => ?_⟩
  · have hnew := (h.keeps names hg).setControl_new ha (fun t t' => h.not_sameAt t t') k
    exact hnew.trans ha (hkeeps.weaken (hcarries.above_iff.mpr h.above))
  · obtain rfl : c' = c := by
      rw [control?, h.scope] at hc
      exact Option.some.inj (hc'.symm.trans hc)
    have hback := hkeeps.setControl hcarries.orderly .self hchanged hkc.symm
    rwa [setControl_setControl hc hkc] at hback

end Opens

end Arena

end ScriptCore
