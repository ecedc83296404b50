import ScriptCore.Proofs.Scope.Sight
import Mathlib.Logic.Relation

/-!
# Raising signals

Raising a signal changes the control state of its owner and nothing else (`Arena.Owns.raise_eq`).
The owner is in sight of the scope the signal was raised in (`Arena.Owns.sees`), and what has been
raised is seen there: `Arena.Owns.stopped` and `Arena.Owns.caught_eq`.

Statements are stopped by what is pending at the scopes they are nested in (`Arena.stopped_iff`).
All of these are in sight (`Arena.Within.sees`).

`Arena.Keeps.setControl` and `Arena.Keeps.setControl_new` say what is kept when control state
changes on both sides, and when it changes at a scope that is new.
-/

namespace ScriptCore

open Relation (ReflTransGen)

/-! ## Control state by kind -/

/-- Whether control state is of the kind that takes a signal. -/
def Control.takes : Control → Signal → Bool
  | .returning _, .returning => true
  | .looping _, .breaking _ | .looping _, .continuing _ => true
  | .selecting _, .fallthrough | .selecting _, .yielding => true
  | .catching _, .throwing => true
  | _, _ => false

/-- Control state that takes the same signal is of the same kind. -/
theorem Control.cleared_eq_of_takes {c c' : Control} {signal : Signal} (h : c.takes signal = true)
    (h' : c'.takes signal = true) : c'.cleared = c.cleared := by
  cases signal <;> cases c <;> cases c' <;> simp_all [Control.takes, Control.cleared]

/-- Everything that is pending stops statements but an exception. -/
theorem Control.stops_eq_true_iff {c : Control} {signal : Signal} (ht : c.takes signal = true) :
    c.stops = true ↔ signal ≠ .throwing ∧ c.isPending = true := by
  cases c <;> cases signal <;> cases ht <;> simp [Control.stops]

/-- Nothing is pending in the state of a new scope. -/
theorem ScopeState.cleared_of_skeleton {s : ScopeState} (h : s.skeleton = s) :
    ∀ c, s.control? = some c → c = c.cleared := by
  rintro c hc
  rw [← h] at hc
  cases s <;> cases hc <;> rfl

namespace Scope

/-- A scope that takes a signal has control state of the kind for it. -/
theorem control?_of_route {s : Scope} {signal : Signal} (h : s.route signal = .owns) :
    ∃ c, s.control? = some c ∧ c.takes signal = true := by
  cases signal <;> cases hstate : s.state <;>
    simp_all [Scope.route, Scope.control?, ScopeState.control?, Control.takes]

/-- Signals other than exceptions are handed outward, by scopes of the sub category. -/
theorem route_eq_passes_outer {s : Scope} {signal : Signal} {next : ScopeId}
    (hs : signal ≠ .throwing) (h : s.route signal = .passes (some next)) :
    s.outer = some next ∧ s.isMain = false := by
  cases signal <;> cases hstate : s.state <;>
    simp_all [Scope.route, Scope.isMain, Scope.kind, ScopeState.kind, ScopeKind.category]
  all_goals grind

/-- Control state that is put in place of control state of the same kind is there afterwards. -/
theorem control?_setControl {s : Scope} {c k : Control} (hc : s.control? = some c)
    (hk : k.cleared = c.cleared) : (s.setControl k).control? = some k := by
  unfold Scope.control? at hc ⊢
  cases hstate : s.state <;> rw [hstate] at hc <;> cases hc <;> cases k <;>
    simp_all [Control.cleared, Scope.setControl, ScopeState.setControl, ScopeState.control?]

/-- Putting the old control state back undoes a change. -/
theorem setControl_setControl {s : Scope} {c k : Control} (hc : s.control? = some c)
    (hk : k.cleared = c.cleared) : (s.setControl k).setControl c = s := by
  obtain ⟨state, outer, bindings, namespaces, serial⟩ := s
  unfold Scope.control? at hc
  cases state <;> cases hc <;> cases k <;>
    simp_all [Control.cleared, Scope.setControl, ScopeState.setControl]

theorem table?_setControl (s : Scope) (c : Control) (partition : Partition) :
    (s.setControl c).table? partition = s.table? partition := by
  obtain ⟨state, outer, bindings, namespaces, serial⟩ := s
  cases partition <;> cases state <;> cases c <;> rfl

theorem alike_setControl (names : List String) (s : Scope) (c : Control) :
    s.Alike names (s.setControl c) :=
  ⟨rfl, ScopeState.skeleton_setControl _ _, fun name _ => by
    simp only [Scope.binds, table?_setControl]⟩

end Scope

namespace Arena

variable {names : List String} {a a' : Arena} {id owner x : ScopeId} {signal : Signal}
  {c k : Control}

theorem get?_setControl (a : Arena) (x : ScopeId) (c : Control) (y : ScopeId) :
    (a.setControl x c).get? y = if y = x then (a.get? x).map (Scope.setControl c) else a.get? y :=
  a.get?_modify x _ y

theorem control?_eq_some :
    a.control? x = some c ↔ ∃ s, a.get? x = some s ∧ s.control? = some c := by
  rw [control?, Option.bind_eq_some_iff]

theorem control?_setControl (hc : a.control? x = some c) (hk : k.cleared = c.cleared) :
    (a.setControl x k).control? x = some k := by
  obtain ⟨s, hs, hc⟩ := control?_eq_some.mp hc
  refine control?_eq_some.mpr ⟨s.setControl k, ?_, Scope.control?_setControl hc hk⟩
  rw [get?_setControl, if_pos rfl, hs]
  rfl

theorem control?_setControl_of_ne {y : ScopeId} (h : y ≠ x) :
    (a.setControl x k).control? y = a.control? y := by
  rw [control?, get?_setControl, if_neg h, control?]

theorem modify_modify (a : Arena) (x : ScopeId) (f g : Scope → Scope) :
    (a.modify x f).modify x g = a.modify x (fun s => g (f s)) := by
  simp only [modify, mk.injEq, and_true]
  apply Array.ext_getElem?
  intro i
  simp only [Array.getElem?_modify]
  split
  · cases a.scopes[i]? with
    | none => rfl
    | some o => cases o <;> rfl
  · rfl

theorem modify_eq_self {f : Scope → Scope} (h : ∀ s, a.get? x = some s → f s = s) :
    a.modify x f = a := by
  obtain ⟨scopes, vacant, nextSerial, global, suspended⟩ := a
  simp only [modify, mk.injEq, and_true]
  apply Array.ext_getElem?
  intro i
  rw [Array.getElem?_modify]
  split
  · rename_i hi
    subst hi
    cases ho : scopes[x.index]? with
    | none => rfl
    | some o =>
      cases o with
      | none => rfl
      | some s => simp [h s (by simp [get?, ho])]
  · rfl

theorem setControl_self (hc : a.control? x = some c) : a.setControl x c = a := by
  refine modify_eq_self fun s hs => ?_
  rw [control?, hs] at hc
  unfold Scope.setControl
  rw [ScopeState.setControl_control? s.state hc]

/-- Putting the old control state back undoes a change. -/
theorem setControl_setControl (hc : a.control? x = some c) (hk : k.cleared = c.cleared) :
    (a.setControl x k).setControl x c = a := by
  rw [setControl, setControl, modify_modify]
  refine modify_eq_self fun s hs => ?_
  rw [control?, hs] at hc
  exact Scope.setControl_setControl hc hk

/-! ## Changing the control state of one scope -/

theorem Orderly.modify (h : a.Orderly) (x : ScopeId) {f : Scope → Scope}
    (hf : ∀ s, (f s).serial = s.serial) : (a.modify x f).Orderly := by
  refine ⟨h.vacant_nodup, ?_, ?_⟩
  · intro i hi
    obtain ⟨hlt, hnone⟩ := h.vacant_free i hi
    refine ⟨by simpa [Arena.modify] using hlt, ?_⟩
    rw [get?_modify]
    split
    · rename_i heq
      rw [← heq, hnone]
      rfl
    · exact hnone
  · intro y s hs
    rw [get?_modify] at hs
    split at hs
    · obtain ⟨t, ht, rfl⟩ := Option.map_eq_some_iff.mp hs
      rw [hf]
      have hlt := h.serial_lt ht
      exact hlt
    · exact h.serial_lt hs

theorem Orderly.setControl (h : a.Orderly) (x : ScopeId) (c : Control) :
    (a.setControl x c).Orderly :=
  h.modify x fun _ => rfl

/-- A change of one scope that keeps its serial number, its links and which of `names` it binds. -/
def Modest (names : List String) (f : Scope → Scope) : Prop :=
  ∀ s, (f s).serial = s.serial ∧ s.Alike names (f s)

theorem modest_setControl (names : List String) (c : Control) : Modest names (Scope.setControl c) :=
  fun s => ⟨rfl, s.alike_setControl names c⟩

/-- A scope of a changed arena, before the change. -/
theorem Modest.exists_before {f : Scope → Scope} (hf : Modest names f) {y : ScopeId} {s' : Scope}
    (hs' : (a.modify x f).get? y = some s') :
    ∃ s, SameAt a (a.modify x f) y s s' ∧ s.Alike names s' ∧ s' = if y = x then f s else s := by
  have hget := hs'
  rw [get?_modify] at hget
  split at hget
  · subst y
    obtain ⟨s, hs, rfl⟩ := Option.map_eq_some_iff.mp hget
    exact ⟨s, ⟨hs, hs', (hf s).1⟩, (hf s).2, (if_pos rfl).symm⟩
  · exact ⟨s', ⟨hget, hs', rfl⟩, .refl names s', (if_neg ‹_›).symm⟩

theorem exists_get?_modify {f : Scope → Scope} {y : ScopeId} {s : Scope} (hs : a.get? y = some s) :
    ∃ s', (a.modify x f).get? y = some s' := by
  rw [get?_modify]
  split
  · subst y
    exact ⟨f s, by rw [hs]; rfl⟩
  · exact ⟨s, hs⟩

/-- A scope can be changed without loss of a scope or a link. -/
theorem carries_modify (h : a.Orderly) (hg : a.Grounded id) (x : ScopeId) {f : Scope → Scope}
    (hf : Modest names f) : Carries names id a (a.modify x f) := by
  refine ⟨?_, ?_, ?_, Nat.le_refl _, rfl, h.modify x fun s => (hf s).1⟩
  · intro y hy
    obtain ⟨s, hs⟩ := hg y hy
    obtain ⟨s', hs'⟩ := exists_get?_modify hs
    obtain ⟨t, ht, -⟩ := hf.exists_before hs'
    exact ⟨t, s', ht⟩
  · intro y s s' hs
    obtain ⟨t, ht, hlike, -⟩ := hf.exists_before hs.2.1
    obtain rfl := Option.some.inj (hs.1.symm.trans ht.1)
    exact hlike
  · intro y s' hs'
    obtain ⟨s, hs, -⟩ := hf.exists_before hs'
    exact .inl ⟨s, hs⟩

theorem carries_setControl (names : List String) (h : a.Orderly) (hg : a.Grounded id) (x : ScopeId)
    (c : Control) : Carries names id a (a.setControl x c) :=
  carries_modify h hg x (modest_setControl names c)

theorem keeps_modify (h : a.Orderly) (hg : a.Grounded id) (x : ScopeId) {f : Scope → Scope}
    (hf : Modest names f) (hc : ∀ s, (f s).control? = s.control?) :
    Keeps names id a (a.modify x f) := by
  refine ⟨carries_modify h hg x hf, ?_, rfl⟩
  intro y s s' hs
  obtain ⟨t, ht, -, heq⟩ := hf.exists_before hs.2.1
  obtain rfl := Option.some.inj (hs.1.symm.trans ht.1)
  rw [heq]
  split
  · exact hc s
  · rfl

/-- A change of control state can be undone. -/
theorem carries_undo (names : List String) (h : a.Orderly) (hg : a.Grounded id)
    (hc : a.control? x = some c) (hk : k.cleared = c.cleared) :
    Carries names id (a.setControl x k) a := by
  have hthere := carries_setControl names h hg x k
  have hback := carries_setControl names hthere.orderly hthere.grounded x c
  rwa [setControl_setControl hc hk] at hback

/-- The same change of control state before and after. -/
theorem Keeps.setControl (h : Keeps names id a a') (ha : a.Orderly) (hx : a.Above id x)
    (hc : a.control? x = some c) (hk : k.cleared = c.cleared) :
    Keeps names id (a.setControl x k) (a'.setControl x k) := by
  have hg : a.Grounded id := fun y hy => (h.stays hy).imp fun _ ⟨_, hs⟩ => hs.1
  have hc' : a'.control? x = some c := (h.control?_eq hx).trans hc
  refine ⟨?_, ?_, h.suspended⟩
  · have hundo := carries_undo names ha hg hc hk
    have hredo := carries_setControl names h.orderly h.grounded x k
    exact (hundo.trans (ha.setControl x k) h.toCarries).trans (ha.setControl x k) hredo
  · intro y s s' hs
    suffices hcontrol : (a'.setControl x k).control? y = (a.setControl x k).control? y by
      simpa [control?, hs.1, hs.2.1] using hcontrol
    by_cases hy : y = x
    · subst hy
      rw [control?_setControl hc' hk, control?_setControl hc hk]
    · have hsame : SameAt a a' y s s' := by
        refine ⟨?_, ?_, hs.2.2⟩
        · simpa [get?_setControl, hy] using hs.1
        · simpa [get?_setControl, hy] using hs.2.1
      rw [control?_setControl_of_ne hy, control?_setControl_of_ne hy, control?, control?, hsame.1,
        hsame.2.1]
      exact h.control hsame

/-- A change of control state at a scope that was not there before. -/
theorem Keeps.setControl_new (h : Keeps names id a a') (ha : a.Orderly)
    (hx : ∀ s s', ¬ SameAt a a' x s s') (k : Control) : Keeps names id a (a'.setControl x k) := by
  refine ⟨h.toCarries.trans ha (carries_setControl names h.orderly h.grounded x k), ?_, h.suspended⟩
  intro y s s' hs
  obtain ⟨t, ht, -, heq⟩ := (modest_setControl names k).exists_before hs.2.1
  have hsame : SameAt a a' y s t := ⟨hs.1, ht.1, ht.2.2.symm.trans hs.2.2⟩
  have hy : y ≠ x := by
    rintro rfl
    exact hx s t hsame
  rw [if_neg hy] at heq
  rw [heq]
  exact h.control hsame

/-! ## What stops statements -/

/-- The scope at `x` is `owner`, or nested in it within a main scope. -/
def Within (a : Arena) (owner x : ScopeId) : Prop :=
  ReflTransGen (fun x next => ∃ s, a.get? x = some s ∧ s.isMain = false ∧ s.outer = some next)
    x owner

/-- **Statements are stopped by what is pending at the scopes they are nested in.** -/
theorem stopped_iff : a.Stopped x ↔
    ∃ owner c, a.Within owner x ∧ a.control? owner = some c ∧ c.stops = true := by
  constructor
  · intro h
    induction h with
    | @here x s hs hv =>
      rw [visitInterrupted_eq] at hv
      split at hv
      · obtain ⟨c, hc, hstops⟩ := (Option.any_eq_true _ _).mp ‹_›
        exact ⟨x, c, .refl, control?_eq_some.mpr ⟨s, hs, hc⟩, hstops⟩
      · split at hv
        · cases hv
        · unfold Visit.outward at hv
          split at hv <;> cases hv
    | outward hs hv _ ih =>
      obtain ⟨houter, hmain⟩ := visitInterrupted_eq_next hv
      obtain ⟨owner, c, hwithin, hc⟩ := ih
      exact ⟨owner, c, .head ⟨_, hs, hmain, houter⟩ hwithin, hc⟩
  · rintro ⟨owner, c, hwithin, hc, hstops⟩
    induction hwithin using ReflTransGen.head_induction_on with
    | refl =>
      obtain ⟨s, hs, hc⟩ := control?_eq_some.mp hc
      refine .here hs ?_
      rw [visitInterrupted_eq, hc, Option.any_some, if_pos hstops]
    | head hstep _ ih =>
      obtain ⟨s, hs, hmain, houter⟩ := hstep
      by_cases hhere : s.control?.any Control.stops = true
      · exact .here hs (by rw [visitInterrupted_eq, if_pos hhere])
      · refine .outward hs ?_ ih
        rw [visitInterrupted_eq, if_neg hhere, hmain, if_neg Bool.false_ne_true]
        exact Visit.outward_eq_next.mpr houter

/-- What stops the statements of a scope is in sight. -/
theorem Within.sees (h : a.Within owner x) (hc : a.control? owner = some c)
    (hstops : c.stops = true) : a.Sees x owner := by
  suffices a.Owns .returning owner x ∨ a.Encloses owner x by
    exact this.imp_right .inr
  induction h using ReflTransGen.head_induction_on with
  | refl =>
    obtain ⟨s, hs, hc⟩ := control?_eq_some.mp hc
    unfold Scope.control? at hc
    cases hstate : s.state with
    | function _ _ | method _ _ _ => exact .inl (.here hs (by simp [Scope.route, hstate]))
    | loop _ _ | select _ => exact .inr (.here hs (by simp [ownsJumps, hstate]))
    | global _ | attempt _ | thread _ =>
      rw [hstate] at hc
      cases hc
      cases hstops
    | module _ | instance_ _ | block =>
      rw [hstate] at hc
      cases hc
  | head hstep _ ih =>
    obtain ⟨s, hs, hmain, houter⟩ := hstep
    refine ih.imp (fun howns => .pass hs ?_ howns) fun hencloses => ?_
    · rw [s.route_returning hmain, houter]
    · exact .outward hs hmain houter hencloses

theorem caught_eq_none (h : ∀ owner pending, a.Owns .throwing owner id →
    a.control? owner ≠ some (.catching (some pending))) : a.caught id = none := by
  unfold caught
  split
  · rfl
  · rename_i owner howner
    split
    · exact absurd ‹_› (h owner _ (owner_eq_ok_iff.mp howner))
    · rfl

/-- Nothing is to be seen if nothing is pending in sight. -/
theorem unseen_of_sees (h : ∀ owner c, a.Sees id owner → a.control? owner = some c →
    c.isPending = false) : a.interrupted id = false ∧ a.hasException id = false := by
  constructor
  · rw [← Bool.not_eq_true, interrupted_iff, stopped_iff]
    rintro ⟨owner, c, hwithin, hc, hstops⟩
    have hpending := h owner c (hwithin.sees hc hstops) hc
    cases c <;> simp_all [Control.stops]
  · unfold hasException exception
    rw [caught_eq_none]
    · rfl
    · intro owner pending howns hc
      cases h owner _ (.inr (.inl howns)) hc

theorem Clear.isPending (h : a.Clear id) (hsees : a.Sees id owner)
    (hc : a.control? owner = some c) : c.isPending = false := by
  rw [h owner hsees c hc]
  exact c.isPending_cleared

theorem Clear.interrupted (h : a.Clear id) : a.interrupted id = false :=
  (unseen_of_sees fun _ _ => h.isPending).1

theorem Clear.hasException (h : a.Clear id) : a.hasException id = false :=
  (unseen_of_sees fun _ _ => h.isPending).2

/-! ## Raising -/

namespace Owns

theorem exists_control (h : a.Owns signal owner id) :
    ∃ c, a.control? owner = some c ∧ c.takes signal = true := by
  obtain ⟨s, hs, hr⟩ := h.exists_route
  obtain ⟨c, hc, ht⟩ := Scope.control?_of_route hr
  exact ⟨c, control?_eq_some.mpr ⟨s, hs, hc⟩, ht⟩

/-- Raising a signal changes the control state of its owner. -/
theorem raise_eq (h : a.Owns signal owner id) (hc : a.control? owner = some c)
    (f : Control → Control) : a.raise id signal f = .ok (a.setControl owner (f c)) := by
  have howner := owner_eq_ok_iff.mpr h
  simp [Arena.raise, howner, hc, bind, Except.bind, pure, Except.pure]

/-- A jump is owned by a loop or case construct around. -/
theorem encloses (h : a.Owns signal owner id) (hr : signal ≠ .returning) (ht : signal ≠ .throwing) :
    a.Encloses owner id := by
  induction h with
  | @here s hs hroute =>
    refine .here hs ?_
    unfold ownsJumps
    cases signal <;> cases hstate : s.state <;> simp_all [Scope.route]
  | pass hs hroute _ ih =>
    obtain ⟨ho, hm⟩ := Scope.route_eq_passes_outer ht hroute
    exact .outward hs hm ho ih

/-- The owner of a signal is in sight. -/
theorem sees (h : a.Owns signal owner id) : a.Sees id owner := by
  by_cases hr : signal = .returning
  · exact .inl (hr ▸ h)
  · by_cases ht : signal = .throwing
    · exact .inr (.inl (ht ▸ h))
    · exact .inr (.inr (h.encloses hr ht))

/-- A signal other than an exception is raised within its owner. -/
theorem within (h : a.Owns signal owner id) (ht : signal ≠ .throwing) : a.Within owner id := by
  induction h with
  | here _ _ => exact .refl
  | pass hs hroute _ ih =>
    obtain ⟨houter, hmain⟩ := Scope.route_eq_passes_outer ht hroute
    exact .head ⟨_, hs, hmain, houter⟩ ih

/-- A signal that is pending at its owner stops the statements, unless it is an exception. -/
theorem stopped (h : a.Owns signal owner id) (ht : signal ≠ .throwing)
    (hc : a.control? owner = some c) (hp : c.isPending = true) : a.Stopped id := by
  obtain ⟨k, hk, htakes⟩ := h.exists_control
  cases hc.symm.trans hk
  exact stopped_iff.mpr
    ⟨owner, c, h.within ht, hc, (Control.stops_eq_true_iff htakes).mpr ⟨ht, hp⟩⟩

/-- An exception that is pending at its owner is seen. -/
theorem caught_eq {pending : Pending} (h : a.Owns .throwing owner id)
    (hc : a.control? owner = some (.catching (some pending))) :
    a.caught id = some (owner, pending) := by
  have howner := owner_eq_ok_iff.mpr h
  simp [caught, howner, hc]

end Owns

end Arena

end ScriptCore
