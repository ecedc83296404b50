import ScriptCore.Proofs.Scope.Descent
import ScriptCore.Proofs.Session.Execution

/-!
# Who owns a signal and who sees it

Ownership is told by two tables: the kinds of scopes that take a signal (`Signal.ownerKinds`) and
those that hand it on (`Signal.delegateKinds`). `Arena.FirstOwner` is the first scope that takes a
signal on the way from the one it is raised in, and `Arena.DeadEnd` the scope at which it is lost.

The walk of `Arena.owner` follows the tables (`Arena.owns_iff_firstOwner`), and the one of
`Arena.interrupted`, which knows nothing of them, sees what is pending at the scopes it is nested in
(`Arena.stopped_iff`). `Arena.Raised` puts the two together: what a request leaves at the owner, and
which scopes see it.
-/

namespace ScriptCore

open Relation (ReflTransGen)

/-! ## The tables -/

namespace Signal

/-- The title of the loop that a jump names. -/
def label? : Signal → Option String
  | breaking label | continuing label => label
  | returning | fallthrough | yielding | throwing => none

/-- The kinds of scopes that take a signal. -/
def ownerKinds : Signal → List ScopeKind
  | returning => [.function, .method]
  | breaking _ | continuing _ => [.loop, .titledLoop]
  | fallthrough | yielding => [.select]
  | throwing => [.attempt, .thread, .global]

/-- The kinds of scopes that hand on a signal that they do not take. -/
def delegateKinds : Signal → List ScopeKind
  | returning | breaking _ | continuing _ =>
    [.block, .attempt, .select, .thread, .loop, .titledLoop]
  | fallthrough | yielding => [.block, .attempt]
  | throwing =>
    [.global, .module, .function, .method, .instance_, .block, .loop, .titledLoop, .select,
      .attempt, .thread]

end Signal

namespace Scope

/-- The title of a loop. -/
def title? (s : Scope) : Option String :=
  match s.state with
  | .loop title _ => title
  | _ => none

/-- The scope is of a kind that takes the signal. A jump with a label is for the loop with this
title only. -/
def Claims (s : Scope) (signal : Signal) : Prop :=
  s.kind ∈ signal.ownerKinds ∧ (signal.label? = none ∨ signal.label? = s.title?)

instance (s : Scope) (signal : Signal) : Decidable (s.Claims signal) :=
  inferInstanceAs (Decidable (_ ∧ _))

/-- The scope is of a kind that hands the signal on, to the scope at `next`: an exception leaves an
activation for the scope that it was called from, and everything else goes to the scope around. -/
def Delegates (s : Scope) (signal : Signal) (next : ScopeId) : Prop :=
  s.kind ∈ signal.delegateKinds ∧
    (if signal = .throwing then s.state.calling?.or s.outer else s.outer) = some next

instance (s : Scope) (signal : Signal) (next : ScopeId) : Decidable (s.Delegates signal next) :=
  inferInstanceAs (Decidable (_ ∧ _))

variable {s : Scope} {signal : Signal} {next : ScopeId}

theorem route_eq_owns_iff : s.route signal = .owns ↔ s.Claims signal := by
  unfold Claims
  cases signal <;> cases hstate : s.state <;>
    simp [route, kind, hstate, ScopeState.kind, Signal.ownerKinds, Signal.label?]
  all_goals rename_i title _; cases title <;> simp [title?, hstate, labelMatches]

theorem route_eq_passes_iff :
    s.route signal = .passes (some next) ↔ ¬ s.Claims signal ∧ s.Delegates signal next := by
  rw [← route_eq_owns_iff]
  unfold Delegates
  cases hstate : s.state with
  | loop title flags =>
    cases title <;> cases signal <;>
      simp [route, kind, hstate, ScopeState.kind, ScopeState.calling?, Signal.delegateKinds] <;>
      split <;> simp_all
  | _ =>
    cases signal <;>
      simp [route, kind, hstate, ScopeState.kind, ScopeState.calling?, Signal.delegateKinds]

end Scope

/-! ## The way of a signal -/

namespace Arena

/-- The scope at `x` hands a signal on to `next`. -/
def Hands (a : Arena) (signal : Signal) (x next : ScopeId) : Prop :=
  ∃ s, a.get? x = some s ∧ ¬ s.Claims signal ∧ s.Delegates signal next

/-- The first scope that takes a signal raised in `x`. -/
def FirstOwner (a : Arena) (signal : Signal) (x owner : ScopeId) : Prop :=
  ReflTransGen (a.Hands signal) x owner ∧ ∃ s, a.get? owner = some s ∧ s.Claims signal

/-- A signal raised in `x` gets to `last`, which neither takes it nor hands it on. -/
def DeadEnd (a : Arena) (signal : Signal) (x last : ScopeId) : Prop :=
  ReflTransGen (a.Hands signal) x last ∧
    ∃ s, a.get? last = some s ∧ ¬ s.Claims signal ∧ ∀ next, ¬ s.Delegates signal next

variable {a a' a'' : Arena} {signal : Signal} {x y owner : ScopeId} {c : Control}

theorem owns_iff_firstOwner : a.Owns signal owner x ↔ a.FirstOwner signal x owner := by
  constructor
  · intro h
    induction h with
    | here hs hr => exact ⟨.refl, _, hs, Scope.route_eq_owns_iff.mp hr⟩
    | pass hs hr _ ih => exact ⟨.head ⟨_, hs, Scope.route_eq_passes_iff.mp hr⟩ ih.1, ih.2⟩
  · rintro ⟨hway, s, hs, hclaims⟩
    induction hway using ReflTransGen.head_induction_on with
    | refl => exact .here hs (Scope.route_eq_owns_iff.mpr hclaims)
    | head hstep _ ih =>
      obtain ⟨t, ht, hhands⟩ := hstep
      exact .pass ht (Scope.route_eq_passes_iff.mpr hhands) ih

/-- A signal that nothing takes gets to a scope that does not know where to hand it. -/
theorem Arrives.deadEnd {fault : Fault} (h : a.Arrives (visitOwner signal) (.error fault) x) :
    ∃ last, a.DeadEnd signal x last ∧ fault = signal.misuse last := by
  induction h with
  | @done x s hs hv =>
    obtain ⟨hroute, rfl⟩ := visitOwner_eq_done_error hv
    have hclaims : ¬ s.Claims signal := by
      intro hclaims
      rw [Scope.route_eq_owns_iff.mpr hclaims] at hroute
      cases hroute
    refine ⟨x, ⟨.refl, s, hs, hclaims, fun next hnext => ?_⟩, rfl⟩
    rw [Scope.route_eq_passes_iff.mpr ⟨hclaims, hnext⟩] at hroute
    cases hroute
  | next hs hv _ ih =>
    obtain ⟨last, ⟨hway, hlast⟩, rfl⟩ := ih
    have hhands := Scope.route_eq_passes_iff.mp (visitOwner_eq_next hv)
    exact ⟨last, ⟨.head ⟨_, hs, hhands⟩ hway, hlast⟩, rfl⟩

/-! ## Arenas with the same links -/

/-- The arenas have scopes at the same places, with the same links. -/
def Alike (a a' : Arena) : Prop := ∀ y, Option.Rel (Scope.Alike []) (a.get? y) (a'.get? y)

theorem Alike.refl (a : Arena) : a.Alike a := by
  intro y
  cases a.get? y with
  | none => exact .none
  | some s => exact .some (.refl [] s)

theorem alike_setControl (a : Arena) (x : ScopeId) (k : Control) :
    a.Alike (a.setControl x k) := by
  intro y
  rw [get?_setControl]
  split
  · subst y
    cases a.get? x with
    | none => exact .none
    | some s => exact .some (s.alike_setControl [] k)
  · exact Alike.refl a y

namespace Alike

variable (h : a.Alike a')
include h

theorem symm : a'.Alike a := by
  intro y
  have hy := h y
  generalize a.get? y = o, a'.get? y = o' at hy ⊢
  cases hy with
  | none => exact .none
  | some hs => exact .some hs.symm

theorem trans (h' : a'.Alike a'') : a.Alike a'' := by
  intro y
  have hy := h y
  have hy' := h' y
  generalize a.get? y = o, a'.get? y = o', a''.get? y = o'' at hy hy' ⊢
  cases hy with
  | none =>
    cases hy'
    exact .none
  | some hs =>
    cases hy' with
    | some hs' => exact .some (hs.trans hs')

theorem exists_get? {s : Scope} (hs : a.get? y = some s) :
    ∃ s', a'.get? y = some s' ∧ s.Alike [] s' := by
  have hy := h y
  rw [hs] at hy
  generalize a'.get? y = o' at hy ⊢
  cases hy with
  | some hs' => exact ⟨_, rfl, hs'⟩

theorem owns (ho : a.Owns signal owner x) : a'.Owns signal owner x := by
  induction ho with
  | here hs hr =>
    obtain ⟨s', hs', halike⟩ := h.exists_get? hs
    exact .here hs' ((halike.route signal).trans hr)
  | pass hs hr _ ih =>
    obtain ⟨s', hs', halike⟩ := h.exists_get? hs
    exact .pass hs' ((halike.route signal).trans hr) ih

theorem owns_iff : a'.Owns signal owner x ↔ a.Owns signal owner x := ⟨h.symm.owns, h.owns⟩

theorem within (ho : a.Within owner x) : a'.Within owner x := by
  refine ReflTransGen.mono ?_ _ _ ho
  rintro y next ⟨s, hs, hmain, houter⟩
  obtain ⟨s', hs', halike⟩ := h.exists_get? hs
  exact ⟨s', hs', halike.isMain.trans hmain, halike.outer.trans houter⟩

theorem within_iff : a'.Within owner x ↔ a.Within owner x := ⟨h.symm.within, h.within⟩

end Alike

end Arena

/-! ## Requests -/

/-- A request to raise a signal. -/
inductive SignalRequest
  | setReturn (v : Value)
  | breakLoop (label : Option String)
  | pauseLoop (label : Option String)
  | fallthrough
  | yieldValue (v : Value)
  | throwException (pending : Pending)

namespace SignalRequest

/-- The signal that is raised. -/
def signal : SignalRequest → Signal
  | setReturn _ => .returning
  | breakLoop label => .breaking label
  | pauseLoop label => .continuing label
  | fallthrough => .fallthrough
  | yieldValue _ => .yielding
  | throwException _ => .throwing

/-- Raise the signal in the scope at `x`. -/
def raise (request : SignalRequest) (a : Arena) (x : ScopeId) : Except Fault Arena :=
  match request with
  | setReturn v => a.setReturn x v
  | breakLoop label => a.breakLoop x label
  | pauseLoop label => a.pauseLoop x label
  | fallthrough => a.fallthrough x
  | yieldValue v => a.yieldValue x v
  | throwException pending => a.throwException x pending

/-- What the request leaves at a scope with this control state. -/
def record : SignalRequest → Control → Control
  | setReturn v, .returning _ => .returning { returned := true, value := v }
  | breakLoop _, .looping flags => .looping { flags with broken := true }
  | pauseLoop _, .looping flags => .looping { flags with paused := true }
  | fallthrough, .selecting state => .selecting { state with fallthrough := true }
  | yieldValue v, .selecting state => .selecting { state with yielded := some v }
  | throwException pending, .catching _ => .catching (some pending)
  | _, control => control

variable {request : SignalRequest} {a : Arena} {x owner : ScopeId} {c : Control}

theorem raise_of_owns (h : a.Owns request.signal owner x) (hc : a.control? owner = some c)
    (ht : c.takes request.signal = true) :
    request.raise a x = .ok (a.setControl owner (request.record c)) := by
  cases request <;> cases c <;> cases ht <;> exact h.raise_eq hc _

theorem raise_of_owner_error {fault : Fault} (h : a.owner x request.signal = .error fault) :
    request.raise a x = .error fault := by
  have hraise : ∀ f, a.raise x request.signal f = .error fault := by
    intro f
    rw [Arena.raise, h]
    rfl
  cases request <;> exact hraise _

theorem takes_record (ht : c.takes request.signal = true) :
    (request.record c).takes request.signal = true := by
  cases request <;> cases c <;> cases ht <;> rfl

theorem isPending_record (ht : c.takes request.signal = true) :
    (request.record c).isPending = true := by
  cases request <;> cases c <;> cases ht <;> simp [record, Control.isPending]

end SignalRequest

namespace Arena

variable {a a' : Arena} {request : SignalRequest} {x y owner : ScopeId} {c : Control}

/-- The request has been recorded at `owner`, which makes it seen where it should be and nowhere
else. -/
structure Raised (a : Arena) (request : SignalRequest) (owner : ScopeId) (a' : Arena) : Prop where
  /-- The owner differs in its control state. -/
  recorded : ∃ s c, a.get? owner = some s ∧ s.control? = some c ∧
    a'.get? owner = some (s.setControl (request.record c)) ∧
    a'.control? owner = some (request.record c) ∧ (request.record c).isPending = true
  others : ∀ y, y ≠ owner → a'.get? y = a.get? y
  rest : a' = { a with scopes := a'.scopes }
  /-- A signal other than an exception stops what is nested in the owner, and nothing else. -/
  interrupted : ∀ y, a'.interrupted y = true ↔
    a.interrupted y = true ∨ (request.signal ≠ .throwing ∧ a.Within owner y)
  /-- So it stops every scope that would have handed it to this owner. -/
  seen : request.signal ≠ .throwing →
    ∀ y, a.FirstOwner request.signal y owner → a'.interrupted y = true
  /-- An exception waits for every scope whose exceptions the owner takes, … -/
  caught : ∀ pending, request = .throwException pending →
    ∀ y, a.FirstOwner .throwing y owner → a'.exception y = some pending
  /-- … and for no other one. -/
  uncaught : ∀ y, (request.signal = .throwing → ¬ a.FirstOwner .throwing y owner) →
    a'.exception y = a.exception y

/-- Statements are stopped by a change of control state that leaves a signal pending, unless it is
an exception. -/
theorem stopped_record (hc : a.control? owner = some c) (ht : c.takes request.signal = true) :
    (a.setControl owner (request.record c)).Stopped y ↔
      a.Stopped y ∨ (request.signal ≠ .throwing ∧ a.Within owner y) := by
  have hcontrol : (a.setControl owner (request.record c)).control? owner
      = some (request.record c) :=
    control?_setControl hc (Control.cleared_eq_of_takes ht (request.takes_record ht))
  have hstops := Control.stops_eq_true_iff (request.takes_record ht)
  simp only [stopped_iff, (a.alike_setControl owner (request.record c)).within_iff]
  constructor
  · rintro ⟨other, k, hwithin, hk, hkstops⟩
    by_cases hother : other = owner
    · subst hother
      cases hcontrol.symm.trans hk
      exact .inr ⟨(hstops.mp hkstops).1, hwithin⟩
    · rw [control?_setControl_of_ne hother] at hk
      exact .inl ⟨other, k, hwithin, hk, hkstops⟩
  · rintro (⟨other, k, hwithin, hk, hkstops⟩ | ⟨hsignal, hwithin⟩)
    · by_cases hother : other = owner
      · subst hother
        cases hc.symm.trans hk
        have hsignal := ((Control.stops_eq_true_iff ht).mp hkstops).1
        exact ⟨other, _, hwithin, hcontrol, hstops.mpr ⟨hsignal, request.isPending_record ht⟩⟩
      · exact ⟨other, k, hwithin, (control?_setControl_of_ne hother).trans hk, hkstops⟩
    · exact ⟨owner, _, hwithin, hcontrol, hstops.mpr ⟨hsignal, request.isPending_record ht⟩⟩

theorem Alike.toOption_owner (h : a.Alike a') (y : ScopeId) (signal : Signal) :
    (a'.owner y signal).toOption = (a.owner y signal).toOption := by
  have hok : ∀ {b : Arena} {taker}, (b.owner y signal).toOption = some taker ↔
      b.Owns signal taker y := by
    intro b taker
    rw [← owner_eq_ok_iff]
    cases b.owner y signal <;> simp [Except.toOption]
  ext taker
  rw [hok, hok, h.owns_iff]

theorem exception_eq (a : Arena) (y : ScopeId) :
    a.exception y = (a.owner y .throwing).toOption.bind fun taker =>
      match a.control? taker with
      | some (.catching pending) => pending
      | _ => none := by
  unfold exception caught
  cases a.owner y .throwing with
  | error fault => rfl
  | ok taker =>
    simp only [Except.toOption, Option.bind_some]
    rcases a.control? taker with _ | (_ | _ | _ | _ | _) <;> rfl

/-- **What is recorded at the owner is seen from within it, or by those whose exceptions it
takes.** -/
theorem raised_setControl (h : a.FirstOwner request.signal x owner)
    (hc : a.control? owner = some c) (ht : c.takes request.signal = true) :
    a.Raised request owner (a.setControl owner (request.record c)) := by
  have hcontrol := control?_setControl hc (Control.cleared_eq_of_takes ht (request.takes_record ht))
  have howners := (a.alike_setControl owner (request.record c)).toOption_owner
  have hinterrupted : ∀ y, (a.setControl owner (request.record c)).interrupted y = true ↔
      a.interrupted y = true ∨ (request.signal ≠ .throwing ∧ a.Within owner y) := by
    intro y
    rw [interrupted_iff, interrupted_iff, stopped_record hc ht]
  obtain ⟨s, hs, hsc⟩ := control?_eq_some.mp hc
  refine ⟨⟨s, c, hs, hsc, ?_, hcontrol, request.isPending_record ht⟩, ?_, rfl, hinterrupted, ?_,
    ?_, ?_⟩
  · rw [get?_setControl, if_pos rfl, hs]
    rfl
  · intro y hy
    rw [get?_setControl, if_neg hy]
  · intro hsignal y hy
    exact (hinterrupted y).mpr (.inr ⟨hsignal, (owns_iff_firstOwner.mpr hy).within hsignal⟩)
  · rintro pending rfl y hy
    have howner := owner_eq_ok_iff.mpr (owns_iff_firstOwner.mpr hy)
    rw [exception_eq, howners, howner, Except.toOption, Option.bind_some, hcontrol]
    cases c <;> cases ht
    rfl
  · intro y hy
    rw [exception_eq, exception_eq, howners]
    refine Option.bind_congr fun taker htaker => ?_
    have howns : a.Owns .throwing taker y := by
      rw [← owner_eq_ok_iff]
      cases howner : a.owner y .throwing <;> simp_all [Except.toOption]
    have hne : taker ≠ owner := by
      rintro rfl
      refine hy ?_ (owns_iff_firstOwner.mp howns)
      -- control state is of one kind, so its owner takes no other signals
      obtain ⟨k, hk, hkt⟩ := howns.exists_control
      cases hc.symm.trans hk
      cases c <;> cases hkt
      cases hsignal : request.signal <;> rw [hsignal] at ht <;> cases ht
    rw [control?_setControl_of_ne hne]

/-- **A signal is recorded at the first scope that takes it**, and it is seen there by exactly the
scopes that it concerns. If there is no such scope, then the fault is that of the last scope it gets
to, and nothing has changed. -/
theorem signal_reaches_first_owner (h : a.FiniteAlong Scope.Parent) (hx : a.contains x = true)
    (request : SignalRequest) :
    ((∃ a', request.raise a x = .ok a') ↔ ∃! owner, a.FirstOwner request.signal x owner) ∧
    (∀ owner, a.FirstOwner request.signal x owner →
      ∃ a', request.raise a x = .ok a' ∧ a.Raised request owner a') ∧
    ∀ fault, request.raise a x = .error fault →
      (∃ last, a.DeadEnd request.signal x last ∧ fault = request.signal.misuse last) ∧
      ∀ S : Session, S.arena = a →
        (Run.modifyScopes fun a => request.raise a x).exec S = (.error (.fault fault), S) := by
  have hraised : ∀ owner, a.FirstOwner request.signal x owner →
      ∃ a', request.raise a x = .ok a' ∧ a.Raised request owner a' := by
    intro owner hfirst
    have howns := owns_iff_firstOwner.mpr hfirst
    obtain ⟨c, hc, ht⟩ := howns.exists_control
    exact ⟨_, request.raise_of_owns howns hc ht, raised_setControl hfirst hc ht⟩
  obtain ⟨answer, harrives⟩ := h.exists_arrives (visitOwner request.signal)
    (fun hv => Scope.route_eq_passes (visitOwner_eq_next hv)) hx
  have howner : a.owner x request.signal = answer := by
    rw [owner_eq, follow_eq_ok_iff.mpr harrives]
    rfl
  refine ⟨⟨?_, ?_⟩, hraised, ?_⟩
  · rintro ⟨a', hok⟩
    cases answer with
    | error fault =>
      rw [request.raise_of_owner_error howner] at hok
      cases hok
    | ok owner =>
      have howns := owner_eq_ok_iff.mp howner
      exact ⟨owner, owns_iff_firstOwner.mp howns,
        fun other hother => (owns_iff_firstOwner.mpr hother).unique howns⟩
  · rintro ⟨owner, hfirst, -⟩
    obtain ⟨a', hok, -⟩ := hraised owner hfirst
    exact ⟨a', hok⟩
  · intro fault hfault
    refine ⟨?_, fun S hS => Run.exec_modifyScopes_error (by rw [hS, hfault])⟩
    cases answer with
    | error other =>
      rw [request.raise_of_owner_error howner] at hfault
      cases hfault
      exact harrives.deadEnd
    | ok owner =>
      obtain ⟨a', hok, -⟩ := hraised owner (owns_iff_firstOwner.mp (owner_eq_ok_iff.mp howner))
      rw [hok] at hfault
      cases hfault

/-- A function that runs a titled loop with another loop in it, and in that a `try` statement. -/
def nestedLoops : Arena :=
  let a := (Arena.new.create (.function (some ⟨0⟩) {}) (some ⟨0⟩)).2
  let a := (a.create (.loop (some "outer") {}) (some ⟨1⟩)).2
  let a := (a.create (.loop none {}) (some ⟨2⟩)).2
  (a.create (.attempt none) (some ⟨3⟩)).2

theorem founded_nestedLoops : nestedLoops.Founded := by
  have h₁ := orderly_new.create (.function (some ⟨0⟩) {}) (some ⟨0⟩)
  have h₂ := h₁.create (.loop (some "outer") {}) (some ⟨1⟩)
  have h₃ := h₂.create (.loop none {}) (some ⟨2⟩)
  exact (((founded_new.create orderly_new (by decide)).create h₁ (by decide)).create h₂
    (by decide)).create h₃ (by decide)

/-- A break with a label passes the inner loop. A fallthrough does not pass it, and is lost. -/
theorem labelled_break_reaches_titled_loop :
    (∃ a', (SignalRequest.breakLoop (some "outer")).raise nestedLoops ⟨4⟩ = .ok a' ∧
      nestedLoops.Raised (.breakLoop (some "outer")) ⟨2⟩ a') ∧
    ∃ last, nestedLoops.DeadEnd .fallthrough ⟨4⟩ last := by
  have hspec := signal_reaches_first_owner founded_nestedLoops.finiteAlong (x := ⟨4⟩) (by decide)
  refine ⟨(hspec (.breakLoop (some "outer"))).2.1 ⟨2⟩ ⟨?_, _, rfl, by decide⟩, ?_⟩
  · have hinner : nestedLoops.Hands (.breaking (some "outer")) ⟨4⟩ ⟨3⟩ :=
      ⟨_, rfl, by decide, by decide⟩
    have houter : nestedLoops.Hands (.breaking (some "outer")) ⟨3⟩ ⟨2⟩ :=
      ⟨_, rfl, by decide, by decide⟩
    exact .head hinner (.single houter)
  · obtain ⟨⟨last, hlast, -⟩, -⟩ := (hspec .fallthrough).2.2 .fallthroughOutsideCase rfl
    exact ⟨last, hlast⟩

end Arena

end ScriptCore
