import ScriptCore.Proofs.Session.Requests

/-!
# What calls and threads cannot reach

A call leaves alone what is pending at the scopes there were before it, exceptions apart: a script
cannot return from, break off or yield to a construct outside its activation
(`Session.call_keeps_jumps`). A thread leaves alone the exceptions as well
(`Session.thread_keeps_exceptions`).

Both say that old scopes are shielded from the scopes that are made from now on. A call makes an
activation, where jumps end, and a thread makes a thread scope, where exceptions end too. What a
script does from there is `Session.Scripted.course`.
-/

namespace ScriptCore

/-! ## Old scopes -/

/-- A scope that catches exceptions has an exception or none for its control state. -/
theorem Scope.catches.control? {s : Scope} (h : s.catches) :
    ∃ exception, s.control? = some (.catching exception) := by
  obtain ⟨c, hc, htakes⟩ := Scope.control?_of_route h
  cases c with
  | catching exception => exact ⟨exception, hc⟩
  | _ => cases htakes

namespace Arena

variable {f : Ref → Ref} {a a' : Arena} {x : ScopeId} {s s' : Scope}

theorem visitInterrupted_of_kin (hkin : s.Kin s')
    (hcontrol : ¬ s.catches → s'.control? = s.control?.map (·.mapRefs f)) :
    visitInterrupted x s' = visitInterrupted x s := by
  have houtward : Visit.outward s' false = Visit.outward s false := by
    unfold Visit.outward
    rw [hkin.outer]
  have hstops : s'.control?.any Control.stops = s.control?.any Control.stops := by
    by_cases hcatches : s.catches
    · obtain ⟨exception, hs⟩ := hcatches.control?
      obtain ⟨exception', hs'⟩ := Scope.catches.control? (s := s') ((hkin.route _).trans hcatches)
      rw [hs, hs']
      rfl
    · rw [hcontrol hcatches]
      rcases s.control? with _ | (_ | _ | _ | _) <;>
        simp [Control.stops, Control.mapRefs, Control.isPending]
  rw [visitInterrupted_eq, visitInterrupted_eq, hstops, hkin.isMain, houtward]

/-- What is to be kept of a scope that was there when the first scope could be young. -/
theorem Ages.old {exceptions : Bool} (h : Ages a.nextSerial exceptions f a a')
    (hs' : a'.get? x = some s') (hlt : s'.serial < a.nextSerial) :
    ∃ s, a.get? x = some s ∧ s.Kin s' ∧
      (exceptions = true ∨ ¬ s.catches → s'.control? = s.control?.map (·.mapRefs f)) := by
  obtain ⟨s, hs, hkin, hcontrol⟩ := h.before hs' hlt
  exact ⟨s, hs, hkin, fun hkeep => hcontrol ⟨hkin.serial ▸ hlt, hkeep⟩⟩

/-- The same statements are stopped if jumps are kept and no link to an outer scope dangles. -/
theorem Ages.interrupted_eq (h : Ages a.nextSerial false f a a') (ha : a.Orderly)
    (houter : ∀ {x s o}, a.get? x = some s → s.outer = some o → ∃ t, a.get? o = some t)
    (hs' : a'.get? x = some s') (hlt : s'.serial < a.nextSerial) :
    a'.interrupted x = a.interrupted x := by
  -- a scope that is still there and the scope around it, if the look goes there
  have hnext : ∀ {x s'}, a'.get? x = some s' → s'.serial < a.nextSerial →
      ∃ s, a.get? x = some s ∧ visitInterrupted x s' = visitInterrupted x s ∧
        ∀ {o}, visitInterrupted x s = .next o →
          ∃ t', a'.get? o = some t' ∧ t'.serial < a.nextSerial := by
    intro x s' hs' hlt
    obtain ⟨s, hs, hkin, hcontrol⟩ := h.old hs' hlt
    refine ⟨s, hs, visitInterrupted_of_kin hkin fun hcatches => hcontrol (.inr hcatches),
      fun {o} hvisit => ?_⟩
    have ho := (visitInterrupted_eq_next hvisit).1
    obtain ⟨t, ht⟩ := houter hs ho
    obtain ⟨t', ht', hkin'⟩ := h.outer hs' hlt (hkin.outer.trans ho) ht
    exact ⟨t', ht', hkin'.serial ▸ ha.serial_lt ht⟩
  rw [Bool.eq_iff_iff, interrupted_iff, interrupted_iff]
  constructor
  · intro hstopped
    induction hstopped generalizing s' with
    | here ht hvisit =>
      obtain rfl := Option.some.inj (ht.symm.trans hs')
      obtain ⟨s, hs, hsame, -⟩ := hnext hs' hlt
      exact .here hs (hsame ▸ hvisit)
    | outward ht hvisit _ ih =>
      obtain rfl := Option.some.inj (ht.symm.trans hs')
      obtain ⟨s, hs, hsame, hon⟩ := hnext hs' hlt
      rw [hsame] at hvisit
      obtain ⟨t', ht', hlt'⟩ := hon hvisit
      exact .outward hs hvisit (ih ht' hlt')
  · intro hstopped
    induction hstopped generalizing s' with
    | here ht hvisit =>
      obtain ⟨s, hs, hsame, -⟩ := hnext hs' hlt
      obtain rfl := Option.some.inj (ht.symm.trans hs)
      exact .here hs' (hsame.trans hvisit)
    | outward ht hvisit _ ih =>
      obtain ⟨s, hs, hsame, hon⟩ := hnext hs' hlt
      obtain rfl := Option.some.inj (ht.symm.trans hs)
      obtain ⟨t', ht', hlt'⟩ := hon hvisit
      exact .outward hs' (hsame.trans hvisit) (ih ht' hlt')

end Arena

namespace Session

open Run

variable {ev : Evaluator} {S T U : Session} {x : ScopeId}

/-! ## Calls -/

/-- All scopes are old so far. -/
theorem Sane.fencing (hS : S.Sane) (exceptions : Bool) :
    S.Fenced S.arena.nextSerial exceptions :=
  { hS with floor_le := Nat.le_refl _, shields := hS.orderly.shields exceptions }

/-- A call leaves the control state of old scopes. -/
theorem Fenced.callFrom {floor : Nat} {exceptions : Bool} (hS : S.Fenced floor exceptions)
    (hev : Scripting ev) (hcaller : exceptions = true → S.arena.Young floor x) (callee : Value)
    (args : List Value) (site : Position) :
    S.Courses floor exceptions (Session.call ev callee args x site) :=
  hS.call hcaller (fun hS hnew => (Scripted.activation hev _ _ args _).course hS hnew) callee site

/-- **Jumps do not cross an activation.** Let nodes be evaluated in any way that raises signals only
from the scope of evaluation and from scopes made inside it. When a call has ended, in any session
that operations have brought about and however it ended, a scope that was made before it and is
still there has the control state that it had, with references that follow the compactions on the
way, or it catches exceptions. And statements in it are stopped by a signal exactly if they were
before. -/
theorem call_keeps_jumps {options : Options} (hS : Arises options S) (hev : Scripting ev)
    (callee : Value) (args : List Value) (caller : ScopeId) (site : Position) :
    let T := ((call ev callee args caller site).exec S).2
    ∃ path moves, Traces (call ev callee args caller site) S path ∧
      Trail S.Awaited moves path S T ∧
      ∀ x s', T.arena.get? x = some s' → s'.serial < S.arena.nextSerial →
        ∃ s, S.arena.get? x = some s ∧ s.serial = s'.serial ∧
          (∀ c, s.control? = some c → s'.control? = some (c.mapRefs (relocate moves)) ∨
            ∃ exception exception', c = .catching exception ∧
              s'.control? = some (.catching exception')) ∧
          T.arena.interrupted x = S.arena.interrupted x := by
  intro T
  have hlinked := no_dangling_links hS
  obtain ⟨path, moves, htraces, hcourse⟩ :=
    (hS.sane.fencing false).callFrom hev (x := caller) nofun callee args site
  refine ⟨path, moves, htraces, hcourse.trail, fun x s' hs' hlt => ?_⟩
  obtain ⟨s, hs, hkin, hcontrol⟩ := hcourse.ages.old hs' hlt
  refine ⟨s, hs, hkin.serial.symm, fun c hc => ?_, ?_⟩
  · by_cases hcatches : s.catches
    · obtain ⟨exception, hexception⟩ := hcatches.control?
      obtain ⟨exception', hexception'⟩ :=
        Scope.catches.control? (s := s') ((hkin.route _).trans hcatches)
      exact .inr ⟨exception, exception', Option.some.inj (hc.symm.trans hexception), hexception'⟩
    · rw [hcontrol (.inr hcatches), hc]
      exact .inl rfl
  · refine hcourse.ages.interrupted_eq hS.sane.orderly (fun {x s o} hs ho => ?_) hs' hlt
    have hrefers : Refers S.memory.heap S.arena (.scope x) (.scope o) := .outer hs ho
    rcases hlinked.edge hrefers with hnull | hlive
    · cases hnull
    · exact Option.isSome_iff_exists.mp hlive

/-- A loop has been entered, and a function breaks off a loop. -/
def strayBreak : Session :=
  let made := ((Operation.newFunction "f" [] (.leave none) ⟨0⟩).run.exec
    (Session.new { heapSize := 8 })).2
  ((Operation.enterScope (.loop none {}) ⟨0⟩).run.exec made).2

theorem strayBreak_arises : Arises { heapSize := 8 } strayBreak := by
  refine .step (.step .new _ ?_) _ ?_
  · intro c hc
    obtain rfl := List.mem_singleton.mp hc
    exact .inr rfl
  · intro c hc
    obtain rfl := List.mem_singleton.mp hc
    exact .inr rfl

/-- The loop from which the function is called goes on. -/
theorem call_keeps_jumps_strayBreak :
    ((call (eval 4) (.ref ⟨1⟩) [] ⟨1⟩ ⟨1, 1⟩).exec strayBreak).2.arena.interrupted ⟨1⟩ =
      strayBreak.arena.interrupted ⟨1⟩ := by
  obtain ⟨path, moves, -, -, h⟩ :=
    call_keeps_jumps strayBreak_arises (scripting_eval 4) (.ref ⟨1⟩) [] ⟨1⟩ ⟨1, 1⟩
  obtain ⟨s, -, -, -, hsame⟩ := h ⟨1⟩ _ rfl (by decide)
  exact hsame

/-! ## Threads -/

/-- The scope of a thread that has ended with a value is there, and no exception waits at it. -/
theorem serving_eq_ok {ticket : Nat} {request : ThreadRequest} {v : Value} {exceptions : Bool}
    {floor : Nat} (hev : Scripting ev) (hS : S.Fenced floor exceptions)
    (hthread : S.arena.Young floor x) (hx : x ∈ S.entered) {s : Scope}
    (hs : S.arena.get? x = some s) (hcatches : s.catches)
    (h : ((serving ev ticket request x).exec S).1 = .ok (some v)) :
    ∃ U s', (call ev request.callee request.args x Position.unknown).exec S = (.ok v, U) ∧
      U.arena.get? x = some s' ∧ s.Kin s' ∧ s'.control? = some (.catching none) := by
  obtain ⟨path, moves, -, hcourse⟩ :=
    hS.callFrom hev (fun _ => hthread) request.callee request.args Position.unknown
  obtain ⟨value, U, hcall, hrest⟩ := exec_bind_eq_ok (Prod.ext h rfl)
  obtain ⟨report, U', hreport, hrest⟩ := exec_bind_eq_ok hrest
  rw [hcall] at hcourse
  obtain ⟨s', hs', hkin⟩ := hcourse.entered x hx s hs
  -- the thread scope owns what is thrown in it
  have howns : U.arena.Owns .throwing x x := .here hs' ((hkin.route _).trans hcatches)
  obtain ⟨exception, hcontrol⟩ := Scope.catches.control? (s := s') ((hkin.route _).trans hcatches)
  have hx' : U.arena.control? x = some (.catching exception) :=
    Arena.control?_eq_some.mpr ⟨s', hs', hcontrol⟩
  cases exception with
  | none =>
    refine ⟨U, s', ?_, hs', hkin, hcontrol⟩
    cases report with
    | none =>
      cases hrest
      exact hcall
    | some report => cases hrest
  | some pending =>
    -- an exception that waits is taken and reported
    have htaken : U.arena.takeException x =
        (some pending, U.arena.setControl x (.catching none)) := by
      unfold Arena.takeException
      rw [howns.caught_eq hx']
    have hexec : (Run.takeScopes (·.takeException x)).exec U =
        (.ok (some pending), { U with arena := U.arena.setControl x (.catching none) }) := by
      rw [exec_takeScopes, htaken]
    unfold reportUncaught at hreport
    rw [exec_bind_ok hexec] at hreport
    cases hreport
    cases hrest

/-- **Exceptions stay in their thread.** Let nodes be evaluated in any way that raises signals only
from the scope of evaluation and from scopes made inside it. When the request of a ticket has been
served, in any session that threads have brought about and however it ended, a scope that was made
before and is still there has the control state that it had, exceptions included, with references
that follow the compactions on the way. And if it ended with a value, then its call gave this value
and left no exception waiting at the scope of the thread. -/
theorem thread_keeps_exceptions (hev : Scripting ev) {options : Options}
    (hS : Attained ev options S) (ticket : Nat) :
    let T := ((runThread ev ticket).exec S).2
    (∃ path moves, Traces (runThread ev ticket) S path ∧
      Trail (S.taken ticket).Awaited moves path S T ∧
      ∀ x s', T.arena.get? x = some s' → s'.serial < S.arena.nextSerial →
        ∃ s, S.arena.get? x = some s ∧ s.serial = s'.serial ∧ s.kind = s'.kind ∧
          s'.control? = s.control?.map (·.mapRefs (relocate moves))) ∧
      ∀ v, ((runThread ev ticket).exec S).1 = .ok (some v) →
        let thread := S.newScope (.thread none) S.arena.global
        ∃ request U s, S.threads.pending.lookup ticket = some request ∧
          (call ev request.callee request.args thread Position.unknown).exec
            ((S.taken ticket).opened (.thread none) S.arena.global) = (.ok v, U) ∧
          U.arena.get? thread = some s ∧ s.serial = S.arena.nextSerial ∧ s.kind = .thread ∧
          s.control? = some (.catching none) := by
  intro T
  have hsane := (hS.sane hev).taken ticket
  have hfenced := hsane.fencing true
  have htaken : Trail (S.taken ticket).Awaited [] [S.taken ticket] S (S.taken ticket) :=
    .work (.start S) (.refl hsane.wellFormed)
  constructor
  · obtain ⟨path, moves, htraces, hcourse⟩ := hfenced.thread fun request =>
      hfenced.inThread fun hS hthread => (Scripted.serving hev ticket request).course hS hthread
    refine ⟨_, moves, htraces, htaken.append hcourse.trail fun _ hr => hr, fun x s' hs' hlt => ?_⟩
    obtain ⟨s, hs, hkin, hcontrol⟩ := hcourse.ages.old hs' hlt
    exact ⟨s, hs, hkin.serial.symm, hkin.kind.symm, hcontrol (.inl rfl)⟩
  · intro v hv thread
    rw [exec_runThread] at hv
    cases hrequest : S.threads.pending.lookup ticket with
    | none =>
      rw [hrequest] at hv
      cases hv
    | some request =>
      rw [hrequest] at hv
      unfold runRequest at hv
      dsimp only at hv
      rw [exec_bind_ok (exec_get _), exec_inScope] at hv
      have hnew := (hsane.orderly.get?_create (.thread none) (some S.arena.global)).2
      obtain ⟨hopened, hthread⟩ := hfenced.opened_thread
      obtain ⟨U, s, hcall, hs, hkin, hcontrol⟩ := serving_eq_ok hev (hopened.fenced hfenced) hthread
        List.mem_cons_self hnew rfl hv
      exact ⟨request, U, s, rfl, hcall, hs, hkin.serial, hkin.kind, hcontrol⟩

/-- A thread has been asked for whose function throws. -/
def uncaught : Session :=
  let made := ((Operation.newFunction "f" [] (.raise (.lit (.int 7))) ⟨0⟩).run.exec
    (Session.new { heapSize := 8 })).2
  ((spawnThread (eval 4) (.ref ⟨1⟩) [] false).exec made.share).2

theorem uncaught_attained : Attained (eval 4) { heapSize := 8 } uncaught := by
  refine ⟨_, .snoc (.snoc (.snoc .nil
    (.operate (.newFunction "f" [] (.raise (.lit (.int 7))) ⟨0⟩)) ?_) .share fun _ hc => nomatch hc)
    (.spawn (.ref ⟨1⟩) [] false) ?_⟩
  · intro c hc
    obtain rfl := List.mem_singleton.mp hc
    exact .inr rfl
  · intro c hc
    obtain rfl := List.mem_singleton.mp hc
    exact .inr rfl

/-- Nothing waits at the global scope after that. -/
theorem thread_keeps_exceptions_uncaught :
    ((runThread (eval 4) 0).exec uncaught).2.arena.control? ⟨0⟩ = some (.catching none) := by
  obtain ⟨⟨path, moves, -, -, h⟩, -⟩ :=
    thread_keeps_exceptions (scripting_eval 4) uncaught_attained 0
  obtain ⟨s, hs, -, -, hcontrol⟩ := h ⟨0⟩ _ rfl (by decide)
  cases hs
  exact Arena.control?_eq_some.mpr ⟨_, rfl, hcontrol⟩

end Session

end ScriptCore
