import ScriptCore.Proofs.Control.Jumps

/-!
# Exceptions and final blocks

What `Session.Refines` says is carried over to `try` statements, in three steps: the body and the
exception it leaves, the handler, and the final block. The final block runs while the signal of the
body or the handler is set aside, and the signal that counts afterwards is its own, if it leaves
one.
-/

namespace ScriptCore

open Run

namespace Session

variable {faulty : Prop} {names : List String} {ctx : Context} {id : ScopeId} {S : Session}
  {ev : Evaluator} {co : Completer}

/-! ## The body -/

theorem takeException_of_none {a : Arena} (h : a.hasException id = false) :
    a.takeException id = (none, a) := by
  have hcaught : a.caught id = none := by simpa [Arena.hasException, Arena.exception] using h
  simp [Arena.takeException, hcaught]

/-- How the body of a `try` statement ends: an exception has been taken, any other signal is
there. -/
def GuardedEnd (names : List String) (ctx : Context) (handled : Bool) (id : ScopeId) (S : Session)
    (pending : Option Pending) (c : Completion) (S' : Session) : Prop :=
  match c with
  | .throwing thrown =>
    pending = some thrown ∧ Kept names id S S' ∧ thrown.value.reference?.isNone = true ∧
      (ctx.inTry handled).owned .throwing
  | c => pending = none ∧ Ends names ctx id S c S'

section Guarded

variable {s : Scope} {b : ScopeId} {c : Completion} {S₁ R : Session} {handled : Bool}
  (hs : s.state = .attempt none) (hw : Within s id b S S₁) (hr : S.Ready id)
include hs hw hr

/-- Taking the exception at the end of a `try` body. -/
theorem exec_takeException (hb : ∀ name, s.binds name = false)
    (he : Ends names (ctx.inTry handled) b S₁ c R) :
    ∃ pending R', (Run.takeScopes (·.takeException b)).exec R = (.ok pending, R') ∧
      R'.calm = R.calm ∧ GuardedEnd names ctx handled id S pending c (R'.closed b) := by
  have hready := hw.ready hr (by rw [hs]; rfl)
  have hexception := he.records.hasException_iff hready.orderly hready.grounded hready.clear
    (Completion.signalled he.plain)
  have hleave : (∀ {signal k}, c.mark = some (signal, k) → signal ≠ .throwing) →
      (Run.takeScopes (·.takeException b)).exec R = (.ok none, R) ∧
        Ends names ctx id S c (R.closed b) := by
    intro hc
    refine ⟨?_, hw.leave hr (Context.inside_try hs hb) he fun {signal k} hm => ?_⟩
    · have hnone : R.arena.hasException b = false := by
        rw [← Bool.not_eq_true, hexception]
        rintro ⟨k, hk⟩
        exact hc hk rfl
      rw [exec_takeScopes, takeException_of_none hnone]
    · have hne := hc hm
      cases signal <;> simp_all [Scope.route]
  cases c with
  | throwing thrown =>
    obtain ⟨hcontrol, -, hback⟩ := hw.absorb hr rfl (by simp [Scope.route, hs]) he
    have hk := hback (.catching none) (by simp [Scope.control?, hs, ScopeState.control?])
    have howns : R.arena.Owns .throwing b b := by
      rw [(he.records.carries hready.orderly hready.grounded).parallel.owns_iff]
      exact .here hw.opens.scope (by simp [Scope.route, hs])
    have hcalm : (R.arena.setControl b (.catching none)).calm = R.arena.calm :=
      Arena.calm_setControl hcontrol rfl (Completion.signalled he.plain rfl).2.2 rfl
    refine ⟨some thrown, { R with arena := R.arena.setControl b (.catching none) }, ?_,
      by simp [calm, hcalm], rfl, hw.leave_kept hr hk, he.plain, he.owned rfl⟩
    rw [exec_takeScopes, Arena.takeException, howns.caught_eq hcontrol]
  | normal _ =>
    obtain ⟨hexec, hends⟩ := hleave fun hm => by cases hm
    exact ⟨none, R, hexec, rfl, rfl, hends⟩
  | returning _ | breaking _ | continuing _ | fallthrough | yielding _ =>
    obtain ⟨hexec, hends⟩ := hleave fun hm => by cases hm; simp
    exact ⟨none, R, hexec, rfl, rfl, hends⟩

end Guarded

/-- The body of a `try` statement. -/
theorem Refines.guarded (hco : Refines faulty names ev co) {handled : Bool} {body : List Node}
    (hbody : ∀ s ∈ body, Sound faulty names (ctx.inTry handled) s) (hr : S.Ready id)
    (hf : ctx.Fits names S.arena id) :
    Follows faulty S (runGuarded ev id body)
      (inScope (.attempt none) id fun guarded => completeSequence co guarded body)
      (GuardedEnd names ctx handled id S) := by
  have hw := hr.within_opened (.attempt none) rfl
  have hb := Scope.binds_new (.attempt none) rfl (some id) S.arena.nextSerial
  have hi : (ctx.inTry handled).Inside ctx _ := Context.inside_try rfl hb
  have hready := hw.ready hr rfl
  refine Follows.inScope (Q := fun pending c R =>
    GuardedEnd names ctx handled id S pending c (R.closed (S.newScope (.attempt none) id))) rfl ?_
      fun h => h
  rw [← bind_pure (completeSequence co _ body)]
  refine (hco.sequence hbody hready (hf.inside hi hw.opens hr.grounded)).cleanup
    (fun R => ⟨_, _, exec_takeScopes _ R⟩) ?_
  rintro v c R ⟨-, he⟩
  obtain ⟨pending, R', hexec, hcalm, hend⟩ := exec_takeException rfl hw hr hb he
  exact Follows.left hexec hcalm (.pure hend)

/-! ## The handler -/

theorem exec_defineVar {name : String} (v : Value) (h : S.arena.Undeclared name id) :
    (defineVar id name v).exec S = (.ok (), { S with
      arena := S.arena.modifyTable (id, .pub) (·.insert name ⟨v, false⟩) }) := by
  have hdeclared := Arena.isDeclared_eq_false_iff.mpr h
  refine exec_modifyScopes ?_
  simp [Arena.defineVar, Arena.defineField, hdeclared, bind, Except.bind, pure, Except.pure]

theorem exec_bindName (name : String) (v : Value) :
    (bindName id name v).exec S.calm = (.ok (), calm { S with
      arena := S.arena.modifyTable (id, .pub) (·.insert name ⟨v, false⟩) }) := by
  unfold bindName
  rw [exec_modify]
  simp [calm, Arena.calm_modifyTable]

/-- The handler of a `try` statement. -/
theorem Refines.handler (hco : Refines faulty names ev co) {name : String} {body : List Node}
    (hname : name ∈ names) (hfree : ctx.free name)
    (hbody : ∀ s ∈ body, Sound faulty names (ctx.declaring name) s) (pending : Pending)
    (hr : S.Ready id) (hf : ctx.Fits names S.arena id) :
    Follows faulty S (handle ev id (some (name, body)) pending)
      (completeHandler co id name body pending) fun _ c S' => Ends names ctx id S c S' := by
  have hw := hr.within_opened .block rfl
  have hb := Scope.binds_new .block rfl (some id) S.arena.nextSerial
  have hundeclared := hw.opens.undeclared hr.grounded (hb name) (hf.free hname hfree)
  -- the block with the name declared in it
  have hw' := hw.modify_bindings (·.insert name ⟨pending.value, false⟩)
  have hi : (ctx.declaring name).Inside ctx _ :=
    Context.inside_declaring rfl fun other hne =>
      (Scope.binds_insert _ name ⟨pending.value, false⟩ hne).trans (hb other)
  have hready := hw'.ready hr rfl
  have hblock : Follows faulty S (inScope .block id fun block => do
        defineVar block name pending.value
        executeSequence ev block body)
      (completeHandler co id name body pending) fun _ c S' => Ends names ctx id S c S' := by
    refine Follows.inScope
      (Q := fun _ c R => Ends names ctx id S c (R.closed (S.newScope .block id)))
      rfl ?_ fun h => h
    refine Follows.bind (Q := fun _ _ R => R = _)
      (.of_exec (exec_defineVar pending.value hundeclared) (exec_bindName name pending.value) rfl)
      ?_
    rintro _ _ R rfl
    refine (hco.sequence hbody hready (hf.inside hi hw'.opens hr.grounded)).mono ?_
    rintro v c R ⟨-, he⟩
    refine hw'.leave hr hi he fun {signal k} _ => ?_
    cases signal <;> simp [Scope.route]
  rw [← bind_pure (completeHandler co id name body pending)]
  exact hblock.bind fun he => .pure he

/-- An exception that is thrown on. -/
theorem Ready.throw_on (hr : S.Ready id) (hf : ctx.Fits names S.arena id) (ho : ctx.owned .throwing)
    {pending : Pending} (hp : pending.value.reference?.isNone = true) :
    Follows faulty S (handle ev id none pending) (pure (.throwing pending) : Run Completion)
      fun _ c S' => Ends names ctx id S c S' := by
  obtain ⟨a, hraise, hcalm, he⟩ := hr.raise hf (c := .throwing pending) rfl ho hp
    (fun _ => .catching (some pending)) fun _ => rfl
  have hexec : (handle ev id none pending).exec S = (.ok (), { S with arena := a }) :=
    exec_modifyScopes (f := fun a => a.throwException id pending) hraise
  refine .of_exec hexec ?_ he
  rw [exec_pure]
  simp [calm, hcalm]

/-- The body of a `try` statement and its handler. -/
theorem Refines.handled (hco : Refines faulty names ev co) {body : List Node}
    {handler : Option (String × List Node)}
    (hbody : ∀ s ∈ body, Sound faulty names (ctx.inTry handler.isSome) s)
    (hname : ∀ h ∈ handler, h.1 ∈ names ∧ ctx.free h.1)
    (hhandler : ∀ h ∈ handler, ∀ s ∈ h.2, Sound faulty names (ctx.declaring h.1) s)
    (hr : S.Ready id) (hf : ctx.Fits names S.arena id) :
    Follows faulty S
      (do if let some pending ← runGuarded ev id body then handle ev id handler pending)
      ((inScope (.attempt none) id fun guarded => completeSequence co guarded body)
        >>= afterGuarded co id handler)
      fun _ c S' => Ends names ctx id S c S' := by
  refine (hco.guarded hbody hr hf).bind ?_
  intro pending c R hend
  cases c with
  | throwing thrown =>
    obtain ⟨rfl, hk, hplain, howned⟩ := hend
    have hready := hk.ready hr
    have hfits := hf.carries hk.arena.toCarries
    cases handler with
    | some handler =>
      obtain ⟨name, handlerBody⟩ := handler
      obtain ⟨hmem, hfree⟩ := hname _ rfl
      have hrun := hco.handler hmem hfree (hhandler _ rfl) thrown hready hfits
      exact hrun.mono fun he => he.after hr hk
    | none =>
      have howned : ctx.owned .throwing := by simpa [Context.inTry] using howned
      exact (hready.throw_on hfits howned hplain).mono fun he => he.after hr hk
  | normal _ | returning _ | breaking _ | continuing _ | fallthrough | yielding _ =>
    obtain ⟨rfl, he⟩ := hend
    exact .pure he

/-! ## The final block -/

/-- The final block of a `try` statement, after a body and a handler that ended with `c`. -/
theorem Refines.final (hco : Refines faulty names ev co) {body : List Node}
    (hbody : ∀ s ∈ body, Sound faulty names ctx s) {c : Completion} {S' : Session}
    (he : Ends names ctx id S c S') (hv : c.value = .null) (hr : S.Ready id)
    (hf : ctx.Fits names S.arena id) :
    Follows faulty S' (runFinal ev id body) (do return c.override (← completeBlock co id body))
      fun _ c S' => c.value = .null ∧ Ends names ctx id S c S' := by
  have hsignalled : Arena.Signalled c.mark := Completion.signalled he.plain
  obtain ⟨s, hidden, hsuspend, hkeeps, hparked, hcalm⟩ :=
    he.records.suspend hr.orderly hr.grounded hr.clear hsignalled
  -- the session in which the final block runs
  obtain ⟨R, hR⟩ : ∃ R : Session, R = { S' with arena := S'.arena.suspendControl id } := ⟨_, rfl⟩
  have hcarries := Arena.carries_setSuspended names hkeeps.orderly hkeeps.grounded
    (s :: S.arena.suspended)
  have hready : R.Ready id := by
    rw [hR, hsuspend]
    refine ⟨hcarries.orderly, hcarries.grounded, ?_, ?_⟩
    · have hglobal := hcarries.global.trans hkeeps.global
      simp only [hglobal, he.entered, he.stack]
      exact hr.inUse
    · exact (hkeeps.clear hr.clear).setSuspended hkeeps.orderly hkeeps.grounded _
  have hfits : ctx.Fits names R.arena id := by
    rw [hR, hsuspend]
    exact (hf.carries hkeeps.toCarries).carries hcarries
  have hcalmR : R.calm = S'.calm := by
    have hsame : (hidden.setSuspended (s :: S.arena.suspended)).calm = S'.arena.calm := by
      rw [Arena.calm_setSuspended_cons _ (hparked.plain hsignalled), ← hcalm, ← hkeeps.suspended]
      rfl
    simp [hR, calm, hsuspend, hsame]
  refine Follows.left (exec_modify _ S') (hR ▸ hcalmR) ?_
  rw [← hR]
  refine (hco.block hbody hready hfits).cleanup (fun R => ⟨_, _, exec_modify _ R⟩) ?_
  rintro v d R' ⟨-, hd⟩
  have hrecords := hd.records
  rw [hR, hsuspend] at hrecords
  obtain ⟨hrestored, hcalm'⟩ := hparked.restore hr.orderly hr.grounded hr.clear hsignalled
    (Completion.signalled hd.plain) hkeeps hrecords
  refine Follows.left (exec_modify _ R') (by simp [calm, hcalm'])
    (.pure ⟨Completion.value_override hv d, ?_, ?_, ?_, ?_, ?_⟩)
  · rw [Completion.mark_override]
    exact hrestored
  · rw [hd.entered, hR]
    exact he.entered
  · rw [hd.stack, hR]
    exact he.stack
  · intro signal k hm
    cases d with
    | normal _ => exact he.owned hm
    | returning _ | breaking _ | continuing _ | fallthrough | yielding _ | throwing _ =>
      exact hd.owned hm
  · exact Completion.plain_override he.plain hd.plain

theorem executeTry_eq (ev : Evaluator) (scope : ScopeId) (body : List Node)
    (handler : Option (String × List Node)) (final : Option (List Node)) :
    executeTry ev scope body handler final = (do
      (do if let some pending ← runGuarded ev scope body then handle ev scope handler pending)
      if let some final := final then runFinal ev scope final) := by
  unfold executeTry
  rw [bind_assoc]
  congr 1
  funext pending
  cases pending with
  | none => exact (pure_bind _ _).symm
  | some pending => rfl

/-- A `try` statement. -/
theorem Refines.attempt (hco : Refines faulty names ev co) {body : List Node}
    {handler : Option (String × List Node)} {final : Option (List Node)}
    (hbody : ∀ s ∈ body, Sound faulty names (ctx.inTry handler.isSome) s)
    (hname : ∀ h ∈ handler, h.1 ∈ names ∧ ctx.free h.1)
    (hhandler : ∀ h ∈ handler, ∀ s ∈ h.2, Sound faulty names (ctx.declaring h.1) s)
    (hfinal : ∀ f ∈ final, ∀ s ∈ f, Sound faulty names ctx s) (hr : S.Ready id)
    (hf : ctx.Fits names S.arena id) :
    Follows faulty S (executeTry ev id body handler final) (completeTry co id body handler final)
      fun _ c S' => c.value = .null ∧ Ends names ctx id S c S' := by
  unfold completeTry
  rw [executeTry_eq, ← bind_assoc]
  refine (hco.handled hbody hname hhandler hr hf).bind ?_
  intro _ c S' he
  cases final with
  | none => exact .pure ⟨c.value_void, he.void⟩
  | some final => exact hco.final (hfinal final rfl) he.void c.value_void hr hf

end Session

end ScriptCore
