import ScriptCore.Proofs.Control.Programs

/-!
# How statements end

`Session.Ends` says that a statement which has been run in a scope ended with a given completion:
the signal of the completion is recorded at its owner, and nothing else is left of the run.
`Session.Within` is a session with a new scope, and `Context.Inside` relates the contexts inside
and outside of it.

A completion reached inside is the completion of the statement around unless the new scope takes the
signal (`Session.Within.leave`, `Session.Within.absorb`).
-/

namespace ScriptCore

open Run

/-! ## Contexts and scopes -/

/-- What a context says is so at a scope, as far as `names` go. -/
structure Context.Fits (names : List String) (ctx : Context) (a : Arena) (id : ScopeId) : Prop where
  owned : ∀ {signal}, ctx.owned signal → ∃ owner, a.Owns signal owner id
  free : ∀ {name}, name ∈ names → ctx.free name → a.Undeclared name id

/-- The context `inner` is right in the scope `s` if `ctx` is right around it. -/
structure Context.Inside (inner ctx : Context) (s : Scope) : Prop where
  owned : ∀ {signal}, inner.owned signal →
    s.route signal = .owns ∨ (s.route signal = .passes s.outer ∧ ctx.owned signal)
  free : ∀ {name}, inner.free name → ctx.free name ∧ s.binds name = false

namespace Context

variable {ctx inner : Context} {names : List String} {a a' : Arena} {id b : ScopeId} {s : Scope}

theorem fits_of (names : List String) (a : Arena) (id : ScopeId) :
    (Context.of a id).Fits names a id where
  owned h := h.imp fun _ ho => Arena.owner_eq_ok_iff.mp ho
  free _ h := Arena.isDeclared_eq_false_iff.mp h

theorem Fits.carries (h : ctx.Fits names a id) (hc : a.Carries names id a') :
    ctx.Fits names a' id where
  owned ho := (h.owned ho).imp fun _ ho => hc.parallel.owns_iff.mpr ho
  free hn hf := hc.parallel.undeclared hn (h.free hn hf)

theorem Fits.inside (h : ctx.Fits names a id) (hi : inner.Inside ctx s)
    (ho : a.Opens s id b a') (hg : a.Grounded id) : inner.Fits names a' b where
  owned hs := by
    rcases hi.owned hs with hr | ⟨hr, hs⟩
    · exact ⟨b, (ho.owns_iff hg).mpr (.inl ⟨hr, rfl⟩)⟩
    · obtain ⟨owner, howner⟩ := h.owned hs
      rw [ho.outer] at hr
      exact ⟨owner, (ho.owns_iff hg).mpr (.inr ⟨hr, howner⟩)⟩
  free hn hf := ho.undeclared hg (hi.free hf).2 (h.free hn (hi.free hf).1)

theorem inside_block (hs : s.state = .block) (hb : ∀ name, s.binds name = false) :
    ctx.Inside ctx s where
  owned {signal} h := by
    refine .inr ⟨?_, h⟩
    cases signal <;> simp [Scope.route, hs]
  free h := ⟨h, hb _⟩

theorem inside_declaring {name : String} (hs : s.state = .block)
    (hb : ∀ other, other ≠ name → s.binds other = false) : (ctx.declaring name).Inside ctx s where
  owned {signal} h := by
    refine .inr ⟨?_, h⟩
    cases signal <;> simp [Scope.route, hs]
  free h := ⟨h.1, hb _ h.2⟩

theorem inside_loop {title : Option String} {flags : LoopFlags} (hs : s.state = .loop title flags)
    (hb : ∀ name, s.binds name = false) : (ctx.inLoop title).Inside ctx s where
  owned {signal} h := by
    cases signal with
    | breaking label | continuing label =>
      by_cases hl : labelMatches label title = true
      · simp [Scope.route, hs, hl]
      · simp_all [Scope.route, inLoop]
    | fallthrough | yielding => exact h.elim
    | returning | throwing => exact .inr ⟨by simp [Scope.route, hs], h⟩
  free h := ⟨h, hb _⟩

theorem inside_case {state : CaseState} (hs : s.state = .select state)
    (hb : ∀ name, s.binds name = false) : ctx.inCase.Inside ctx s where
  owned {signal} h := by
    cases signal with
    | fallthrough | yielding => simp [Scope.route, hs]
    | breaking label | continuing label | returning | throwing =>
      exact .inr ⟨by simp [Scope.route, hs], h⟩
  free h := ⟨h, hb _⟩

theorem inside_try {handled : Bool} {exception : Option Pending} (hs : s.state = .attempt exception)
    (hb : ∀ name, s.binds name = false) : (ctx.inTry handled).Inside ctx s where
  owned {signal} h := by
    cases signal with
    | throwing => simp [Scope.route, hs]
    | breaking label | continuing label | returning | fallthrough | yielding =>
      exact .inr ⟨by simp [Scope.route, hs], h⟩
  free h := ⟨h, hb _⟩

end Context

namespace Session

variable {names : List String} {ctx inner : Context} {id b : ScopeId} {S S' S'' : Session}
  {c : Completion} {s : Scope}

/-! ## Endings -/

/-- A statement run in `id` ended with the completion `c`: the signal of `c`, which has an owner
and holds no reference, is recorded there, and nothing else is left. -/
structure Ends (names : List String) (ctx : Context) (id : ScopeId) (S : Session) (c : Completion)
    (S' : Session) : Prop where
  records : S.arena.Records names id c.mark S'.arena
  entered : S'.entered = S.entered
  stack : S'.stack = S.stack
  owned : ∀ {signal k}, c.mark = some (signal, k) → ctx.owned signal
  plain : c.plain = true

theorem Kept.ends (h : Kept names id S S') (ctx : Context) (v : Value) :
    Ends names ctx id S (.normal v) S' :=
  ⟨h.arena, h.entered, h.stack, nofun, rfl⟩

namespace Ends

theorem kept (h : Ends names ctx id S c S') (hc : c.mark = none) : Kept names id S S' := by
  have hrecords := h.records
  rw [hc] at hrecords
  exact ⟨hrecords, h.entered, h.stack⟩

theorem void (h : Ends names ctx id S c S') : Ends names ctx id S c.void S' where
  records := by simpa using h.records
  entered := h.entered
  stack := h.stack
  owned hc := h.owned (c.mark_void ▸ hc)
  plain := by simpa using h.plain

theorem after (h : Ends names ctx id S' c S'') (hr : S.Ready id) (hk : Kept names id S S') :
    Ends names ctx id S c S'' where
  records := h.records.after hk.arena hr.orderly fun hc => (Completion.takes_of_mark hc).1
  entered := h.entered.trans hk.entered
  stack := h.stack.trans hk.stack
  owned := h.owned
  plain := h.plain

/-- Statements stop exactly if a statement did not end normally. -/
theorem exec_halted (h : Ends names ctx id S c S') (hr : S.Ready id) :
    (halted id).exec S' = (.ok c.mark.isSome, S') := by
  have hhalts := h.records.halts hr.orderly hr.grounded hr.clear (Completion.signalled h.plain)
  rw [← hhalts]
  rfl

end Ends

/-- Nothing stops statements where they are ready to run. -/
theorem Ready.exec_halted (hr : S.Ready id) : (halted id).exec S = (.ok false, S) :=
  (Kept.ends (.refl [] hr) ⟨fun _ => False, fun _ => False⟩ .null).exec_halted hr

/-- Raising a signal ends a statement with the completion that the signal is for. -/
theorem Ready.raise (hr : S.Ready id) (hf : ctx.Fits names S.arena id) {signal : Signal}
    {k : Control} (hm : c.mark = some (signal, k)) (ho : ctx.owned signal) (hp : c.plain = true)
    (f : Control → Control) (hk : ∀ {old : Control}, old.takes signal = true → f old.cleared = k) :
    ∃ a, S.arena.raise id signal f = .ok a ∧ a.calm = S.arena.calm ∧
      Ends names ctx id S c { S with arena := a } := by
  obtain ⟨owner, howner⟩ := hf.owned ho
  obtain ⟨old, hold, ht⟩ := howner.exists_control
  obtain ⟨hkt, -, hkp⟩ := Completion.signalled hp hm
  have hcleared : old = old.cleared := hr.clear owner howner.sees old hold
  have hkc : k.cleared = old.cleared := Control.cleared_eq_of_takes ht hkt
  have hraise : S.arena.raise id signal f = .ok (S.arena.setControl owner k) := by
    rw [howner.raise_eq hold f, hcleared, hk ht]
  have hplain : old.plain = true := by
    rw [hcleared]
    exact old.plain_cleared
  have hcarries := Arena.carries_setControl names hr.orderly hr.grounded owner k
  refine ⟨_, hraise, Arena.calm_setControl hold hkc hplain hkp, ?_, rfl, rfl, ?_, hp⟩
  · rw [hm]
    exact ⟨owner, howner, .refl names hcarries.orderly hcarries.grounded⟩
  · intro signal' k' hm'
    cases hm.symm.trans hm'
    exact ho

/-! ## New scopes -/

/-- In `S'` the scope `s` has been made at `b` inside `id` and entered. -/
structure Within (s : Scope) (id b : ScopeId) (S S' : Session) : Prop where
  opens : S.arena.Opens s id b S'.arena
  entered : S'.entered = b :: S.entered
  stack : S'.stack = S.stack

theorem Ready.within_opened (hr : S.Ready id) (state : ScopeState)
    (hs : state.kind.category = .sub) :
    Within { state, outer := some id, serial := S.arena.nextSerial } id (S.newScope state id) S
      (S.opened state id) :=
  ⟨hr.orderly.opens_create id hs, rfl, rfl⟩

namespace Within

theorem ready (h : Within s id b S S') (hr : S.Ready id) (hs : s.state.skeleton = s.state) :
    S'.Ready b where
  orderly := h.opens.orderly
  grounded := h.opens.grounded hr.grounded
  inUse := by
    rw [h.entered]
    exact .inr (.inl List.mem_cons_self)
  clear := h.opens.clear hr.grounded hr.clear (ScopeState.cleared_of_skeleton hs)

theorem modify_bindings (h : Within s id b S S') (f : Bindings → Bindings) :
    Within { s with bindings := f s.bindings } id b S
      { S' with arena := S'.arena.modifyTable (b, .pub) f } :=
  ⟨h.opens.modify_bindings f, h.entered, h.stack⟩

/-- A completion reached inside is that of the statement around if its signal is not taken. -/
theorem leave (h : Within s id b S S') (hr : S.Ready id) (hi : inner.Inside ctx s)
    (he : Ends names inner b S' c S'')
    (hc : ∀ {signal k}, c.mark = some (signal, k) → s.route signal ≠ .owns) :
    Ends names ctx id S c (S''.closed b) where
  records := h.opens.leave hr.orderly hr.grounded
    (fun hm => ⟨hc hm, (Completion.takes_of_mark hm).1⟩) he.records
  entered := by simp [closed, he.entered, h.entered]
  stack := he.stack.trans h.stack
  owned hm := by
    rcases hi.owned (he.owned hm) with hroute | ⟨-, ho⟩
    · exact absurd hroute (hc hm)
    · exact ho
  plain := he.plain

theorem leave_kept (h : Within s id b S S') (hr : S.Ready id) (hk : Kept names b S' S'') :
    Kept names id S (S''.closed b) where
  arena := h.opens.close hr.orderly hr.grounded hk.arena
  entered := by simp [closed, hk.entered, h.entered]
  stack := hk.stack.trans h.stack

/-- A signal that is taken inside leaves nothing outside, and nothing inside once it is cleared. -/
theorem absorb (h : Within s id b S S') (hr : S.Ready id) {signal : Signal} {k : Control}
    (hm : c.mark = some (signal, k)) (hroute : s.route signal = .owns)
    (he : Ends names inner b S' c S'') :
    S''.arena.control? b = some k ∧ Kept names id S (S''.closed b) ∧
      ∀ c', s.control? = some c' →
        Kept names b S' { S'' with arena := S''.arena.setControl b c' } := by
  have hrecords := he.records
  rw [hm] at hrecords
  obtain ⟨hcontrol, hkeeps, hback⟩ := h.opens.absorb hr.orderly hr.grounded hroute
    (Completion.takes_of_mark hm).1 hrecords
  refine ⟨hcontrol, ⟨hkeeps, ?_, he.stack.trans h.stack⟩,
    fun c' hc' => ⟨hback c' hc', he.entered, he.stack⟩⟩
  simp [closed, he.entered, h.entered]

end Within

end Session

end ScriptCore
