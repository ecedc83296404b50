import ScriptCore.Proofs.Control.Endings

/-!
# Sequences, loops and case constructs

`Session.Refines` says of an evaluator that running a statement with signals comes to the same as
running it with completions. Here this is carried over from the statements inside to sequences,
blocks, loops and case constructs, with one lemma for each part of a construct that looks at
signals or takes them.
-/

namespace ScriptCore

open Run

/-- A new scope of the sub category binds nothing. -/
theorem Scope.binds_new (state : ScopeState) (hs : state.kind.category = .sub)
    (outer : Option ScopeId) (serial : Nat) (name : String) :
    Scope.binds { state, outer, serial } name = false := by
  cases state <;> first | rfl | cases hs

namespace Session

variable {faulty : Prop} {names : List String} {ctx : Context} {id : ScopeId} {S : Session}
  {bound : Nat} {co : Completer}

/-- On sound statements `ev` leaves the signals that record the completions which `co` gives. -/
def Refines (faulty : Prop) (names : List String) (ev : Evaluator) (co : Completer) : Prop :=
  ∀ {ctx : Context} {node : Node} {S : Session} {id : ScopeId},
    Sound faulty names ctx node → S.Ready id → ctx.Fits names S.arena id →
    Follows faulty S (ev node id) (co node id) fun v c S' => v = c.value ∧ Ends names ctx id S c S'

/-! ## Sequences and blocks -/

theorem Refines.sequenceFrom {ev : Evaluator} (hco : Refines faulty names ev co) {body : List Node}
    (hb : ∀ s ∈ body, Sound faulty names ctx s) (last : Value) (hr : S.Ready id)
    (hf : ctx.Fits names S.arena id) :
    Follows faulty S (sequenceFrom ev id last body) (completeFrom co id last body)
      fun v c S' => v = c.value ∧ Ends names ctx id S c S' := by
  induction body generalizing S last with
  | nil => exact .pure ⟨rfl, (Kept.refl names hr).ends ctx last⟩
  | cons statement rest ih =>
    rw [Session.sequenceFrom, completeFrom]
    refine (Follows.evaluate (hco (hb statement List.mem_cons_self) hr hf)).bind ?_
    rintro v c S' ⟨rfl, he⟩
    refine Follows.read (he.exec_halted hr) ?_
    cases c with
    | normal w =>
      have hk : Kept names id S S' := he.kept rfl
      have hrest := ih (fun s hs => hb s (List.mem_cons_of_mem statement hs)) w (hk.ready hr)
        (hf.carries hk.arena.toCarries)
      exact hrest.mono fun ⟨hv, he'⟩ => ⟨hv, he'.after hr hk⟩
    | returning _ | breaking _ | continuing _ | fallthrough | yielding _ | throwing _ =>
      exact .pure ⟨rfl, he⟩

theorem Refines.sequence {ev : Evaluator} (hco : Refines faulty names ev co) {body : List Node}
    (hb : ∀ s ∈ body, Sound faulty names ctx s) (hr : S.Ready id) (hf : ctx.Fits names S.arena id) :
    Follows faulty S (executeSequence ev id body) (completeSequence co id body)
      fun v c S' => v = c.value ∧ Ends names ctx id S c S' :=
  hco.sequenceFrom hb .null hr hf

theorem Refines.block {ev : Evaluator} (hco : Refines faulty names ev co) {body : List Node}
    (hb : ∀ s ∈ body, Sound faulty names ctx s) (hr : S.Ready id) (hf : ctx.Fits names S.arena id) :
    Follows faulty S (executeBlock ev id body) (completeBlock co id body)
      fun v c S' => v = c.value ∧ Ends names ctx id S c S' := by
  have hw := hr.within_opened .block rfl
  have hi : ctx.Inside ctx _ :=
    Context.inside_block rfl (Scope.binds_new .block rfl (some id) S.arena.nextSerial)
  refine Follows.inScope rfl
    (hco.sequence hb (hw.ready hr rfl) (hf.inside hi hw.opens hr.grounded)) ?_
  rintro v c S' ⟨hv, he⟩
  refine ⟨hv, hw.leave hr hi he fun {signal k} _ => ?_⟩
  cases signal <;> simp [Scope.route]

/-! ## Loops -/

/-- What a loop does after an iteration. -/
def afterRound (scope : ScopeId) : Run Bool := do
  let flags ← Run.ofExcept ((← get).arena.loopFlags scope)
  if flags.broken || (← Run.scopes (·.hasException scope)) then return false
  if flags.paused then Run.modifyScopes fun a => a.resumeLoop scope
  return !(← Run.scopes (·.interrupted scope))

theorem iterate_eq (ev : Evaluator) (scope : ScopeId) (body : List Node) :
    iterate ev scope body = executeBlock ev scope body >>= fun _ => afterRound scope := rfl

theorem loopFlags_eq {a : Arena} {flags : LoopFlags} (h : a.control? id = some (.looping flags)) :
    a.loopFlags id = .ok flags := by
  obtain ⟨s, hs, hc⟩ := Arena.control?_eq_some.mp h
  simp [Arena.loopFlags, Arena.get, hs, hc, bind, Except.bind, pure, Except.pure]

theorem resumeLoop_eq {a : Arena} {flags : LoopFlags} (h : a.control? id = some (.looping flags)) :
    a.resumeLoop id = .ok (a.setControl id (.looping { flags with paused := false })) := by
  obtain ⟨s, hs, hc⟩ := Arena.control?_eq_some.mp h
  have howns : a.Owns (.continuing none) id id := by
    refine .here hs ?_
    unfold Scope.control? at hc
    cases hstate : s.state <;> rw [hstate] at hc <;> cases hc
    simp [Scope.route, hstate, labelMatches]
  exact howns.raise_eq h _

theorem exec_afterRound {flags : LoopFlags} (h : S.arena.control? id = some (.looping flags)) :
    (afterRound id).exec S =
      if flags.broken || S.arena.hasException id then (.ok false, S)
      else if flags.paused then
        let a := S.arena.setControl id (.looping { flags with paused := false })
        (.ok (!a.interrupted id), { S with arena := a })
      else (.ok (!S.arena.interrupted id), S) := by
  unfold afterRound
  rw [exec_bind_ok (exec_get S), loopFlags_eq h, exec_bind_ok (exec_ofExcept_ok flags S),
    exec_bind_ok (exec_scopes _ S)]
  split
  · rfl
  · split
    · rw [exec_bind_ok (exec_modifyScopes (resumeLoop_eq h))]
      rfl
    · rfl

/-- The condition of a loop. -/
theorem Quiet.condition {condition : Option Node} (hq : ∀ node ∈ condition, Quiet faulty names node)
    (hr : S.Ready id) :
    Follows faulty S (continues (eval bound) condition id) (holds (eval bound) condition id)
      fun go holds S' => go = holds ∧ Kept names id S S' := by
  cases condition with
  | none => exact .pure ⟨rfl, .refl names hr⟩
  | some condition =>
    refine (Follows.evaluate (hq condition rfl bound S id hr)).bind ?_
    rintro v w S' ⟨rfl, -, hk⟩
    refine Follows.read (hk.ready hr).exec_halted ?_
    exact .pure ⟨by simp, hk⟩

/-- The update of a loop. -/
theorem Quiet.update {action : Option Node} (hq : ∀ node ∈ action, Quiet faulty names node)
    (hr : S.Ready id) :
    Follows faulty S (update (eval bound) action id) (runUpdate (eval bound) action id)
      fun go _ S' => go = true ∧ Kept names id S S' := by
  cases action with
  | none => exact .pure ⟨rfl, .refl names hr⟩
  | some action =>
    refine (Follows.evaluate (hq action rfl bound S id hr)).bind ?_
    rintro v w S' ⟨rfl, -, hk⟩
    refine Follows.read (hk.ready hr).exec_halted ?_
    exact .pure ⟨rfl, hk⟩

section Loop

variable {s : Scope} {b : ScopeId} {title : Option String} {c : Completion} {S₁ R : Session}
  (hs : s.state = .loop title {}) (hw : Within s id b S S₁) (hr : S.Ready id)
include hs hw hr

theorem exec_afterRound_kept (hk : Kept names b S₁ R) : (afterRound b).exec R = (.ok true, R) := by
  have hready := hk.ready (hw.ready hr (by rw [hs]; rfl))
  have hcontrol : R.arena.control? b = some (.looping {}) := by
    rw [hk.arena.control?_eq .self, Arena.control?, hw.opens.scope]
    simp [Scope.control?, hs, ScopeState.control?]
  rw [exec_afterRound hcontrol]
  simp [hready.clear.hasException, hready.clear.interrupted]

/-- A signal that a loop does not take ends the loop. -/
theorem exec_afterRound_leave {signal : Signal} {k : Control}
    (he : Ends names (ctx.inLoop title) b S₁ c R) (hm : c.mark = some (signal, k))
    (hroute : s.route signal ≠ .owns) : (afterRound b).exec R = (.ok false, R) := by
  have hready := hw.ready hr (by rw [hs]; rfl)
  have hcontrol : R.arena.control? b = some (.looping {}) := by
    have hmark : ∀ {signal k}, c.mark = some (signal, k) → s.route signal ≠ .owns := by
      intro signal' k' hm'
      cases hm.symm.trans hm'
      exact hroute
    rw [hw.opens.control?_eq hmark he.records]
    simp [Scope.control?, hs, ScopeState.control?]
  have hhalts := he.records.halts hready.orderly hready.grounded hready.clear
    (Completion.signalled he.plain)
  rw [hm, Option.isSome_some] at hhalts
  rw [exec_afterRound hcontrol]
  cases hexception : R.arena.hasException b with
  | true => rfl
  | false =>
    rw [hexception, Bool.false_or] at hhalts
    simp [hhalts]

theorem exec_afterRound_break {label : Option String} (hl : labelMatches label title = true)
    (he : Ends names (ctx.inLoop title) b S₁ (.breaking label) R) :
    (afterRound b).exec R = (.ok false, R) ∧ Kept names id S (R.closed b) := by
  have hroute : s.route (.breaking label) = .owns := by simp [Scope.route, hs, hl]
  obtain ⟨hcontrol, hkept, -⟩ := hw.absorb hr rfl hroute he
  exact ⟨exec_afterRound hcontrol, hkept⟩

theorem exec_afterRound_continue {label : Option String} (hl : labelMatches label title = true)
    (he : Ends names (ctx.inLoop title) b S₁ (.continuing label) R) :
    ∃ R', (afterRound b).exec R = (.ok true, R') ∧ R'.calm = R.calm ∧ Kept names b S₁ R' := by
  have hready := hw.ready hr (by rw [hs]; rfl)
  have hroute : s.route (.continuing label) = .owns := by simp [Scope.route, hs, hl]
  obtain ⟨hcontrol, -, hback⟩ := hw.absorb hr rfl hroute he
  have hk := hback (.looping {}) (by simp [Scope.control?, hs, ScopeState.control?])
  have hexception : R.arena.hasException b = false := by
    rw [← Bool.not_eq_true, he.records.hasException_iff hready.orderly hready.grounded hready.clear
      (Completion.signalled he.plain)]
    simp [Completion.mark]
  refine ⟨{ R with arena := R.arena.setControl b (.looping {}) }, ?_, ?_, hk⟩
  · have hinterrupted := (hk.ready hready).clear.interrupted
    rw [exec_afterRound hcontrol]
    simpa [hexception] using hinterrupted
  · have hcalm : (R.arena.setControl b (.looping {})).calm = R.arena.calm :=
      Arena.calm_setControl hcontrol rfl rfl rfl
    simp [calm, hcalm]

/-- After an iteration a loop goes on or ends as the completion of its body says. -/
theorem exec_afterRound_ofRound (hb : ∀ name, s.binds name = false)
    (he : Ends names (ctx.inLoop title) b S₁ c R) :
    ∃ go R', (afterRound b).exec R = (.ok go, R') ∧ R'.calm = R.calm ∧
      match c.ofRound title with
      | none => go = true ∧ Kept names b S₁ R'
      | some c' => go = false ∧ Ends names ctx id S c' (R'.closed b) := by
  have hi : (ctx.inLoop title).Inside ctx s := Context.inside_loop hs hb
  have hleave : ∀ {signal k}, c.mark = some (signal, k) → s.route signal ≠ .owns →
      (afterRound b).exec R = (.ok false, R) ∧ Ends names ctx id S c (R.closed b) := by
    intro signal k hm hroute
    refine ⟨exec_afterRound_leave hs hw hr he hm hroute, hw.leave hr hi he fun hm' => ?_⟩
    cases hm.symm.trans hm'
    exact hroute
  cases c with
  | normal v =>
    have hk : Kept names b S₁ R := he.kept rfl
    exact ⟨true, R, exec_afterRound_kept hs hw hr hk, rfl, rfl, hk⟩
  | breaking label =>
    by_cases hl : labelMatches label title = true
    · obtain ⟨hexec, hkept⟩ := exec_afterRound_break hs hw hr hl he
      refine ⟨false, R, hexec, rfl, ?_⟩
      simpa [Completion.ofRound, hl] using hkept.ends ctx .null
    · obtain ⟨hexec, hends⟩ := hleave rfl (by simp [Scope.route, hs, hl])
      refine ⟨false, R, hexec, rfl, ?_⟩
      simpa [Completion.ofRound, hl] using hends
  | continuing label =>
    by_cases hl : labelMatches label title = true
    · obtain ⟨R', hexec, hcalm, hk⟩ := exec_afterRound_continue hs hw hr hl he
      refine ⟨true, R', hexec, hcalm, ?_⟩
      simpa [Completion.ofRound, hl] using hk
    · obtain ⟨hexec, hends⟩ := hleave rfl (by simp [Scope.route, hs, hl])
      refine ⟨false, R, hexec, rfl, ?_⟩
      simpa [Completion.ofRound, hl] using hends
  | returning _ | throwing _ =>
    obtain ⟨hexec, hends⟩ := hleave rfl (by simp [Scope.route, hs])
    exact ⟨false, R, hexec, rfl, rfl, hends⟩
  | fallthrough | yielding _ => exact (he.owned rfl).elim

/-- The iterations of a loop. -/
theorem Refines.rounds (hco : Refines faulty names (eval bound) co)
    (hb : ∀ name, s.binds name = false) {condition action : Option Node} {body : List Node}
    (hc : ∀ node ∈ condition, Quiet faulty names node)
    (ha : ∀ node ∈ action, Quiet faulty names node)
    (hbody : ∀ s ∈ body, Sound faulty names (ctx.inLoop title) s)
    (hf : (ctx.inLoop title).Fits names S₁.arena b) (rounds : Nat) (hk : Kept names b S₁ R) :
    Follows faulty R (runLoop (eval bound) b condition action body rounds)
      (completeRounds (eval bound) co b title condition action body rounds)
      fun _ c R' => c.value = .null ∧ Ends names ctx id S c (R'.closed b) := by
  have hready := hw.ready hr (by rw [hs]; rfl)
  induction rounds generalizing R with
  | zero => exact .throw_exhausted
  | succ rounds ih =>
    rw [runLoop, completeRounds]
    refine (Quiet.condition hc (hk.ready hready)).bind ?_
    rintro go holds R₁ ⟨rfl, hk₁⟩
    have hk₁ := hk.trans hready hk₁
    cases go with
    | false => exact .pure ⟨rfl, (hw.leave_kept hr hk₁).ends ctx .null⟩
    | true =>
      rw [if_pos rfl, if_pos rfl, iterate_eq, bind_assoc]
      refine (hco.block hbody (hk₁.ready hready) (hf.carries hk₁.arena.toCarries)).bind ?_
      rintro v c R₂ ⟨-, he⟩
      obtain ⟨go, R₃, hexec, hcalm, hspec⟩ :=
        exec_afterRound_ofRound hs hw hr hb (he.after hready hk₁)
      refine Follows.left hexec hcalm ?_
      cases hround : c.ofRound title with
      | some c' =>
        rw [hround] at hspec
        obtain ⟨rfl, hends⟩ := hspec
        exact .pure ⟨Completion.value_ofRound hround, hends⟩
      | none =>
        rw [hround] at hspec
        obtain ⟨rfl, hk₃⟩ := hspec
        refine (Quiet.update ha (hk₃.ready hready)).bind ?_
        rintro go _ R₄ ⟨rfl, hk₄⟩
        exact ih (hk₃.trans hready hk₄)

end Loop

theorem Refines.loop (hco : Refines faulty names (eval bound) co) {title : Option String}
    {condition action : Option Node} {body : List Node}
    (hc : ∀ node ∈ condition, Quiet faulty names node)
    (ha : ∀ node ∈ action, Quiet faulty names node)
    (hbody : ∀ s ∈ body, Sound faulty names (ctx.inLoop title) s) (rounds : Nat) (hr : S.Ready id)
    (hf : ctx.Fits names S.arena id) :
    Follows faulty S (executeLoop (eval bound) rounds id title condition action body)
      (completeLoop (eval bound) co rounds id title condition action body)
      fun _ c S' => c.value = .null ∧ Ends names ctx id S c S' := by
  have hsub : (ScopeState.loop title {}).kind.category = .sub := by cases title <;> rfl
  have hw := hr.within_opened (.loop title {}) hsub
  have hb := Scope.binds_new _ hsub (some id) S.arena.nextSerial
  have hi : (ctx.inLoop title).Inside ctx _ := Context.inside_loop rfl hb
  have hready := hw.ready hr rfl
  exact Follows.inScope rfl (hco.rounds rfl hw hr hb hc ha hbody
    (hf.inside hi hw.opens hr.grounded) rounds (.refl names hready)) fun h => h

/-! ## Case constructs -/

/-- What follows the body of an arm. -/
def afterArm (ev : Evaluator) (scope : ScopeId) (rest : List Arm) : Run (Option Value) := do
  if let some value ← takeYield scope then return some value
  let fellThrough ← takeFallthrough scope
  if fellThrough && !(← halted scope) then runArms ev scope rest else return none

theorem runArms_cons (ev : Evaluator) (scope : ScopeId) (arm : Arm) (rest : List Arm) :
    runArms ev scope (arm :: rest) =
      executeBlock ev scope arm.2 >>= fun _ => afterArm ev scope rest := rfl

theorem exec_takeYield {state : CaseState} (h : S.arena.control? id = some (.selecting state)) :
    (takeYield id).exec S = (.ok state.yielded,
      { S with arena := S.arena.setControl id (.selecting { state with yielded := none }) }) := by
  obtain ⟨s, hs, hc⟩ := Arena.control?_eq_some.mp h
  have htake : S.arena.takeYield id = .ok (state.yielded,
      S.arena.setControl id (.selecting { state with yielded := none })) := by
    simp [Arena.takeYield, Arena.get, hs, hc, bind, Except.bind, pure, Except.pure]
  unfold takeYield
  rw [exec_bind_ok (exec_get S), htake]
  rfl

theorem exec_takeFallthrough {state : CaseState}
    (h : S.arena.control? id = some (.selecting state)) :
    (takeFallthrough id).exec S = (.ok state.fallthrough,
      { S with
        arena := S.arena.setControl id (.selecting { state with fallthrough := false }) }) := by
  obtain ⟨s, hs, hc⟩ := Arena.control?_eq_some.mp h
  have htake : S.arena.takeFallthrough id = .ok (state.fallthrough,
      S.arena.setControl id (.selecting { state with fallthrough := false })) := by
    simp [Arena.takeFallthrough, Arena.get, hs, hc, bind, Except.bind, pure, Except.pure]
  unfold takeFallthrough
  rw [exec_bind_ok (exec_get S), htake]
  rfl

/-- The choice of an arm; the arms chosen are among those given. -/
theorem Quiet.selectArms {P : Arm → Prop} {arms : List Arm} (hp : ∀ arm ∈ arms, P arm)
    (hq : ∀ arm ∈ arms, ∀ pattern ∈ arm.1, Quiet faulty names pattern) (subject : Value)
    {default : List Arm} (hd : ∀ arm ∈ default, P arm) (hr : S.Ready id) :
    Follows faulty S (selectArms (eval bound) id subject default arms)
      (chooseArms (eval bound) id subject default arms)
      fun chosen chosen' S' =>
        chosen = chosen' ∧ (∀ arm ∈ chosen', P arm) ∧ Kept names id S S' := by
  induction arms generalizing S default with
  | nil => exact .pure ⟨rfl, hd, .refl names hr⟩
  | cons arm rest ih =>
    obtain ⟨pattern, body⟩ := arm
    have hrest := fun arm harm => hp arm (List.mem_cons_of_mem _ harm)
    have hqrest := fun arm harm => hq arm (List.mem_cons_of_mem _ harm)
    cases pattern with
    | none =>
      rw [Session.selectArms, chooseArms]
      refine ih hrest hqrest ?_ hr
      split
      · exact hp
      · exact hd
    | some pattern =>
      rw [Session.selectArms, chooseArms]
      refine (Follows.evaluate (hq _ List.mem_cons_self pattern rfl bound S id hr)).bind ?_
      rintro v w S' ⟨rfl, -, hk⟩
      refine Follows.read (hk.ready hr).exec_halted ?_
      rw [if_neg Bool.false_ne_true]
      split
      · exact .pure ⟨rfl, hp, hk⟩
      · exact (ih hrest hqrest hd (hk.ready hr)).mono fun ⟨heq, hP, hk'⟩ =>
          ⟨heq, hP, hk.trans hr hk'⟩

section Case

variable {s : Scope} {b : ScopeId} {c : Completion} {S₁ R : Session}
  (hs : s.state = .select {}) (hw : Within s id b S S₁) (hr : S.Ready id)
include hs hw hr

/-- A case construct takes the value that an arm yields. -/
theorem exec_takeYield_yielding {v : Value} (he : Ends names ctx.inCase b S₁ (.yielding v) R) :
    ∃ R', (takeYield b).exec R = (.ok (some v), R') ∧ R'.calm = R.calm ∧
      Kept names id S (R'.closed b) := by
  obtain ⟨hcontrol, -, hback⟩ := hw.absorb hr rfl (by simp [Scope.route, hs]) he
  have hk := hback (.selecting {}) (by simp [Scope.control?, hs, ScopeState.control?])
  have hplain := (Completion.signalled he.plain rfl).2.2
  have hcalm : (R.arena.setControl b (.selecting {})).calm = R.arena.calm :=
    Arena.calm_setControl hcontrol rfl hplain rfl
  exact ⟨_, exec_takeYield hcontrol, by simp [calm, hcalm], hw.leave_kept hr hk⟩

/-- A case construct takes the fallthrough of an arm. -/
theorem exec_take_fallthrough (he : Ends names ctx.inCase b S₁ .fallthrough R) :
    (takeYield b).exec R = (.ok none, R) ∧
      ∃ R', (takeFallthrough b).exec R = (.ok true, R') ∧ R'.calm = R.calm ∧
        Kept names b S₁ R' := by
  obtain ⟨hcontrol, -, hback⟩ := hw.absorb hr rfl (by simp [Scope.route, hs]) he
  have hk := hback (.selecting {}) (by simp [Scope.control?, hs, ScopeState.control?])
  have hcalm : (R.arena.setControl b (.selecting {})).calm = R.arena.calm :=
    Arena.calm_setControl hcontrol rfl rfl rfl
  refine ⟨?_, _, exec_takeFallthrough hcontrol, by simp [calm, hcalm], hk⟩
  rw [exec_takeYield hcontrol, Arena.setControl_self hcontrol]

omit hr in
/-- A case construct takes nothing else. -/
theorem exec_take_leave (he : Ends names ctx.inCase b S₁ c R)
    (hc : ∀ {signal k}, c.mark = some (signal, k) → s.route signal ≠ .owns) :
    (takeYield b).exec R = (.ok none, R) ∧ (takeFallthrough b).exec R = (.ok false, R) := by
  have hcontrol : R.arena.control? b = some (.selecting {}) := by
    rw [hw.opens.control?_eq hc he.records]
    simp [Scope.control?, hs, ScopeState.control?]
  refine ⟨?_, ?_⟩
  · rw [exec_takeYield hcontrol, Arena.setControl_self hcontrol]
  · rw [exec_takeFallthrough hcontrol, Arena.setControl_self hcontrol]

/-- The arms of a case construct. -/
theorem Refines.arms (hco : Refines faulty names (eval bound) co)
    (hb : ∀ name, s.binds name = false) {arms : List Arm}
    (harms : ∀ arm ∈ arms, ∀ s ∈ arm.2, Sound faulty names ctx.inCase s)
    (hf : ctx.inCase.Fits names S₁.arena b) (hk : Kept names b S₁ R) :
    Follows faulty R (runArms (eval bound) b arms) (completeArms co b arms)
      fun v c R' => v.getD .null = c.value ∧ Ends names ctx id S c (R'.closed b) := by
  have hready := hw.ready hr (by rw [hs]; rfl)
  have hi : ctx.inCase.Inside ctx s := Context.inside_case hs hb
  induction arms generalizing R with
  | nil => exact .pure ⟨rfl, (hw.leave_kept hr hk).ends ctx .null⟩
  | cons arm rest ih =>
    obtain ⟨pattern, body⟩ := arm
    rw [runArms_cons, completeArms]
    refine (hco.block (harms _ List.mem_cons_self) (hk.ready hready)
      (hf.carries hk.arena.toCarries)).bind ?_
    rintro v c R₁ ⟨-, he⟩
    have he := he.after hready hk
    have hleave : (∀ {signal k}, c.mark = some (signal, k) → s.route signal ≠ .owns) →
        Follows faulty R₁ (afterArm (eval bound) b rest) (pure c.void : Run Completion)
        fun v c R' => v.getD .null = c.value ∧ Ends names ctx id S c (R'.closed b) := by
      intro hc
      obtain ⟨hyield, hfall⟩ := exec_take_leave hs hw he hc
      refine Follows.read hyield (Follows.read hfall (Follows.read (he.exec_halted hready) ?_))
      exact .pure ⟨by simp, (hw.leave hr hi he hc).void⟩
    cases c with
    | yielding v =>
      obtain ⟨R₂, hyield, hcalm, hkept⟩ := exec_takeYield_yielding hs hw hr he
      exact Follows.left hyield hcalm (.pure ⟨rfl, hkept.ends ctx v⟩)
    | fallthrough =>
      obtain ⟨hyield, R₂, hfall, hcalm, hk₂⟩ := exec_take_fallthrough hs hw hr he
      refine Follows.read hyield (Follows.left hfall hcalm ?_)
      refine Follows.read (hk₂.ready hready).exec_halted ?_
      exact ih (fun arm harm => harms arm (List.mem_cons_of_mem _ harm)) hk₂
    | normal _ => exact hleave fun hm => by cases hm
    | returning _ | breaking _ | continuing _ | throwing _ =>
      refine hleave fun {signal k} hm => ?_
      cases hm
      simp [Scope.route, hs]

end Case

theorem Refines.case (hco : Refines faulty names (eval bound) co) {arms : List Arm}
    (hp : ∀ arm ∈ arms, ∀ pattern ∈ arm.1, Quiet faulty names pattern)
    (harms : ∀ arm ∈ arms, ∀ s ∈ arm.2, Sound faulty names ctx.inCase s) (subject : Value)
    (hr : S.Ready id) (hf : ctx.Fits names S.arena id) :
    Follows faulty S (executeCase (eval bound) id subject arms)
      (completeCase (eval bound) co id subject arms)
      fun v c S' => v.getD .null = c.value ∧ Ends names ctx id S c S' := by
  have hw := hr.within_opened (.select {}) rfl
  have hb := Scope.binds_new (.select {}) rfl (some id) S.arena.nextSerial
  have hi : ctx.inCase.Inside ctx _ := Context.inside_case rfl hb
  have hready := hw.ready hr rfl
  refine Follows.inScope rfl
    ((Quiet.selectArms harms hp subject (List.forall_mem_nil _) hready).bind ?_) fun h => h
  rintro chosen _ R ⟨rfl, hchosen, hk⟩
  exact hco.arms rfl hw hr hb hchosen (hf.inside hi hw.opens hr.grounded) hk

end Session

end ScriptCore
