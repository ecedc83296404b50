import ScriptCore.Proofs.Control.Exceptions
import ScriptCore.Proofs.Control.Quiet

/-!
# Signals refine completions

Running statements with signals on scopes comes to the same as running them with completions, for
every program in which each signal has an owner. `Session.refines_eval` is the induction that puts
the lemmas about single constructs together, and `Session.executeSequence_refines` says what a whole
program does: the same lines, the same value, and a signal pending exactly where it belongs.
-/

namespace ScriptCore

open Run

namespace Session

variable {faulty : Prop} {names : List String} {ctx : Context} {id : ScopeId} {S S' : Session}
  {c : Completion} {signal : Signal} {k : Control}

/-! ## Statements that raise a signal -/

theorem Ready.exec_raise (hr : S.Ready id) (hf : ctx.Fits names S.arena id)
    (hk : Kept names id S S') (hm : c.mark = some (signal, k)) (ho : ctx.owned signal)
    (hp : c.plain = true) (f : Control → Control)
    (hfk : ∀ {old : Control}, old.takes signal = true → f old.cleared = k) :
    ∃ S'', (Run.modifyScopes fun a => a.raise id signal f).exec S' = (.ok (), S'') ∧
      S''.calm = S'.calm ∧ Ends names ctx id S c S'' := by
  obtain ⟨a, hraise, hcalm, he⟩ :=
    (hk.ready hr).raise (hf.carries hk.arena.toCarries) hm ho hp f hfk
  exact ⟨_, exec_modifyScopes (f := fun a => a.raise id signal f) hraise, by simp [calm, hcalm],
    he.after hr hk⟩

/-- A jump, after its value has been computed. -/
theorem Ready.jump (hr : S.Ready id) (hf : ctx.Fits names S.arena id) (hk : Kept names id S S')
    (hm : c.mark = some (signal, k)) (ho : ctx.owned signal) (hp : c.plain = true)
    (f : Control → Control) (hfk : ∀ {old : Control}, old.takes signal = true → f old.cleared = k) :
    Follows faulty S' (do Run.modifyScopes fun a => a.raise id signal f; return .null)
      (pure c : Run Completion) fun v c S'' => v = c.value ∧ Ends names ctx id S c S'' := by
  obtain ⟨S'', hexec, hcalm, he⟩ := hr.exec_raise hf hk hm ho hp f hfk
  exact Follows.left hexec hcalm (.pure ⟨(Completion.value_of_mark hm).symm, he⟩)

theorem mapFlags_cleared (f : LoopFlags → LoopFlags) (hs : (Control.looping {}).takes signal = true)
    {old : Control} (h : old.takes signal = true) :
    Arena.mapFlags f old.cleared = .looping (f {}) := by
  rw [Control.cleared_eq_of_takes hs h]
  rfl

theorem mapCase_cleared (f : CaseState → CaseState)
    (hs : (Control.selecting {}).takes signal = true) {old : Control}
    (h : old.takes signal = true) : Arena.mapCase f old.cleared = .selecting (f {}) := by
  rw [Control.cleared_eq_of_takes hs h]
  rfl

/-- A throw, after the value has been computed. -/
theorem Ready.throw (hr : S.Ready id) (hf : ctx.Fits names S.arena id) (hk : Kept names id S S')
    (ho : ctx.owned .throwing) {v : Value} (hv : v.reference? = none) :
    Follows faulty S' (do throwValue id v; return .null)
      (do
        let trace := (← get).stack.trace
        Run.report (.thrown v trace.length)
        return .throwing ⟨v, trace⟩ : Run Completion)
      fun v c S'' => v = c.value ∧ Ends names ctx id S c S'' := by
  have hk' : Kept names id S
      { S' with events := S'.events.push (.thrown v S'.stack.trace.length) } :=
    ⟨hk.arena, hk.entered, hk.stack⟩
  obtain ⟨S'', hexec, hcalm, he⟩ := hr.exec_raise hf hk' (c := .throwing ⟨v, S'.stack.trace⟩) rfl ho
    (by simp [Completion.plain, hv]) (fun _ => .catching (some ⟨v, S'.stack.trace⟩)) fun _ => rfl
  have hthrow : (do throwValue id v; return .null : Run Value).exec S' = (.ok .null, S'') := by
    unfold throwValue
    rw [bind_assoc, exec_bind_ok (exec_get S'), bind_assoc, exec_bind_ok (exec_report _ S')]
    exact exec_bind_ok hexec _
  refine .of_exec (b := .throwing ⟨v, S'.stack.trace⟩) hthrow ?_ ⟨rfl, he⟩
  rw [hcalm]
  rfl

/-! ## All statements -/

theorem completeStep_effect {ev : Evaluator} {co : Completer} {rounds : Nat} {node : Node}
    (h : node.isEffect = true) :
    completeStep ev co rounds node id = do return .normal (← step ev rounds node id) := by
  cases node <;> first | rfl | cases h

/-- **Running statements with signals refines running them with completions.** -/
theorem refines_eval (faulty : Prop) (names : List String) (bound : Nat) :
    Refines faulty names (eval bound) (complete bound) := by
  induction bound with
  | zero =>
    intro ctx node S id _ _ _
    exact .throw_exhausted
  | succ bound ih =>
    intro ctx node S id hsound hr hf
    have hkept := Kept.refl names hr
    change Follows faulty S (step (eval bound) bound node id)
      (completeStep (eval bound) (complete bound) bound node id) _
    cases hsound with
    | effect hn hq =>
      rw [completeStep_effect hn]
      exact (hq (bound + 1) S id hr).mapRight fun h => ⟨h.1, h.2.2.ends ctx _⟩
    | @cond _ _ yes no hc hyes hno =>
      refine (Follows.evaluate (hc bound S id hr)).bind ?_
      rintro v w S' ⟨rfl, -, hk⟩
      refine Follows.read (hk.ready hr).exec_halted ?_
      have hbranch : ∀ s ∈ if v.isTruthy then yes else no, Sound faulty names ctx s := by
        split
        · exact hyes
        · exact hno
      have hblock := ih.block hbranch (hk.ready hr) (hf.carries hk.arena.toCarries)
      exact hblock.bind fun {_ c _} h => .pure ⟨c.value_void.symm, h.2.void.after hr hk⟩
    | seq h => exact ih.sequence h hr hf
    | block h => exact ih.block h hr hf
    | loop hc ha h => exact (ih.loop hc ha h bound hr hf).mapLeft fun h => ⟨h.1.symm, h.2⟩
    | leave h => exact hr.jump hf hkept rfl h rfl _ (mapFlags_cleared _ rfl)
    | skip h => exact hr.jump hf hkept rfl h rfl _ (mapFlags_cleared _ rfl)
    | fallthrough h => exact hr.jump hf hkept rfl h rfl _ (mapCase_cleared _ rfl)
    | @ret _ value hq h =>
      cases value with
      | none => exact hr.jump hf hkept rfl h rfl (fun _ => .returning ⟨true, .null⟩) fun _ => rfl
      | some value =>
        refine (Follows.evaluate (hq value rfl bound S id hr)).bind ?_
        rintro v w S' ⟨rfl, hv, hk⟩
        refine Follows.read (hk.ready hr).exec_halted ?_
        exact hr.jump hf hk rfl h (by simp [Completion.plain, hv])
          (fun _ => .returning ⟨true, v⟩) fun _ => rfl
    | raise hq h =>
      refine (Follows.evaluate (hq bound S id hr)).bind ?_
      rintro v w S' ⟨rfl, hv, hk⟩
      exact hr.throw hf hk h hv
    | attempt hb hname hh hfinal =>
      exact (ih.attempt hb hname hh hfinal hr hf).mapLeft fun h => ⟨h.1.symm, h.2⟩
    | select hs hp h =>
      refine (Follows.evaluate (hs bound S id hr)).bind ?_
      rintro v w S' ⟨rfl, -, hk⟩
      have hcase := ih.case hp h v (hk.ready hr) (hf.carries hk.arena.toCarries)
      exact hcase.mapLeft fun h => ⟨h.1, h.2.after hr hk⟩
    | yield hq h =>
      refine (Follows.evaluate (hq bound S id hr)).bind ?_
      rintro v w S' ⟨rfl, hv, hk⟩
      exact hr.jump hf hk rfl h (by simp [Completion.plain, hv]) _ (mapCase_cleared _ rfl)

/-! ## Programs -/

/-- A new session is ready to run statements in its outermost scope. -/
theorem ready_new (options : Options) : (Session.new options).Ready ⟨0⟩ := by
  have habove : ∀ {x : ScopeId}, Arena.new.Above ⟨0⟩ x → x = ⟨0⟩ := by
    intro x hx
    induction hx with
    | self => rfl
    | outer _ hs ho _ =>
      rw [(Arena.get?_new hs).2] at ho
      cases ho
    | calling _ hs hc _ =>
      rw [(Arena.get?_new hs).2] at hc
      cases hc
  refine ⟨Arena.orderly_new, fun x hx => ?_, .inl rfl, fun owner hsees c hc => ?_⟩
  · rw [habove hx]
    exact ⟨_, rfl⟩
  · rw [habove hsees.above] at hc
    cases hc
    rfl

/-- **A program run with signals does what it does with completions.** Let nothing be pending at
first, and let each signal of the program have an owner. If the program ends with the completion
`c`, then:

* the run with signals ends too, with the same value, and all but the signals is the same
  afterwards, the lines written among it;
* statements stop afterwards exactly if `c` is not normal;
* the one thing pending in sight is the signal of `c`, and it is pending at its owner;
* besides, no scope above, no scope in use and no call has been touched.

If the bound on evaluation cuts the program off then it cuts off the run with signals too. There is
no third way to end unless a part of the program can fault. -/
theorem executeSequence_refines (faulty : Prop) (names : List String) (bound : Nat) {S : Session}
    {id : ScopeId} {program : List Node} (hr : S.Ready id)
    (hp : ∀ s ∈ program, Sound faulty names (.of S.arena id) s) :
    (∀ c T, (completeSequence (complete bound) id program).exec S.calm = (.ok c, T) →
      ∃ S', (executeSequence (eval bound) id program).exec S = (.ok c.value, S') ∧
        S'.calm = T ∧ S'.output = T.output ∧
        (halted id).exec S' = (.ok c.mark.isSome, S') ∧
        (∀ owner k, (owner, k) ∈ S'.arena.pendingAt (S'.arena.controlOwners id) ↔
          ∃ signal, c.mark = some (signal, k) ∧ S.arena.owner id signal = .ok owner) ∧
        S.arena.Records names id c.mark S'.arena ∧ S'.entered = S.entered ∧ S'.stack = S.stack) ∧
    (∀ T, (completeSequence (complete bound) id program).exec S.calm = (.error .exhausted, T) →
      ∃ S', (executeSequence (eval bound) id program).exec S = (.error .exhausted, S')) ∧
    ∀ fault T, (completeSequence (complete bound) id program).exec S.calm
      = (.error (.fault fault), T) → faulty := by
  have hfits := Context.fits_of names S.arena id
  have hfollows := Refines.sequence (refines_eval faulty names bound) hp hr hfits
  refine ⟨fun c T hT => ?_, fun T hT => hfollows.exhausted hT, fun _ T hT => hfollows.fault hT⟩
  obtain ⟨v, S', hexec, hcalm, rfl, he⟩ := hfollows.ok hT
  have hsignalled : Arena.Signalled c.mark := Completion.signalled he.plain
  have houtput : S'.output = T.output := by
    rw [← hcalm]
    rfl
  refine ⟨S', hexec, hcalm, houtput, he.exec_halted hr, fun owner k => ?_, he.records, he.entered,
    he.stack⟩
  rw [he.records.mem_pendingAt_iff hr.orderly hr.grounded hr.clear hsignalled]
  simp only [Arena.owner_eq_ok_iff]

/-- **A program whose parts cannot fault does not fault.** It ends, or the bound on evaluation cuts
it off. -/
theorem executeSequence_ends (names : List String) (bound : Nat) (hr : S.Ready id)
    {program : List Node} (hp : ∀ s ∈ program, Sound False names (.of S.arena id) s) :
    ∃ S', (∃ v, (executeSequence (eval bound) id program).exec S = (.ok v, S')) ∨
      (executeSequence (eval bound) id program).exec S = (.error .exhausted, S') := by
  have hfits := Context.fits_of names S.arena id
  have hfollows := Refines.sequence (refines_eval False names bound) hp hr hfits
  rcases hrun : (completeSequence (complete bound) id program).exec S.calm with ⟨stop | c, T⟩
  · cases stop with
    | fault cause => exact (hfollows.fault hrun).elim
    | exhausted =>
      obtain ⟨S', hexec⟩ := hfollows.exhausted hrun
      exact ⟨S', .inr hexec⟩
  · obtain ⟨v, S', hexec, -⟩ := hfollows.ok hrun
    exact ⟨S', .inl ⟨v, hexec⟩⟩

/-- A loop that goes on from its first round and is left in the second, from the handler of a `try`
statement with a final block; and a case construct that falls through and yields. -/
def nestedJumps : List Node :=
  [.define false "i" (.lit (.int 0)),
    .loop (some "outer") (some (.less "i" 3)) (some (.increment "i"))
      [.cond (.equal "i" 0) [.skip none] [],
        .attempt [.raise (.lit (.int 7))]
          (some ("e", [.emit "caught", .leave (some "outer"), .emit "skipped"]))
          (some [.emit "final"])],
    .select (.lit (.int 1))
      [(some (.lit (.int 1)), [.emit "one", .fallthrough]),
        (none, [.emit "two", .yield (.lit (.int 5))])]]

theorem sound_nestedJumps :
    ∀ s ∈ nestedJumps, Sound True ["e"] (.of (Session.new {}).arena ⟨0⟩) s := by
  have hnumber : ∀ n : Int64, Quiet True ["e"] (.lit (.int n)) := fun n => quiet_lit rfl
  have hemit : ∀ (ctx : Context) (line : String), Sound True ["e"] ctx (.emit line) :=
    fun ctx line => .effect rfl (quiet_emit line)
  have hfree : (Context.of (Session.new {}).arena ⟨0⟩).free "e" := by
    change (Session.new {}).arena.isDeclared ⟨0⟩ "e" = .ok false
    decide +kernel
  unfold nestedJumps
  simp only [List.forall_mem_cons]
  refine ⟨.effect rfl (quiet_define trivial false _ (by decide)), ?_, ?_, nofun⟩
  · refine .loop ?_ ?_ ?_
    · rintro _ ⟨⟩
      exact quiet_less trivial "i" 3
    · rintro _ ⟨⟩
      exact quiet_increment trivial "i"
    · simp only [List.forall_mem_cons]
      refine ⟨.cond (quiet_equal trivial "i" 0) ?_ nofun, .attempt ?_ ?_ ?_ ?_, nofun⟩
      · rw [List.forall_mem_singleton]
        exact .skip (.inl rfl)
      · rw [List.forall_mem_singleton]
        exact .raise (hnumber 7) (.inl rfl)
      · rintro _ ⟨⟩
        exact ⟨List.mem_singleton.mpr rfl, hfree⟩
      · rintro _ ⟨⟩
        simp only [List.forall_mem_cons]
        exact ⟨hemit _ _, .leave (.inl rfl), hemit _ _, nofun⟩
      · rintro _ ⟨⟩
        rw [List.forall_mem_singleton]
        exact hemit _ _
  · refine .select (hnumber 1) ?_ ?_
    · simp only [List.forall_mem_cons]
      refine ⟨?_, nofun, nofun⟩
      rintro _ ⟨⟩
      exact hnumber 1
    · simp only [List.forall_mem_cons]
      exact ⟨⟨hemit _ _, .fallthrough trivial, nofun⟩,
        ⟨hemit _ _, .yield (hnumber 5) trivial, nofun⟩, nofun⟩

theorem executeSequence_refines_nestedJumps :
    (Session.new {}).Ready ⟨0⟩ ∧
      (∀ s ∈ nestedJumps, Sound True ["e"] (.of (Session.new {}).arena ⟨0⟩) s) ∧
      ∃ S', (executeSequence (eval 6) ⟨0⟩ nestedJumps).exec (Session.new {}) = (.ok (.int 5), S') ∧
        S'.output = #["caught", "final", "one", "two"] ∧
        (halted ⟨0⟩).exec S' = (.ok false, S') := by
  refine ⟨ready_new {}, sound_nestedJumps, ?_⟩
  have hvalue : ((completeSequence (complete 6) ⟨0⟩ nestedJumps).exec (Session.new {}).calm).1
      = .ok (.normal (.int 5)) := by decide +kernel
  have hlines :
      ((completeSequence (complete 6) ⟨0⟩ nestedJumps).exec (Session.new {}).calm).2.output
      = #["caught", "final", "one", "two"] := by decide +kernel
  generalize hrun : (completeSequence (complete 6) ⟨0⟩ nestedJumps).exec (Session.new {}).calm = run
    at hvalue hlines
  obtain ⟨c, T⟩ := run
  cases hvalue
  obtain ⟨S', hexec, -, houtput, hhalted, -⟩ :=
    (executeSequence_refines True ["e"] 6 (ready_new {}) sound_nestedJumps).1 _ _ hrun
  exact ⟨S', hexec, houtput.trans hlines, hhalted⟩

end Session

end ScriptCore
