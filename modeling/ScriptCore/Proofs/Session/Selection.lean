import ScriptCore.Proofs.Session.Requests

/-!
# Which arm of a case construct runs

The subject of a case construct is a value that is held outside the session while the patterns are
evaluated. If it names an object, and a pattern makes a compaction move the object, then the subject
still has the slot at which the object was.

`Session.Trials` follows the object through the evaluation of the patterns. The arm that runs is the
first whose value is the subject as it was given (`Session.Trials.exec_executeCase`). So the arm
whose pattern denotes the object is found if and only if the object has not been moved until then
(`Session.case_follows_slots`), and which arm runs may depend on the size of the heap
(`Session.case_depends_on_heapSize`).
-/

namespace ScriptCore

theorem Value.equals_ref (v : Value) (r : Ref) : v.equals (.ref r) = decide (v = .ref r) := by
  cases v <;> rfl

namespace Session

open Run

variable {ev : Evaluator} {S T last : Session} {x : ScopeId} {r now : Ref}

/-- A compaction moves objects down, if it moves them at all. -/
theorem Trail.slot_le {kept : Ref → Prop} {moves : List Forwarding} {path : List Session}
    (h : Trail kept moves path S T) (hr : kept r)
    (hlive : (S.memory.heap.header? r).isSome = true) : (relocate moves r).slot ≤ r.slot := by
  induction h with
  | start => exact Nat.le_refl _
  | work _ _ ih | collect _ _ _ ih => exact ih hlive
  | slide h hw ih =>
    obtain ⟨header, hheader⟩ := Option.isSome_iff_exists.mp (h.live hr hlive)
    rw [relocate_append]
    exact Nat.le_trans (hw.tiled.resolve_le hheader) (ih hlive)

/-! ## The patterns -/

/-- What has come of the pattern of an arm. -/
structure Trial where
  /-- The arms from this one on. -/
  arms : List Arm
  /-- The value of the pattern. -/
  value : Value
  /-- Where the object is that the subject named. -/
  now : Ref
  /-- The session in which the pattern has been evaluated. -/
  after : Session

/-- The pattern denotes the object that the subject named. -/
def Trial.denotes (t : Trial) : Bool := decide (t.value = .ref t.now)

/-- The value of the pattern is the reference `r`. -/
def Trial.is (r : Ref) (t : Trial) : Bool := decide (t.value = .ref r)

/-- The patterns of arms are evaluated in the scope `x` one after the other. Each gives a value and
leaves no signal pending, and the object that was at `now` is not freed on the way. -/
inductive Trials (ev : Evaluator) (x : ScopeId) :
    (now : Ref) → Session → List Arm → List Trial → (last : Session) → Prop
  | nil {now : Ref} {S : Session} : Trials ev x now S [] [] S
  | default {now : Ref} {S last : Session} {body : List Node} {rest : List Arm}
      {trials : List Trial} (h : Trials ev x now S rest trials last) :
      Trials ev x now S ((none, body) :: rest) trials last
  | pattern {now : Ref} {S T last : Session} {pattern : Node} {body : List Node} {rest : List Arm}
      {v : Value} {path : List Session} {moves : List Forwarding} {trials : List Trial}
      (hexec : (evaluate ev pattern x).exec S = (.ok v, T))
      (hcalm : (T.arena.hasException x || T.arena.interrupted x) = false)
      (htraces : Traces (evaluate ev pattern x) S path) (htrail : Trail (· = now) moves path S T)
      (h : Trials ev x (relocate moves now) T rest trials last) :
      Trials ev x now S ((some pattern, body) :: rest)
        (⟨(some pattern, body) :: rest, v, relocate moves now, T⟩ :: trials) last

/-- The arms to run: those from the one that was found on, or else from the default on. -/
def chosen (arms : List Arm) (found : Option Trial) : List Arm :=
  (found.map (·.arms)).getD (arms.dropWhile (·.1.isSome))

namespace Trials

variable {arms : List Arm} {trials : List Trial}

/-- The search for an arm ends at the first pattern whose value is the subject. -/
theorem exec_selectArms (h : Trials ev x now S arms trials last) (r : Ref) (default : List Arm) :
    (selectArms ev x (.ref r) default arms).exec S =
      (.ok (((trials.find? (·.is r)).map (·.arms)).getD
        (if default.isEmpty then arms.dropWhile (·.1.isSome) else default)),
      ((trials.find? (·.is r)).map (·.after)).getD last) := by
  induction h generalizing default with
  | nil => cases default <;> rfl
  | default _ ih =>
    rw [selectArms, ih]
    cases default <;> rfl
  | @pattern now S T last pattern body rest v path moves trials hexec hcalm _ _ _ ih =>
    have hhalted : (halted x).exec T = (.ok false, T) := by
      rw [← hcalm]
      rfl
    rw [selectArms, exec_bind_ok hexec, exec_bind_ok hhalted, Value.equals_ref, List.find?_cons]
    by_cases hv : v = .ref r
    · simp [Trial.is, hv]
    · simp [Trial.is, hv, ih]

/-- **Which arm runs.** -/
theorem exec_executeCase
    (h : Trials ev (S.newScope (.select {}) x) now (S.opened (.select {}) x) arms trials last)
    (r : Ref) :
    let case_ := S.newScope (.select {}) x
    let found := trials.find? (·.is r)
    let result :=
      (runArms ev case_ (chosen arms found)).exec ((found.map (·.after)).getD last)
    (executeCase ev x (.ref r) arms).exec S = (result.1, result.2.closed case_) := by
  unfold executeCase
  rw [exec_inScope, exec_bind_ok (h.exec_selectArms r [])]
  rfl

/-- The object is there after each of the patterns. -/
theorem live (h : Trials ev x now S arms trials last)
    (hlive : (S.memory.heap.header? now).isSome = true) :
    ∀ t ∈ trials, (t.after.memory.heap.header? t.now).isSome = true := by
  induction h with
  | nil => exact List.forall_mem_nil _
  | default _ ih => exact ih hlive
  | pattern _ _ _ htrail _ ih =>
    have hnow := htrail.live rfl hlive
    exact List.forall_mem_cons.mpr ⟨hnow, ih hnow⟩

/-- From one pattern to the next the object is moved down, if at all. -/
theorem pairwise (h : Trials ev x now S arms trials last)
    (hlive : (S.memory.heap.header? now).isSome = true) :
    (∀ t ∈ trials, t.now.slot ≤ now.slot) ∧ trials.Pairwise fun t u => u.now.slot ≤ t.now.slot := by
  induction h with
  | nil => exact ⟨List.forall_mem_nil _, .nil⟩
  | default _ ih => exact ih hlive
  | pattern _ _ _ htrail _ ih =>
    obtain ⟨hle, hpairwise⟩ := ih (htrail.live rfl hlive)
    have hfirst := htrail.slot_le rfl hlive
    exact ⟨List.forall_mem_cons.mpr ⟨hfirst, fun t ht => Nat.le_trans (hle t ht) hfirst⟩,
      .cons hle hpairwise⟩

/-- The first pattern that denotes the object is the first that is the subject, as long as the
object is where it was. -/
theorem find?_is (h : Trials ev x r S arms trials last)
    (hlive : (S.memory.heap.header? r).isSome = true) {t : Trial}
    (ht : trials.find? Trial.denotes = some t) :
    trials.find? (·.is r) = some t ↔ t.now = r := by
  obtain ⟨hdenotes, before, after, hsplit, hbefore⟩ := List.find?_eq_some_iff_append.mp ht
  have hvalue : t.value = .ref t.now := of_decide_eq_true hdenotes
  constructor
  · intro hfound
    have his : t.is r = true := List.find?_some hfound
    exact Value.ref.inj (hvalue.symm.trans (of_decide_eq_true his))
  · intro hnow
    obtain ⟨hle, hpairwise⟩ := h.pairwise hlive
    rw [hsplit] at hle hpairwise
    refine List.find?_eq_some_iff_append.mpr
      ⟨decide_eq_true (hnow ▸ hvalue), before, after, hsplit, fun u hu => ?_⟩
    -- an object that is where it was has been there all the time
    have hup : t.now.slot ≤ u.now.slot :=
      (List.pairwise_append.mp hpairwise).2.2 u hu t List.mem_cons_self
    have hdown : u.now.slot ≤ r.slot := hle u (List.mem_append_left _ hu)
    have hsame : u.now = r := by
      rw [hnow] at hup
      exact congrArg Ref.mk (Nat.le_antisymm hdown hup)
    have hother := hbefore u hu
    rwa [Trial.denotes, hsame] at hother

end Trials

/-- **Case constructs follow slots.** Let the subject name an object that is not freed while the
patterns are evaluated, let each pattern give a value and leave no signal pending, and let there be
collections and compactions meanwhile. The first arm to run is the one whose pattern has the subject
as it was given for its value, or the default, or none. The first arm whose pattern denotes the
object is this one if and only if the object has not been moved until its pattern was evaluated;
and if no pattern denotes the object and it has not been moved then no pattern is found. -/
theorem case_follows_slots (hr : (S.memory.heap.header? r).isSome = true) {arms : List Arm}
    {trials : List Trial}
    (h : Trials ev (S.newScope (.select {}) x) r (S.opened (.select {}) x) arms trials last) :
    let case_ := S.newScope (.select {}) x
    let found := trials.find? (·.is r)
    let result :=
      (runArms ev case_ (chosen arms found)).exec ((found.map (·.after)).getD last)
    (executeCase ev x (.ref r) arms).exec S = (result.1, result.2.closed case_) ∧
      (∀ t ∈ trials, (t.after.memory.heap.header? t.now).isSome = true) ∧
      (∀ t, trials.find? Trial.denotes = some t → (found = some t ↔ t.now = r)) ∧
      (trials.find? Trial.denotes = none → (∀ t ∈ trials, t.now = r) → found = none) := by
  refine ⟨h.exec_executeCase r, h.live hr, fun t ht => h.find?_is hr ht, fun hnone hsame => ?_⟩
  refine List.find?_eq_none.mpr fun t ht => ?_
  have hother := List.find?_eq_none.mp hnone t ht
  rwa [Trial.denotes, hsame t ht] at hother

/-! ## Objects that are moved -/

section Patterns

variable {v : Value} {body : List Node} {rest : List Arm} {trials : List Trial}

/-- A pattern that ends with a value. -/
theorem Trials.node {node : Node} {path : List Session} {moves : List Forwarding}
    (hexec : (ev node x).exec S = (.ok v, T)) (htraces : Traces (ev node x) S path)
    (htrail : Trail (· = now) moves path S T) (hw : T.memory.heap.WellFormed)
    (hcalm : (T.arena.hasException x || T.arena.interrupted x) = false)
    (h : Trials ev x (relocate moves now) T rest trials last) :
    Trials ev x now S ((some node, body) :: rest)
      (⟨(some node, body) :: rest, v, relocate moves now, T⟩ :: trials) last := by
  have houtcome : (Run.outcome (ev node x)).exec S = (.ok (.ok v), T) := by
    rw [exec_outcome, hexec]
  exact .pattern (exec_bind_ok houtcome _) hcalm
    (.bind (.outcome htraces) houtcome (.step fun S => .refl x S)) (htrail.work (.refl hw)) h

/-- A variable as a pattern. -/
theorem Trials.var {n : Nat} {name : String} (hw : S.memory.heap.WellFormed)
    (hlookup : S.arena.lookup S.memory.heap x name = .ok v)
    (hcalm : (S.arena.hasException x || S.arena.interrupted x) = false)
    (h : Trials (eval (n + 1)) x now S rest trials last) :
    Trials (eval (n + 1)) x now S ((some (.var name), body) :: rest)
      (⟨(some (.var name), body) :: rest, v, now, S⟩ :: trials) last := by
  have hget : (Run.ofExcept (S.arena.lookup S.memory.heap x name)).exec S = (.ok v, S) := by
    rw [hlookup, exec_ofExcept_ok]
  have htraces : Traces (Run.ofExcept (S.arena.lookup S.memory.heap x name)) S [S] := by
    rw [hlookup]
    exact .step fun S => .refl x S
  have htrail : Trail (· = now) [] ([S] ++ [S]) S S :=
    ((Trail.start S).work (.refl hw)).work (.refl hw)
  exact .node ((exec_bind_ok (exec_get S) _).trans hget)
    (.bind (.step fun S => .refl x S) (exec_get S) htraces) htrail hw hcalm h

/-- A pattern that slides the objects together. -/
theorem Trials.compact {n : Nat} (hw : S.memory.heap.WellFormed)
    (hkept : ((S.collected none).memory.heap.header? now).isSome = true) :
    let swept := S.collected none
    let forwarding := (ScriptCore.compact swept.memory swept.arena).1
    (swept.slid.arena.hasException x || swept.slid.arena.interrupted x) = false →
      Trials (eval (n + 1)) x (forwarding.resolve now) swept.slid rest trials last →
      Trials (eval (n + 1)) x now S ((some .compact, body) :: rest)
        (⟨(some .compact, body) :: rest, .int (Int64.ofNat forwarding.length),
          forwarding.resolve now, swept.slid⟩ :: trials) last := by
  intro swept forwarding hcalm h
  have hw' := wellFormed_collected hw none
  have hcollect := exec_collectFrom hw none
  have hboth : collectAndSlide.exec S = (.ok forwarding.length, swept.slid) :=
    (exec_bind_ok hcollect _).trans (exec_slide hw')
  have hcollected : ((collectFrom none).exec S).2 = swept := by rw [hcollect]
  have hslid : (slide.exec swept).2 = swept.slid := by rw [exec_slide hw']
  have htraces : Traces collectAndSlide S ([swept] ++ [swept.slid]) := by
    have hsteps : Traces collectAndSlide S _ :=
      .bind (.step (x := x) (Scripted.step_collectFrom none)) hcollect
        (.step (x := x) Scripted.step_slide)
    rwa [hcollected, hslid] at hsteps
  have hswept : Trail (· = now) [] [swept] S swept :=
    (Trail.start S).collect none (by rintro r rfl; exact hkept)
  have htrail : Trail (· = now) [forwarding] ([swept] ++ [swept.slid] ++ [swept.slid]) S
      swept.slid :=
    (hswept.slide hw').work (.refl (wellFormed_slid hw'))
  exact .node (exec_bind_ok hboth _)
    (.bind htraces hboth (.step fun S => .refl x S)) htrail (wellFormed_slid hw') hcalm h

/-- A pattern that slides the objects together, and after it a variable that names the object. -/
theorem exists_trials_moved (n : Nat) {name : String} (first second third : List Node)
    (hw : S.memory.heap.WellFormed)
    (hkept : ((S.collected none).memory.heap.header? r).isSome = true) :
    let swept := S.collected none
    let forwarding := (ScriptCore.compact swept.memory swept.arena).1
    (swept.slid.arena.hasException x || swept.slid.arena.interrupted x) = false →
      swept.slid.arena.lookup swept.slid.memory.heap x name = .ok (.ref (forwarding.resolve r)) →
      ∃ trials t, Trials (eval (n + 1)) x r S
          [(some .compact, first), (some (.var name), second), (none, third)] trials swept.slid ∧
        trials.find? Trial.denotes = some t ∧ t.now = forwarding.resolve r := by
  intro swept forwarding hcalm hlookup
  have hw' := wellFormed_slid (wellFormed_collected hw none)
  refine ⟨_, ⟨[(some (.var name), second), (none, third)], .ref (forwarding.resolve r),
    forwarding.resolve r, swept.slid⟩,
    .compact hw hkept hcalm (.var hw' hlookup hcalm (.default .nil)), ?_, rfl⟩
  simp [Trial.denotes, forwarding, swept]

end Patterns

/-- There is garbage, and behind it an array that the outermost scope names. -/
def cluttered (heapSize : Nat) : Session :=
  let garbage := ((Operation.newArray [.int 0]).run.exec (Session.new { heapSize })).2
  let made := ((Operation.newArray []).run.exec garbage).2
  ((Operation.defineVar ⟨0⟩ "x" (.ref ⟨3⟩)).run.exec made).2

theorem cluttered_attained : Attained (eval 4) { heapSize := 8 } (cluttered 8) := by
  refine ⟨_, .snoc (.snoc (.snoc .nil (.operate (.newArray [.int 0])) fun _ hc => nomatch hc)
    (.operate (.newArray [])) fun _ hc => nomatch hc)
    (.operate (.defineVar ⟨0⟩ "x" (.ref ⟨3⟩))) fun c hc => .inr ?_⟩
  have hcells : c = .scope ⟨0⟩ ∨ c = .object ⟨3⟩ := by
    simpa [Turn.mentions, Operation.mentions, Cell.ofValues, Value.reference?, Ref.isNull] using hc
  rcases hcells with rfl | rfl
  · change Arena.contains _ _ = true
    decide +kernel
  · change Option.isSome _ = true
    decide +kernel

/-- The session in which a case construct has been entered and garbage has been collected. -/
def clutteredCase : Session := ((cluttered 8).opened (.select {}) ⟨0⟩).collected none

/-- The object is moved while the patterns are evaluated, and the arm of the pattern that denotes it
is not found. -/
theorem case_follows_slots_cluttered : ∃ trials last t,
    Trials (eval 4) ((cluttered 8).newScope (.select {}) ⟨0⟩) ⟨3⟩
        ((cluttered 8).opened (.select {}) ⟨0⟩)
        [(some .compact, []), (some (.var "x"), []), (none, [])] trials last ∧
      trials.find? Trial.denotes = some t ∧ trials.find? (·.is ⟨3⟩) ≠ some t := by
  have hlive : ((cluttered 8).memory.heap.header? ⟨3⟩).isSome = true := by decide +kernel
  have hw : (cluttered 8).memory.heap.WellFormed :=
    (cluttered_attained.sane (scripting_eval 4)).wellFormed
  have hkept : (clutteredCase.memory.heap.header? ⟨3⟩).isSome = true := by decide +kernel
  have hcalm : (clutteredCase.slid.arena.hasException ((cluttered 8).newScope (.select {}) ⟨0⟩) ||
      clutteredCase.slid.arena.interrupted ((cluttered 8).newScope (.select {}) ⟨0⟩)) = false := by
    decide +kernel
  have hmoved : (compact clutteredCase.memory clutteredCase.arena).1.resolve ⟨3⟩ = ⟨1⟩ := by decide +kernel
  have hlookup : clutteredCase.slid.arena.lookup clutteredCase.slid.memory.heap
      ((cluttered 8).newScope (.select {}) ⟨0⟩) "x" = .ok (.ref ⟨1⟩) := by
    decide +kernel
  rw [← hmoved] at hlookup
  obtain ⟨trials, t, htrials, hdenotes, hnow⟩ :=
    exists_trials_moved (S := (cluttered 8).opened (.select {}) ⟨0⟩) 3 [] [] [] hw hkept hcalm
      hlookup
  refine ⟨trials, _, t, htrials, hdenotes, fun hfound => ?_⟩
  have hsame := ((case_follows_slots hlive htrials).2.2.1 t hdenotes).mp hfound
  rw [hnow.trans hmoved] at hsame
  cases hsame

/-- The pattern makes a large array, and then has the object for its value. -/
def crowding : List Arm :=
  [(some (.seq [.array [.lit (.int 1), .lit (.int 2), .lit (.int 3), .lit (.int 4), .lit (.int 5)],
      .var "x"]), [.emit "same object"]),
    (none, [.emit "another object"])]

/-- **Which arm runs depends on the size of the heap.** In the small heap the large array makes a
compaction move the object, and its pattern is missed. -/
theorem case_depends_on_heapSize :
    ((executeCase (eval 4) ⟨0⟩ (.ref ⟨3⟩) crowding).exec (cluttered 8)).1 = .ok none ∧
      ((executeCase (eval 4) ⟨0⟩ (.ref ⟨3⟩) crowding).exec (cluttered 8)).2.output =
        #["another object"] ∧
      ((executeCase (eval 4) ⟨0⟩ (.ref ⟨3⟩) crowding).exec (cluttered 16)).1 = .ok none ∧
      ((executeCase (eval 4) ⟨0⟩ (.ref ⟨3⟩) crowding).exec (cluttered 16)).2.output =
        #["same object"] := by
  refine ⟨?_, ?_, ?_, ?_⟩
  · decide +kernel
  · decide +kernel
  · decide +kernel
  · decide +kernel

end Session

end ScriptCore
