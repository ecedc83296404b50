import ScriptCore.Proofs.Session.Traces

/-!
# Balanced registries

Whatever a script does, when it has ended the registries of the session are as they were: the calls,
the scopes that have been entered, the number of guarded values, and whose control state is set
aside. This is `Session.Balanced`, proved by induction on traces; each of the ways to run an inner
action undoes its own entry, since the inner action has left it on top.

In none of the sessions of a trace are there more calls than the limit allows
(`Session.Traces.extends`), and a call is refused for this reason exactly if the limit has been
reached (`Session.refuses_iff`). Everything is put together in `Session.evaluation_balanced`.
-/

namespace ScriptCore.Session

open Run

variable {α : Type} {S T U : Session} {x : ScopeId} {path : List Session}

/-! ## Balance -/

/-- The registries of a session are those of another one. -/
structure Balanced (S T : Session) : Prop where
  stack : T.stack = S.stack
  entered : T.entered = S.entered
  guarded : T.memory.guarded.length = S.memory.guarded.length
  suspended : T.arena.suspended.map (·.owners) = S.arena.suspended.map (·.owners)

namespace Balanced

theorem refl (S : Session) : Balanced S S := ⟨rfl, rfl, rfl, rfl⟩

theorem trans (h : Balanced S T) (h' : Balanced T U) : Balanced S U :=
  ⟨h'.stack.trans h.stack, h'.entered.trans h.entered, h'.guarded.trans h.guarded,
    h'.suspended.trans h.suspended⟩

end Balanced

theorem Step.balanced (h : S.Step x T) : Balanced S T := by
  cases h with
  | say events output => exact ⟨rfl, rfl, rfl, rfl⟩
  | rebind h => exact ⟨rfl, rfl, rfl, congrArg _ h.frame.1⟩
  | signal h => exact ⟨rfl, rfl, rfl, congrArg _ h.frame.1⟩
  | heap h => exact ⟨rfl, rfl, rfl, rfl⟩
  | collect extra => exact ⟨rfl, rfl, rfl, congrArg _ (S.arena.frame_sweep _).2.2⟩
  | slide =>
    refine ⟨rfl, rfl, List.length_map _, ?_⟩
    -- moving the references that are set aside leaves their owners
    change (S.arena.suspended.map _).map _ = _
    rw [List.map_map]
    rfl

/-- Guards that are released take their values with them. -/
theorem Balanced.release {values : List Value} {scope : Option ScopeId}
    (h : Balanced (S.guarding values scope) T) : Balanced S (S.released T) := by
  refine ⟨h.stack, rfl, ?_, h.suspended⟩
  have hlength : T.memory.guarded.length = (S.memory.guarded ++ values).length := h.guarded
  simp [released, hlength]

/-- The scope that has been entered last is the one to be left. -/
theorem Balanced.close {state : ScopeState} (h : Balanced (S.opened state x) T) :
    Balanced S (T.closed (S.newScope state x)) := by
  refine ⟨h.stack, ?_, h.guarded, ?_⟩
  · have hentered : T.entered = S.newScope state x :: S.entered := h.entered
    change T.entered.erase (S.newScope state x) = S.entered
    rw [hentered, List.erase_cons_head]
  · exact h.suspended.trans (congrArg _ (S.arena.frame_create state (some x)).2)

theorem Balanced.rejoin (h : Balanced (S.parted x) T) : Balanced S T.rejoined := by
  refine ⟨h.stack, h.entered, h.guarded, ?_⟩
  have hsuspended : T.arena.suspended.map (·.owners) =
      S.arena.controlOwners x :: S.arena.suspended.map (·.owners) := h.suspended
  obtain ⟨s, rest, hs, -, hrest⟩ := List.map_eq_cons_iff.mp hsuspended
  exact (congrArg _ (Arena.edited_restoreControl hs).suspended).trans hrest

/-- The call that has been entered last is the one to be left. -/
theorem Balanced.leave {c : Callable} {site : Position}
    (h : Balanced (S.calling c x site) T) : Balanced S T.returned := by
  refine ⟨?_, h.entered, h.guarded, h.suspended.trans (congrArg _ (S.arena.frame_create _ _).2)⟩
  change { T.stack with frames := T.stack.frames.tail } = S.stack
  rw [h.stack]
  rfl

theorem Balanced.call {body : Callable → ScopeId → List Value → Run Value} {callee : Value}
    {args : List Value} {site : Position} {c : Callable} (haccepts : S.Accepts callee args c)
    (hroom : ¬ S.stack.limit < S.stack.depth + 1)
    (h : Balanced (S.calling c x site)
      ((activate body c args (S.activation c x)).exec (S.calling c x site)).2) :
    Balanced S ((callWith body callee args x site).exec S).2 := by
  rw [exec_callWith body x site haccepts, if_neg hroom]
  have hinner := h.leave
  dsimp only
  generalize (activate body c args (S.activation c x)).exec (S.calling c x site) = result
    at hinner ⊢
  obtain ⟨stop | value, T⟩ := result
  · exact hinner
  · refine ⟨hinner.stack, hinner.entered, hinner.guarded, ?_⟩
    exact (congrArg _ (T.arena.signals_takeReturn _).frame.1).trans hinner.suspended

/-- **An action leaves the registries balanced, however it ends.** -/
theorem Traces.balanced {y : Run α} (h : Traces y S path) : Balanced S (y.exec S).2 := by
  induction h with
  | @step _ _ _ S hy => exact (hy S).balanced
  | stop _ hexec ih =>
    rw [exec_bind_error hexec]
    rw [hexec] at ih
    exact ih
  | bind _ hexec _ ihy ihf =>
    rw [exec_bind_ok hexec]
    rw [hexec] at ihy
    exact ihy.trans ihf
  | outcome _ ih =>
    rw [exec_outcome]
    exact ih
  | hold _ ih =>
    rw [exec_allocateHolding rfl]
    exact ih.release
  | @create state outer S => exact ⟨rfl, rfl, rfl, congrArg _ (S.arena.frame_create _ _).2⟩
  | inScope _ ih =>
    rw [exec_inScope]
    exact ih.close
  | aside _ ih =>
    rw [exec_aside]
    exact ih.rejoin
  | @reject x body _ _ site S hc =>
    obtain ⟨fault, -, hexec⟩ := exec_callWith_rejected body x site hc
    rw [hexec]
    exact .refl S
  | @overflow x body _ _ site S _ hc hfull =>
    rw [exec_callWith body x site hc, if_pos hfull]
    exact ⟨rfl, rfl, rfl, congrArg _ (S.arena.frame_create _ _).2⟩
  | call hc hroom _ ih => exact ih.call hc hroom
  | absent hticket =>
    rw [exec_runThread, hticket]
    exact ⟨rfl, rfl, rfl, rfl⟩
  | serve hticket _ ih =>
    rw [exec_runThread, hticket]
    exact ⟨ih.stack, ih.entered, ih.guarded, ih.suspended⟩
  | park hshared =>
    rw [exec_spawnThread, if_pos hshared]
    exact ⟨rfl, rfl, rfl, rfl⟩
  | spawn hshared _ ih =>
    rw [exec_spawnThread, hshared]
    exact ⟨ih.stack, ih.entered, ih.guarded, ih.suspended⟩

/-! ## The limit -/

/-- The calls of a stack are still active in another one, under the same limit. -/
structure StackExtends (s t : CallStack) : Prop where
  frames : s.frames <:+ t.frames
  limit : t.limit = s.limit
  /-- There are not too many calls. -/
  depth_le : s.depth ≤ s.limit → t.depth ≤ t.limit

namespace StackExtends

variable {s t u : CallStack}

theorem refl (s : CallStack) : StackExtends s s := ⟨List.suffix_rfl, rfl, id⟩

theorem trans (h : StackExtends s t) (h' : StackExtends t u) : StackExtends s u :=
  ⟨h.frames.trans h'.frames, h'.limit.trans h.limit, h'.depth_le ∘ h.depth_le⟩

/-- At the limit there are no further calls. -/
theorem eq_of_full (h : StackExtends s t) (hs : s.depth = s.limit) : t = s := by
  have hdepth := h.depth_le hs.le
  have hlimit := h.limit
  have hframes : s.frames = t.frames := by
    refine h.frames.eq_of_length_le ?_
    unfold CallStack.depth at hdepth hs
    omega
  obtain ⟨frames, limit⟩ := s
  obtain ⟨frames', limit'⟩ := t
  cases hframes
  cases hlimit
  rfl

end StackExtends

/-- **On its way an action only adds calls**, and not more than the limit allows. -/
theorem Traces.extends {y : Run α} (h : Traces y S path) :
    ∀ T ∈ path, StackExtends S.stack T.stack := by
  -- the first and the last sessions have the old stack, those between come from the inner action
  induction h with
  | @step _ _ _ S hy =>
    rw [List.forall_mem_singleton, (hy S).balanced.stack]
    exact .refl _
  | stop _ _ ih | outcome _ ih => exact ih
  | bind hy hexec _ ihy ihf =>
    have hstack := hy.balanced.stack
    rw [hexec] at hstack
    rw [List.forall_mem_append]
    exact ⟨ihy, hstack ▸ ihf⟩
  | hold h ih =>
    rw [List.forall_mem_append, List.forall_mem_cons, List.forall_mem_singleton]
    exact ⟨⟨.refl _, ih⟩, h.balanced.release.stack ▸ .refl _⟩
  | create | overflow | absent | park =>
    rw [List.forall_mem_singleton]
    exact .refl _
  | inScope h ih =>
    rw [List.forall_mem_append, List.forall_mem_cons, List.forall_mem_singleton]
    exact ⟨⟨.refl _, ih⟩, h.balanced.close.stack ▸ .refl _⟩
  | aside h ih =>
    rw [List.forall_mem_append, List.forall_mem_cons, List.forall_mem_singleton]
    exact ⟨⟨.refl _, ih⟩, h.balanced.rejoin.stack ▸ .refl _⟩
  | reject =>
    rw [List.forall_mem_singleton]
    exact .refl _
  | @call x _ _ _ site S c _ hc hroom h ih =>
    have hcalling : StackExtends S.stack (S.calling c x site).stack :=
      ⟨List.suffix_cons _ _, rfl, fun _ => Nat.not_lt.mp hroom⟩
    rw [List.forall_mem_append, List.forall_mem_cons, List.forall_mem_cons, List.forall_mem_cons,
      List.forall_mem_singleton]
    exact ⟨⟨.refl _, hcalling, fun T hT => hcalling.trans (ih T hT)⟩,
      h.balanced.leave.stack ▸ .refl _, (h.balanced.call hc hroom).stack ▸ .refl _⟩
  | serve _ _ ih | spawn _ _ ih =>
    rw [List.forall_mem_cons]
    exact ⟨.refl _, ih⟩

/-- The call is refused because of the limit, and no call is entered on the stack. -/
def Refuses (S : Session) (call : Run Value) (site : Position) : Prop :=
  (call.exec S).1 = .error (.fault (.stackOverflow (S.stack.limit + 1) S.stack.limit site)) ∧
    ∀ path, Traces call S path → ∀ T ∈ path, T.stack = S.stack

/-- **A call is refused exactly if it is accepted and the limit has been reached.** -/
theorem refuses_iff (hS : S.stack.depth ≤ S.stack.limit)
    {body : Callable → ScopeId → List Value → Run Value} {args : List Value}
    (hbody : ∀ c new S, ∃ path, Traces (activate body c args new) S path) (callee : Value)
    (site : Position) :
    S.Refuses (callWith body callee args x site) site ↔
      (∃ c, S.Accepts callee args c) ∧ S.stack.depth = S.stack.limit := by
  constructor
  · rintro ⟨hfault, hstack⟩
    by_cases haccepts : ∃ c, S.Accepts callee args c
    · refine ⟨haccepts, Nat.le_antisymm hS (Nat.not_lt.mp fun hlt => ?_)⟩
      -- with room left, the call is entered on the stack
      obtain ⟨c, haccepts⟩ := haccepts
      obtain ⟨path, hpath⟩ := hbody c (S.activation c x) (S.calling c x site)
      have hcalling := hstack _ (.call haccepts (by omega) hpath) (S.calling c x site) (by simp)
      have hlength := congrArg (fun s : CallStack => s.frames.length) hcalling
      exact absurd hlength (Nat.succ_ne_self _)
    · obtain ⟨fault, hother, hexec⟩ :=
        exec_callWith_rejected body x site (not_exists.mp haccepts)
      rw [hexec] at hfault
      cases hfault
      exact absurd rfl (hother _ _ _)
  · rintro ⟨⟨c, haccepts⟩, hdepth⟩
    refine ⟨?_, fun path hpath T hT => (hpath.extends T hT).eq_of_full hdepth⟩
    rw [exec_callWith body x site haccepts, if_pos (by omega), hdepth]

/-! ## Evaluation -/

/-- What can be asked of the evaluation of scripts. -/
inductive Task
  /-- Evaluate a node. -/
  | evaluate (node : Node) (scope : ScopeId)
  /-- Run statements. -/
  | sequence (scope : ScopeId) (body : List Node)
  /-- Run a block. -/
  | block (scope : ScopeId) (body : List Node)
  /-- Run a loop. -/
  | loop (rounds : Nat) (scope : ScopeId) (title : Option String) (condition action : Option Node)
      (body : List Node)
  /-- Run a `try` statement. -/
  | attempt (scope : ScopeId) (body : List Node) (handler : Option (String × List Node))
      (final : Option (List Node))
  /-- Run a case construct. -/
  | select (scope : ScopeId) (subject : Value) (arms : List Arm)
  /-- Call a function. -/
  | call (callee : Value) (args : List Value) (caller : ScopeId) (site : Position)
  /-- Serve a thread request. -/
  | thread (ticket : Nat)

/-- Carry out a task, with `ev` for the nodes. -/
def Task.run (ev : Evaluator) : Task → Run Unit
  | evaluate node scope => do let _ ← Session.evaluate ev node scope
  | sequence scope body => do let _ ← executeSequence ev scope body
  | block scope body => do let _ ← executeBlock ev scope body
  | loop rounds scope title condition action body =>
    executeLoop ev rounds scope title condition action body
  | attempt scope body handler final => executeTry ev scope body handler final
  | select scope subject arms => do let _ ← executeCase ev scope subject arms
  | call callee args caller site => do let _ ← Session.call ev callee args caller site
  | thread ticket => do let _ ← runThread ev ticket

theorem Task.traces {ev : Evaluator} (hev : Scripting ev) (task : Task) (S : Session) :
    ∃ path, Traces (task.run ev) S path := by
  cases task with
  | evaluate node scope => exact (Scripted.evaluate hev node).discard.traces S
  | sequence scope body => exact (Scripted.sequence hev .null body).discard.traces S
  | block scope body => exact (Scripted.block hev body).discard.traces S
  | loop rounds scope title condition action body =>
    exact (Scripted.loop hev rounds title condition action body).traces S
  | attempt scope body handler final => exact (Scripted.attempt hev body handler final).traces S
  | select scope subject arms => exact (Scripted.case hev subject arms).discard.traces S
  | call callee args caller site => exact (Scripted.callFrom hev callee args site).discard.traces S
  | thread ticket =>
    obtain ⟨path, hpath⟩ := exists_traces_runThread (fun request =>
      (Scripted.runRequest (x := S.arena.global) hev ticket request).traces) S
    exact hpath.discard

/-- **Evaluation leaves the registries balanced.** Let nodes be evaluated in any way that raises
signals only from the scope of evaluation and from scopes made inside it. Whatever is evaluated, in
whatever session in which there are not more calls than the limit allows, and however it ends: the
calls and the entered scopes are those there were, there are as many guarded values, and control
state is set aside for the same scopes. In all sessions on the way there are not more calls than the
limit allows, and there a call is refused for this reason exactly if callee and number of arguments
are right and the limit has been reached. -/
theorem evaluation_balanced {ev : Evaluator} (hev : Scripting ev) (task : Task) {S : Session}
    (hS : S.stack.depth ≤ S.stack.limit) :
    Balanced S ((task.run ev).exec S).2 ∧ (∃ path, Traces (task.run ev) S path) ∧
      ∀ path, Traces (task.run ev) S path → ∀ T ∈ S :: path, T.stack.depth ≤ T.stack.limit ∧
        ∀ callee args caller site, T.Refuses (call ev callee args caller site) site ↔
          (∃ c, T.Accepts callee args c) ∧ T.stack.depth = T.stack.limit := by
  obtain ⟨path₀, hpath₀⟩ := task.traces hev S
  refine ⟨hpath₀.balanced, ⟨path₀, hpath₀⟩, fun path hpath T hT => ?_⟩
  have hdepth : T.stack.depth ≤ T.stack.limit := by
    rcases List.mem_cons.mp hT with rfl | hT
    · exact hS
    · exact (hpath.extends T hT).depth_le hS
  refine ⟨hdepth, fun callee args caller site => refuses_iff hdepth (fun c new => ?_) callee site⟩
  exact (Scripted.activation hev _ c args new).traces

/-- A function that calls itself, where two calls are allowed. -/
def selfCalling : Session :=
  let made := ((newFunction "f" [] (.call (.var "f") [] ⟨2, 1⟩) ⟨0⟩).exec
    (Session.new { heapSize := 8, stackLimit := 2 })).2
  ((defineVar ⟨0⟩ "f" (.ref ⟨1⟩)).exec made).2

/-- The third call is refused, and the stack is empty again. -/
theorem evaluation_balanced_selfCalling :
    selfCalling.stack.depth ≤ selfCalling.stack.limit ∧
      (((Task.call (.ref ⟨1⟩) [] ⟨0⟩ ⟨1, 1⟩).run (eval 9)).exec selfCalling).2.stack.depth = 0 := by
  have hdepth : selfCalling.stack.depth ≤ selfCalling.stack.limit := by decide
  have h := (evaluation_balanced (scripting_eval 9) (.call (.ref ⟨1⟩) [] ⟨0⟩ ⟨1, 1⟩) hdepth).1
  exact ⟨hdepth, congrArg CallStack.depth h.stack⟩

end ScriptCore.Session
