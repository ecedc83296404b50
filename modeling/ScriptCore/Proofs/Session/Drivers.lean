import ScriptCore.Proofs.Control.Simulation
import ScriptCore.Proofs.Session.Scripts

/-!
# Runs of calls and threads

What runs an action and cleans up after it is taken apart here: setting control state aside, calling
a function, serving and making a thread request. Each lemma gives the session in which the inner
action runs and the one that is left when it has ended, however it ended.
-/

namespace ScriptCore.Session

open Run

variable {α : Type}

/-! ## Setting control state aside -/

/-- The session in which the control state that can be seen from `x` has been set aside. -/
def parted (S : Session) (x : ScopeId) : Session := { S with arena := S.arena.suspendControl x }

/-- The session in which the control state that was set aside last has been put back. -/
def rejoined (S : Session) : Session := { S with arena := S.arena.restoreControl }

theorem exec_aside (x : ScopeId) (y : Run α) (S : Session) :
    (aside x y).exec S = ((y.exec (S.parted x)).1, (y.exec (S.parted x)).2.rejoined) := by
  unfold aside
  rw [exec_bind_ok (exec_modify _ S), exec_bind_ok (exec_outcome _ _),
    exec_bind_ok (exec_modify _ _), exec_ofOutcome]
  rfl

/-! ## Calls -/

/-- The callee is a callable object that takes as many arguments. -/
def Accepts (S : Session) (callee : Value) (args : List Value) (c : Callable) : Prop :=
  ∃ r marked, callee.reference? = some r ∧ S.memory.heap.header? r = some ⟨.callable c, marked⟩ ∧
    args.length = c.params.length

/-- The scope that a call makes. -/
def activation (S : Session) (c : Callable) (caller : ScopeId) : ScopeId :=
  (S.arena.create (activationState c caller) (some (c.closure.getD S.arena.global))).1

/-- The session in which a call has made its scope. -/
def prepared (S : Session) (c : Callable) (caller : ScopeId) : Session :=
  { S with arena :=
      (S.arena.create (activationState c caller) (some (c.closure.getD S.arena.global))).2 }

/-- The session in which a call runs. -/
def calling (S : Session) (c : Callable) (caller : ScopeId) (site : Position) : Session :=
  { S.prepared c caller with
    stack := { S.stack with frames := ⟨c.name, S.activation c caller, site⟩ :: S.stack.frames } }

/-- The session in which a call has been left. -/
def returned (S : Session) : Session := { S with stack := S.stack.pop.2 }

section Call

variable {S : Session} {callee : Value} {args : List Value} {c : Callable}

theorem exec_callableOf (h : S.Accepts callee args c) :
    (callableOf callee).exec S = (.ok c, S) := by
  obtain ⟨r, marked, hcallee, hr, -⟩ := h
  unfold callableOf
  rw [hcallee]
  dsimp only
  rw [exec_bind_ok (exec_memory (Memory.header_eq_ok.mpr hr)), exec_pure]

variable (body : Callable → ScopeId → List Value → Run Value) (caller : ScopeId) (site : Position)

/-- A call that is not accepted does nothing, and it is no overflow of the stack. -/
theorem exec_callWith_rejected (h : ∀ c, ¬ S.Accepts callee args c) :
    ∃ fault, (∀ depth limit position, fault ≠ .stackOverflow depth limit position) ∧
      (callWith body callee args caller site).exec S = (.error (.fault fault), S) := by
  unfold callWith callableOf
  cases hcallee : callee.reference? with
  | none => exact ⟨.notCallable _, fun _ _ _ h => (nomatch h), rfl⟩
  | some r =>
    dsimp only
    cases hr : S.memory.heap.header? r with
    | none =>
      have hheader : S.memory.header r = .error (.invalidReference r.slot) := by
        unfold Memory.header Heap.header
        rw [hr]
      rw [bind_assoc, exec_bind_error (exec_memory_error hheader)]
      exact ⟨.invalidReference _, fun _ _ _ h => (nomatch h), rfl⟩
    | some header =>
      rw [bind_assoc, exec_bind_ok (exec_memory (Memory.header_eq_ok.mpr hr))]
      obtain ⟨data, marked⟩ := header
      cases data with
      | callable c =>
        have hlength : args.length ≠ c.params.length :=
          fun heq => h c ⟨r, marked, hcallee, hr, heq⟩
        refine ⟨.argumentCountMismatch c.name c.params.length args.length,
          fun _ _ _ h => (nomatch h), ?_⟩
        dsimp only
        rw [pure_bind, if_pos hlength, exec_bind_error (exec_fail _ S)]
      | _ => exact ⟨.notCallable _, fun _ _ _ h => (nomatch h), rfl⟩

/-- What a call comes to that is accepted. -/
theorem exec_callWith (h : S.Accepts callee args c) :
    (callWith body callee args caller site).exec S =
      if S.stack.limit < S.stack.depth + 1 then
        (.error (.fault (.stackOverflow (S.stack.depth + 1) S.stack.limit site)),
          S.prepared c caller)
      else
        let new := S.activation c caller
        let (result, T) := (activate body c args new).exec (S.calling c caller site)
        match result with
        | .error stop => (.error stop, T.returned)
        | .ok value =>
          (.ok ((T.arena.takeReturn new).1.getD value),
            { T.returned with arena := (T.arena.takeReturn new).2 }) := by
  have hlength : ¬ args.length ≠ c.params.length := not_not.mpr h.choose_spec.choose_spec.2.2
  unfold callWith
  rw [exec_bind_ok (exec_callableOf h), if_neg hlength]
  change Run.exec (do
    pushFrame ⟨c.name, S.activation c caller, site⟩
    let result ← Run.outcome (activate body c args (S.activation c caller))
    let _ ← popFrame
    let value ← Run.ofOutcome result
    return (← Run.takeScopes (·.takeReturn (S.activation c caller))).getD value)
      (S.prepared c caller) = _
  by_cases hfull : S.stack.limit < S.stack.depth + 1
  · have hpush : (pushFrame ⟨c.name, S.activation c caller, site⟩).exec (S.prepared c caller) =
        (.error (.fault (.stackOverflow (S.stack.depth + 1) S.stack.limit site)),
          S.prepared c caller) := by
      unfold pushFrame CallStack.push
      rw [exec_bind_ok (exec_get _), if_pos (by exact hfull)]
      rfl
    rw [if_pos hfull, exec_bind_error hpush]
  · have hpush : (pushFrame ⟨c.name, S.activation c caller, site⟩).exec (S.prepared c caller) =
        (.ok (), S.calling c caller site) := by
      unfold pushFrame CallStack.push
      rw [exec_bind_ok (exec_get _), if_neg (by exact hfull)]
      rfl
    rw [if_neg hfull, exec_bind_ok hpush, exec_bind_ok (exec_outcome _ _)]
    dsimp only
    rcases (activate body c args (S.activation c caller)).exec (S.calling c caller site) with
      ⟨_ | value, T⟩ <;> rfl

end Call

/-! ## Threads -/

/-- The session in which the request of a ticket has been taken off the table. -/
def taken (S : Session) (ticket : Nat) : Session :=
  { S with threads := (S.threads.take ticket).2 }

/-- The session in which a request waits, and an event has been reported. -/
def asked (S : Session) (request : ThreadRequest) (e : Event) : Session :=
  { S with threads := S.threads.park request, events := S.events.push e }

variable (ev : Evaluator) (S : Session)

theorem exec_runThread (ticket : Nat) :
    (runThread ev ticket).exec S = match S.threads.pending.lookup ticket with
      | none => (.ok none, S.taken ticket)
      | some request => (runRequest ev ticket request).exec (S.taken ticket) := by
  unfold runThread
  rw [exec_bind_ok (exec_modifyGet _ S)]
  have htake : (S.threads.take ticket).1 = S.threads.pending.lookup ticket := rfl
  cases h : S.threads.pending.lookup ticket with
  | none =>
    rw [h] at htake
    simp only [htake]
    rfl
  | some request =>
    rw [h] at htake
    simp only [htake]
    rfl

theorem exec_spawnThread (callee : Value) (args : List Value) (daemon : Bool) :
    (spawnThread ev callee args daemon).exec S =
      if S.threads.shared then
        (.ok S.threads.nextTicket,
          S.asked ⟨callee, args⟩ (.spawned S.threads.nextTicket daemon))
      else
        let (result, T) := (runThread ev S.threads.nextTicket).exec
          (S.asked ⟨callee, args⟩ (.ranInline S.threads.nextTicket))
        (result.map fun _ => S.threads.nextTicket, T) := by
  unfold spawnThread
  rw [exec_bind_ok (exec_get S)]
  dsimp only
  rw [exec_bind_ok (exec_modify _ S)]
  split
  · rfl
  · rw [exec_bind_ok (exec_report _ _)]
    change Run.exec (do
      let _ ← runThread ev S.threads.nextTicket
      return S.threads.nextTicket)
        (S.asked ⟨callee, args⟩ (.ranInline S.threads.nextTicket)) = _
    rw [exec_bind]
    rcases (runThread ev S.threads.nextTicket).exec
      (S.asked ⟨callee, args⟩ (.ranInline S.threads.nextTicket)) with ⟨_ | value, T⟩ <;> rfl

end ScriptCore.Session
