import ScriptCore.Proofs.Session.Drivers

/-!
# Traces

`Session.Traces y S path` says that the action `y`, when it is run from the session `S` on, leads
through the sessions `path` in this order, and that the last one is the session that is left. It
takes calls, threads and whatever else runs an inner action apart down to small steps.

A trace may come to its end early, with a fault. From every session there is a trace of every
scripted action (`Session.Scripted.traces`).
-/

namespace ScriptCore.Session

open Run

variable {α : Type} {S : Session} {x : ScopeId} {path : List Session}

/-- Running the action from the session `S` on leads through the sessions `path`. -/
inductive Traces : {α : Type} → Run α → Session → List Session → Prop
  /-- A small step. -/
  | step {α : Type} {x : ScopeId} {y : Run α} {S : Session}
      (hy : ∀ S : Session, S.Step x (y.exec S).2) : Traces y S [(y.exec S).2]
  /-- An action that is stopped, and another one that does not run any more. -/
  | stop {α β : Type} {y : Run α} {f : α → Run β} {S T : Session} {path : List Session}
      {stop : Stop} (hy : Traces y S path) (hexec : y.exec S = (.error stop, T)) :
      Traces (y >>= f) S path
  /-- One action after another. -/
  | bind {α β : Type} {y : Run α} {f : α → Run β} {S T : Session} {path path' : List Session}
      {a : α} (hy : Traces y S path) (hexec : y.exec S = (.ok a, T))
      (hf : Traces (f a) T path') : Traces (y >>= f) S (path ++ path')
  | outcome {α : Type} {y : Run α} {S : Session} {path : List Session} (hy : Traces y S path) :
      Traces (Run.outcome y) S path
  /-- Values are held, slots are taken, and the values are given up. -/
  | hold {size : Nat} {values : List Value} {scope : Option ScopeId} {S : Session}
      {path : List Session} (h : Traces (allocate size) (S.guarding values scope) path) :
      Traces (allocateHolding size values scope) S (S.guarding values scope ::
        path ++ [S.released ((allocate size).exec (S.guarding values scope)).2])
  | create {state : ScopeState} {outer : Option ScopeId} {S : Session} :
      Traces (createScope state outer) S [{ S with arena := (S.arena.create state outer).2 }]
  /-- A scope is entered, something is done in it, and it is left. -/
  | inScope {α : Type} {x : ScopeId} {state : ScopeState} {f : ScopeId → Run α} {S : Session}
      {path : List Session} (h : Traces (f (S.newScope state x)) (S.opened state x) path) :
      Traces (inScope state x f) S (S.opened state x :: path ++
        [((f (S.newScope state x)).exec (S.opened state x)).2.closed (S.newScope state x)])
  /-- Control state is set aside, something is done, and it is put back. -/
  | aside {α : Type} {x : ScopeId} {y : Run α} {S : Session} {path : List Session}
      (h : Traces y (S.parted x) path) :
      Traces (aside x y) S (S.parted x :: path ++ [(y.exec (S.parted x)).2.rejoined])
  /-- A call that is not accepted does nothing. -/
  | reject {x : ScopeId} {body : Callable → ScopeId → List Value → Run Value} {callee : Value}
      {args : List Value} {site : Position} {S : Session} (hc : ∀ c, ¬ S.Accepts callee args c) :
      Traces (callWith body callee args x site) S [S]
  /-- A call has made its scope, but there is no room for it on the stack. -/
  | overflow {x : ScopeId} {body : Callable → ScopeId → List Value → Run Value} {callee : Value}
      {args : List Value} {site : Position} {S : Session} {c : Callable}
      (hc : S.Accepts callee args c) (hfull : S.stack.limit < S.stack.depth + 1) :
      Traces (callWith body callee args x site) S [S.prepared c x]
  /-- A call makes its scope, is entered on the stack, runs, is left, and its value is taken. -/
  | call {x : ScopeId} {body : Callable → ScopeId → List Value → Run Value} {callee : Value}
      {args : List Value} {site : Position} {S : Session} {c : Callable} {path : List Session}
      (hc : S.Accepts callee args c) (hroom : ¬ S.stack.limit < S.stack.depth + 1)
      (h : Traces (activate body c args (S.activation c x)) (S.calling c x site) path) :
      Traces (callWith body callee args x site) S (S.prepared c x :: S.calling c x site :: path ++
        [((activate body c args (S.activation c x)).exec (S.calling c x site)).2.returned,
          ((callWith body callee args x site).exec S).2])
  /-- There is no request under the ticket. -/
  | absent {ev : Evaluator} {ticket : Nat} {S : Session}
      (hticket : S.threads.pending.lookup ticket = none) :
      Traces (runThread ev ticket) S [S.taken ticket]
  /-- The request of a ticket is taken off the table and served. -/
  | serve {ev : Evaluator} {ticket : Nat} {request : ThreadRequest} {S : Session}
      {path : List Session} (hticket : S.threads.pending.lookup ticket = some request)
      (h : Traces (runRequest ev ticket request) (S.taken ticket) path) :
      Traces (runThread ev ticket) S (S.taken ticket :: path)
  /-- A request is made, and waits. -/
  | park {ev : Evaluator} {callee : Value} {args : List Value} {daemon : Bool} {S : Session}
      (hshared : S.threads.shared = true) : Traces (spawnThread ev callee args daemon) S
        [S.asked ⟨callee, args⟩ (.spawned S.threads.nextTicket daemon)]
  /-- A request is made, and is served at once. -/
  | spawn {ev : Evaluator} {callee : Value} {args : List Value} {daemon : Bool} {S : Session}
      {path : List Session} (hshared : S.threads.shared = false)
      (h : Traces (runThread ev S.threads.nextTicket)
        (S.asked ⟨callee, args⟩ (.ranInline S.threads.nextTicket)) path) :
      Traces (spawnThread ev callee args daemon) S
        (S.asked ⟨callee, args⟩ (.ranInline S.threads.nextTicket) :: path)

/-- Leaving out the value of an action. -/
theorem Traces.discard {y : Run α} (h : Traces y S path) :
    ∃ path, Traces (do let _ ← y : Run Unit) S path := by
  rcases hexec : y.exec S with ⟨stop | a, T⟩
  · exact ⟨_, .stop h hexec⟩
  · exact ⟨_, .bind h hexec (.step fun S => .refl ⟨0⟩ S)⟩

theorem exists_traces_callWith {body : Callable → ScopeId → List Value → Run Value}
    {args : List Value}
    (hbody : ∀ c new S, ∃ path, Traces (activate body c args new) S path) (callee : Value)
    (site : Position) (S : Session) : ∃ path, Traces (callWith body callee args x site) S path := by
  by_cases haccepts : ∃ c, S.Accepts callee args c
  · obtain ⟨c, haccepts⟩ := haccepts
    by_cases hfull : S.stack.limit < S.stack.depth + 1
    · exact ⟨_, .overflow haccepts hfull⟩
    · obtain ⟨path, hpath⟩ := hbody c (S.activation c x) (S.calling c x site)
      exact ⟨_, .call haccepts hfull hpath⟩
  · exact ⟨_, .reject (not_exists.mp haccepts)⟩

theorem exists_traces_runThread {ev : Evaluator} {ticket : Nat}
    (hrun : ∀ request S, ∃ path, Traces (runRequest ev ticket request) S path) (S : Session) :
    ∃ path, Traces (runThread ev ticket) S path := by
  cases hticket : S.threads.pending.lookup ticket with
  | none => exact ⟨_, .absent hticket⟩
  | some request =>
    obtain ⟨path, hpath⟩ := hrun request (S.taken ticket)
    exact ⟨_, .serve hticket hpath⟩

/-- **A scripted action has a trace from every session.** -/
theorem Scripted.traces {y : Run α} (h : Scripted x y) (S : Session) : ∃ path, Traces y S path := by
  induction h generalizing S with
  | step h => exact ⟨_, .step h⟩
  | @bind _ _ _ y _ _ _ ihy ihf =>
    obtain ⟨path, hpath⟩ := ihy S
    rcases hexec : y.exec S with ⟨stop | a, T⟩
    · exact ⟨_, .stop hpath hexec⟩
    · obtain ⟨path', hpath'⟩ := ihf a T
      exact ⟨_, .bind hpath hexec hpath'⟩
  | outcome _ ih =>
    obtain ⟨path, hpath⟩ := ih S
    exact ⟨_, .outcome hpath⟩
  | hold _ values scope ih =>
    obtain ⟨path, hpath⟩ := ih (S.guarding values scope)
    exact ⟨_, .hold hpath⟩
  | create _ _ ih =>
    obtain ⟨path, hpath⟩ := ih _ _
    exact ⟨_, .bind .create rfl hpath⟩
  | inScope _ _ ih =>
    obtain ⟨path, hpath⟩ := ih _ _
    exact ⟨_, .inScope hpath⟩
  | aside _ ih =>
    obtain ⟨path, hpath⟩ := ih _
    exact ⟨_, .aside hpath⟩
  | call _ callee site ih => exact exists_traces_callWith ih callee site S
  | @thread x _ _ _ ih =>
    obtain ⟨path, hpath⟩ := ih _ _
    exact ⟨_, .bind (.step fun S => .refl x S) rfl (.inScope hpath)⟩
  | spawn callee args daemon _ ih =>
    cases hshared : S.threads.shared with
    | true => exact ⟨_, .park hshared⟩
    | false =>
      obtain ⟨path, hpath⟩ := exists_traces_runThread (ih _) _
      exact ⟨_, .spawn hshared hpath⟩

end ScriptCore.Session
