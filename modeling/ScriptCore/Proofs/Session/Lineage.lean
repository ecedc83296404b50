import ScriptCore.Proofs.Scope.Descent
import ScriptCore.Proofs.Session.Requests

/-!
# The lineage of scopes

The sessions that an action passes through are `Session.Along` a path. From one to the next nothing
happens but a small step: a scope is made, or scopes are changed, reclaimed in a collection, or have
their references replaced (`Session.Advances`, and `Session.Steps.advances` for what a turn does).

`Session.Rooted` are the runs in which a scope that is made is given parents that are there at the
time, in whatever way it comes to be made: by an operation, for a block or a loop of a script, for a
call or for a thread. There the scopes are founded, so that all walks have an end
(`Session.walks_end`).
-/

namespace ScriptCore.Session

open Run

variable {α : Type} {ev : Evaluator} {options : Options} {S T U : Session} {x : ScopeId}
  {path path' : List Session}

/-! ## Step by step -/

/-- The sessions `path` lead from one session to another one, each related to the next. -/
inductive Along (R : Session → Session → Prop) : Session → List Session → Session → Prop
  | nil (S : Session) : Along R S [] S
  | cons {S T U : Session} {path : List Session} (h : R S T) (hrest : Along R T path U) :
      Along R S (T :: path) U

variable {R : Session → Session → Prop}

theorem Along.single (h : R S T) : Along R S [T] T := .cons h (.nil T)

theorem Along.append (h : Along R S path T) (h' : Along R T path' U) :
    Along R S (path ++ path') U := by
  induction h with
  | nil => exact h'
  | cons h _ ih => exact .cons h (ih h')

/-- Memory and scopes are in good order. -/
structure Ordered (S : Session) : Prop where
  wellFormed : S.memory.heap.WellFormed
  orderly : S.arena.Orderly

/-- What may become of a session in one step. -/
structure Advances (S T : Session) : Prop where
  ordered : T.Ordered
  tends : S.arena.Tends T.arena

theorem Along.ordered (h : Along Advances S path T) (hS : S.Ordered) : T.Ordered := by
  induction h with
  | nil => exact hS
  | cons h _ ih => exact ih h.ordered

namespace Ordered

variable (hS : S.Ordered)
include hS

/-- The scopes have been changed. -/
theorem edit (hheap : T.memory.heap = S.memory.heap) (h : S.arena.Tends T.arena) : S.Advances T :=
  have ⟨_, hages⟩ := h.ages
  ⟨⟨hheap ▸ hS.wellFormed, hages.orderly⟩, h⟩

/-- Neither the heap nor the scopes have changed. -/
theorem rest (hheap : T.memory.heap = S.memory.heap) (harena : T.arena = S.arena) :
    S.Advances T :=
  hS.edit hheap (by rw [harena]; exact .refl hS.orderly)

theorem create {state : ScopeState} {outer : Option ScopeId}
    (hheap : T.memory.heap = S.memory.heap) (harena : T.arena = (S.arena.create state outer).2) :
    S.Advances T :=
  hS.edit hheap (by rw [harena]; exact Arena.tends_create hS.orderly state outer)

end Ordered

theorem Step.advances (h : S.Step x T) (hS : S.Ordered) : S.Advances T := by
  cases h with
  | say events output => exact hS.rest rfl rfl
  | rebind h => exact hS.edit rfl (h.tends hS.orderly)
  | signal h => exact hS.edit rfl (h.tends hS.orderly)
  | heap h => exact ⟨⟨(h hS.wellFormed).wellFormed, hS.orderly⟩, .refl hS.orderly⟩
  | collect extra =>
    have htends := Arena.tends_collect hS.wellFormed hS.orderly (S.rootSet extra)
    obtain ⟨_, hages⟩ := htends.ages
    exact ⟨⟨wellFormed_collected hS.wellFormed extra, hages.orderly⟩, htends⟩
  | slide =>
    have htends := Arena.tends_mapRefs hS.orderly (compact S.memory S.arena).1.resolve
    obtain ⟨_, hages⟩ := htends.ages
    exact ⟨⟨wellFormed_slid hS.wellFormed, hages.orderly⟩, htends⟩

theorem Shift.advances (h : S.Shift T) (hS : S.Ordered) : S.Advances T := by
  cases h with
  | registry hheap harena _ => exact hS.rest hheap harena
  | create state outer hheap harena _ => exact hS.create hheap harena
  | suspend x => exact hS.edit rfl (Arena.tends_suspendControl hS.orderly x)
  | restore => exact hS.edit rfl (Arena.tends_restoreControl hS.orderly)

/-! ## Actions -/

/-- What comes before an inner action and after it leaves the sessions between as they are. -/
theorem Along.wrap {first last : Session} (hfirst : R S first) (h : Along R first path T)
    (hlast : R T last) : Along R S (first :: path ++ [last]) last :=
  (Along.cons hfirst h).append (.single hlast)

/-- A call that is entered on the stack, run and left. -/
theorem Ordered.call (hS : S.Ordered) {body : Callable → ScopeId → List Value → Run Value}
    {callee : Value} {args : List Value} {site : Position} {c : Callable}
    (haccepts : S.Accepts callee args c) (hroom : ¬ S.stack.limit < S.stack.depth + 1)
    (h : (S.calling c x site).Ordered → Along Advances (S.calling c x site) path
      ((activate body c args (S.activation c x)).exec (S.calling c x site)).2) :
    Along Advances S (S.prepared c x :: S.calling c x site :: path ++
      [((activate body c args (S.activation c x)).exec (S.calling c x site)).2.returned,
        ((callWith body callee args x site).exec S).2])
      ((callWith body callee args x site).exec S).2 := by
  have hprepared : S.Advances (S.prepared c x) := hS.create rfl rfl
  have hcalling : (S.prepared c x).Advances (S.calling c x site) := hprepared.ordered.rest rfl rfl
  have hran := h hcalling.ordered
  rw [exec_callWith body x site haccepts, if_neg hroom]
  dsimp only
  generalize (activate body c args (S.activation c x)).exec (S.calling c x site) = result at hran ⊢
  obtain ⟨result, T⟩ := result
  have hT : T.Ordered := hran.ordered hcalling.ordered
  have hreturned : T.Advances T.returned := hT.rest rfl rfl
  refine (Along.cons hprepared (.cons hcalling hran)).append (.cons hreturned (.single ?_))
  cases result with
  | error stop => exact hreturned.ordered.rest rfl rfl
  | ok value =>
    exact hreturned.ordered.edit rfl
      ((T.arena.signals_takeReturn (S.activation c x)).tends hT.orderly)

/-- **An action advances step by step along its traces.** -/
theorem Traces.advances {y : Run α} (h : Traces y S path) (hS : S.Ordered) :
    Along Advances S path (y.exec S).2 := by
  induction h with
  | @step _ _ _ S hy => exact .single ((hy S).advances hS)
  | stop _ hexec ih =>
    rw [exec_bind_error hexec]
    have hfirst := ih hS
    rwa [hexec] at hfirst
  | bind _ hexec _ ihy ihf =>
    rw [exec_bind_ok hexec]
    have hfirst := ihy hS
    rw [hexec] at hfirst
    exact hfirst.append (ihf (hfirst.ordered hS))
  | outcome _ ih =>
    rw [exec_outcome]
    exact ih hS
  | @hold size values scope S _ _ ih =>
    rw [exec_allocateHolding rfl]
    have hfirst : S.Advances (S.guarding values scope) := hS.rest rfl rfl
    have hran := ih hfirst.ordered
    exact .wrap hfirst hran ((hran.ordered hfirst.ordered).rest rfl rfl)
  | create => exact .single (hS.create rfl rfl)
  | @inScope _ x state f S _ _ ih =>
    rw [exec_inScope]
    have hfirst : S.Advances (S.opened state x) := hS.create rfl rfl
    have hran := ih hfirst.ordered
    exact .wrap hfirst hran ((hran.ordered hfirst.ordered).rest rfl rfl)
  | @aside _ x y S _ _ ih =>
    rw [exec_aside]
    have hfirst := (Shift.suspend x).advances hS
    have hran := ih hfirst.ordered
    exact .wrap hfirst hran (Shift.restore.advances (hran.ordered hfirst.ordered))
  | @reject x body _ _ site S hc =>
    obtain ⟨fault, -, hexec⟩ := exec_callWith_rejected body x site hc
    rw [hexec]
    exact .single (hS.rest rfl rfl)
  | @overflow x body _ _ site S _ hc hfull =>
    rw [exec_callWith body x site hc, if_pos hfull]
    exact .single (hS.create rfl rfl)
  | call hc hroom _ ih => exact hS.call hc hroom ih
  | absent hticket =>
    rw [exec_runThread, hticket]
    exact .single (hS.rest rfl rfl)
  | @serve _ ticket _ S _ hticket _ ih =>
    rw [exec_runThread, hticket]
    have hfirst : S.Advances (S.taken ticket) := hS.rest rfl rfl
    exact .cons hfirst (ih hfirst.ordered)
  | park hshared =>
    rw [exec_spawnThread, if_pos hshared]
    exact .single (hS.rest rfl rfl)
  | @spawn _ callee args _ S _ hshared _ ih =>
    rw [exec_spawnThread, hshared]
    have hfirst : S.Advances (S.asked ⟨callee, args⟩ (.ranInline S.threads.nextTicket)) :=
      hS.rest rfl rfl
    exact .cons hfirst (ih hfirst.ordered)

/-- The sessions through which a turn leads, one after each small step. -/
inductive Steps (y : Run α) (S : Session) : List Session → Prop
  | traces {path : List Session} (h : Traces y S path) : Steps y S path
  | shift (h : ∀ S : Session, S.Shift (y.exec S).2) : Steps y S [(y.exec S).2]
  | table (h : ∀ S : Session, ∃ threads, (y.exec S).2 = { S with threads }) :
      Steps y S [(y.exec S).2]

theorem Steps.advances {y : Run α} (h : Steps y S path) (hS : S.Ordered) :
    Along Advances S path (y.exec S).2 := by
  cases h with
  | traces h => exact h.advances hS
  | shift h => exact .single ((h S).advances hS)
  | table h =>
    obtain ⟨threads, hexec⟩ := h S
    exact .single (hS.rest (congrArg (·.memory.heap) hexec) (congrArg (·.arena) hexec))

theorem Turn.exists_steps (hev : Scripting ev) (turn : Turn) (S : Session) :
    ∃ path, Steps (turn.run ev) S path := by
  have htraces : ∀ {y : Run Unit}, (∃ path, Traces y S path) → ∃ path, Steps y S path :=
    fun ⟨path, h⟩ => ⟨path, .traces h⟩
  cases turn with
  | spawn callee args daemon =>
    exact htraces ((Scripted.spawnThread (x := ⟨0⟩) hev callee args daemon).discard.traces S)
  | park request => exact ⟨_, .table fun S => ⟨_, rfl⟩⟩
  | operate op =>
    rcases op.scripted_or_shift with ⟨x, hscripted⟩ | hshift
    · exact htraces (hscripted.traces S)
    · exact ⟨_, .shift hshift⟩
  | script x y hy => exact htraces (hy.traces S)
  | start ticket =>
    obtain ⟨path, hpath⟩ := exists_traces_runThread (fun request =>
      (Scripted.runRequest (x := ⟨0⟩) hev ticket request).traces) S
    exact htraces hpath.discard
  | share => exact ⟨_, .table fun S => ⟨_, rfl⟩⟩

/-! ## Runs -/

/-- Scopes that have been made were given parents that were there. -/
def Bears (S T : Session) : Prop := S.arena.Bears T.arena

/-- The sessions that turns bring about in which each scope that is made is given an outer scope
that is there, or none, and a calling scope that is there, or none. -/
inductive Rooted (ev : Evaluator) (options : Options) : Session → Prop
  | new : Rooted ev options (Session.new options)
  | turn {S : Session} (h : Rooted ev options S) (turn : Turn) {path : List Session}
      (hsteps : Steps (turn.run ev) S path)
      (hbears : Along Bears S path ((turn.run ev).exec S).2) :
      Rooted ev options ((turn.run ev).exec S).2

/-- The scopes stay founded if all that are made are given parents that are there. -/
theorem Along.founded (h : Along Advances S path T) (hS : S.Ordered) (hfounded : S.arena.Founded)
    (hbears : Along Bears S path T) : T.arena.Founded := by
  induction h with
  | nil => exact hfounded
  | cons h _ ih =>
    cases hbears with
    | cons hfirst hrest =>
      exact ih h.ordered (h.tends.founded hS.orderly hfirst hfounded) hrest

/-- When no scope has been made in the end, none has been made on the way. -/
theorem Along.bears (h : Along Advances S path T)
    (hserial : T.arena.nextSerial = S.arena.nextSerial) : Along Bears S path T := by
  have hmono : ∀ {S path T}, Along Advances S path T → S.arena.nextSerial ≤ T.arena.nextSerial := by
    intro S path T h
    induction h with
    | nil => exact Nat.le_refl _
    | cons h _ ih =>
      obtain ⟨f, hages⟩ := h.tends.ages
      exact Nat.le_trans hages.nextSerial_le ih
  induction h with
  | nil S => exact .nil S
  | cons h hrest ih =>
    obtain ⟨f, hages⟩ := h.tends.ages
    have hlater := hmono hrest
    have hsame := Nat.le_antisymm (hserial ▸ hlater) hages.nextSerial_le
    exact .cons (Arena.bears_of_nextSerial_eq h.ordered.orderly hsame)
      (ih (hserial.trans hsame.symm))

theorem Rooted.founded (h : Rooted ev options S) : S.Ordered ∧ S.arena.Founded := by
  induction h with
  | new => exact ⟨⟨Heap.wellFormed_new _, Arena.orderly_new⟩, Arena.founded_new⟩
  | turn _ turn hsteps hbears ih =>
    obtain ⟨hordered, hfounded⟩ := ih
    have hadvances := hsteps.advances hordered
    exact ⟨hadvances.ordered hordered, hadvances.founded hordered hfounded hbears⟩

/-- **The scopes are well founded, so every walk has an end.** In every run in which the scopes that
are made are given parents that are there, with collections and used indices in any order: the
parents of each scope are there and have lower serial numbers. The walks from each scope, for names,
signals and control state, visit no scope twice and do not fail for want of a scope to go on to. -/
theorem walks_end (h : Rooted ev options S) :
    (∀ x s, S.arena.get? x = some s → ∀ p, s.outer = some p ∨ s.state.calling? = some p →
      ∃ t, S.arena.get? p = some t ∧ t.serial < s.serial) ∧
    ∀ x, S.arena.contains x = true → S.arena.Navigable x := by
  obtain ⟨-, hfounded⟩ := h.founded
  exact ⟨fun x s hs p hp => hfounded hs hp, fun x hx => hfounded.navigable hx⟩

/-- A turn that makes no scope can always be taken. -/
theorem Rooted.unborn (h : Rooted ev options S) (hev : Scripting ev) (turn : Turn)
    (hserial : ((turn.run ev).exec S).2.arena.nextSerial = S.arena.nextSerial) :
    Rooted ev options ((turn.run ev).exec S).2 := by
  obtain ⟨path, hsteps⟩ := turn.exists_steps hev S
  exact h.turn turn hsteps ((hsteps.advances h.founded.1).bears hserial)

/-- A scope can be made whose parents are there. -/
theorem Rooted.create (h : Rooted ev options S) {state : ScopeState} {outer : Option ScopeId}
    (hparents : ∀ p ∈ outer.toList ++ state.calling?.toList, S.arena.contains p = true) :
    Rooted ev options ((Operation.createScope state outer).run.exec S).2 :=
  h.turn (.operate (.createScope state outer)) (.shift fun _ => .create state outer rfl rfl rfl)
    (.single (h.founded.1.orderly.bears_create hparents))

/-- A block has been made and reclaimed, then a `try` body in its place, and a function that was
called from there. -/
def replaced : Session :=
  let made := ((Operation.createScope .block (some ⟨0⟩)).run.exec (Session.new { heapSize := 8 })).2
  let swept := ((Operation.collect none).run.exec made).2
  let guarded := ((Operation.createScope (.attempt none) (some ⟨0⟩)).run.exec swept).2
  ((Operation.createScope (.function (some ⟨1⟩) {}) (some ⟨0⟩)).run.exec guarded).2

theorem replaced_rooted : Rooted (eval 4) { heapSize := 8 } replaced := by
  refine Rooted.create (Rooted.create (Rooted.unborn (Rooted.create .new ?_) (scripting_eval 4)
    (.operate (.collect none)) ?_) ?_) ?_
  · decide
  · decide +kernel
  · intro p hp
    obtain rfl : p = ⟨0⟩ := by simpa [ScopeState.calling?] using hp
    decide +kernel
  · intro p hp
    have hcases : p = ⟨0⟩ ∨ p = ⟨1⟩ := by simpa [ScopeState.calling?] using hp
    rcases hcases with rfl | rfl
    · decide +kernel
    · decide +kernel

theorem walks_end_replaced :
    replaced.arena.contains ⟨2⟩ = true ∧ replaced.arena.owner ⟨2⟩ .throwing = .ok ⟨1⟩ ∧
      replaced.arena.Navigable ⟨2⟩ := by
  have hlive : replaced.arena.contains ⟨2⟩ = true := by decide +kernel
  exact ⟨hlive, by decide +kernel, (walks_end replaced_rooted).2 ⟨2⟩ hlive⟩

end ScriptCore.Session
