import ScriptCore.Proofs.Scope.Shelter
import ScriptCore.Proofs.Session.Contracts
import ScriptCore.Session.Eval

/-!
# Scripts

`Session.Scripted x y` says that the action `y` can be part of a script that runs in the scope `x`:
it is put together from small steps (`Session.Step`), from calls and threads, and from what makes a
scope inside `x` and goes on in it. Signals are raised from the scope in which an action runs and
from no other one.

What is proved about scripted actions holds for any way of evaluating nodes that gives scripted
actions (`Session.Scripting`). The evaluation of the node language here does:
`Session.scripting_eval`.
-/

namespace ScriptCore

/-! ## Changes of the heap -/

namespace Heap

/-- The heap is well formed, and each object of another heap is at its place, with the slots it
has. -/
structure Persists (h h' : Heap) : Prop where
  wellFormed : h'.WellFormed
  header : ∀ {r header}, h.header? r = some header →
    ∃ header', h'.header? r = some header' ∧ header'.span = header.span

theorem Persists.refl {h : Heap} (hw : h.WellFormed) : h.Persists h := ⟨hw, fun hr => ⟨_, hr, rfl⟩⟩

theorem Persists.trans {h h' h'' : Heap} (hp : h.Persists h') (hp' : h'.Persists h'') :
    h.Persists h'' := by
  refine ⟨hp'.wellFormed, fun hr => ?_⟩
  obtain ⟨header', hr', hspan⟩ := hp.header hr
  obtain ⟨header'', hr'', hspan'⟩ := hp'.header hr'
  exact ⟨header'', hr'', hspan'.trans hspan⟩

theorem WellFormed.persists_reserve {h heap : Heap} (hw : h.WellFormed) {n : Nat} {r : Ref}
    (hres : h.reserve n = some (r, heap)) : h.Persists heap := by
  have hreserved := hw.reserved hres
  refine ⟨hreserved.wellFormed, fun {r' header} hr => ⟨header, ?_, rfl⟩⟩
  have hne : r' ≠ r := by
    rintro rfl
    rw [hreserved.header?_eq_none] at hr
    cases hr
  exact (hreserved.header?_of_ne hne).trans hr

theorem WellFormed.persists_write {h heap : Heap} (hw : h.WellFormed) {index : Nat} {v : Value}
    (hwrite : h.write index v = .ok heap) : h.Persists heap := by
  refine ⟨hw.write hwrite, fun {r header} hr => ⟨header, ?_, rfl⟩⟩
  obtain ⟨-, ⟨w, hw⟩, hslot⟩ := write_eq_ok hwrite
  obtain ⟨hpos, hat⟩ := header?_eq_some.mp hr
  rw [header?_eq_some, hslot, if_neg]
  · exact ⟨hpos, hat⟩
  · -- what is written to is an element
    rintro rfl
    cases hat.symm.trans hw

theorem WellFormed.persists_writes {h heap : Heap} (hw : h.WellFormed) (r : Ref)
    (entries : List (Value × Nat))
    (hwrite : entries.foldlM (fun heap (v, index) => heap.write (r.slot + (index + 1)) v) h
      = (.ok heap : Except Fault Heap)) : h.Persists heap := by
  induction entries generalizing h with
  | nil =>
    cases hwrite
    exact .refl hw
  | cons entry entries ih =>
    obtain ⟨next, hfirst, hrest⟩ := Memory.bind_eq_ok.mp hwrite
    have hp := hw.persists_write hfirst
    exact hp.trans (ih hp.wellFormed hrest)

theorem WellFormed.persists_setHeader {h : Heap} (hw : h.WellFormed) {r : Ref}
    {old header : Header} (hr : h.header? r = some old) (hspan : old.span = header.span)
    (hmarked : header.marked = false) : h.Persists (h.setHeader r header) := by
  refine ⟨hw.setHeader hr hspan hmarked, fun {r' header'} hr' => ?_⟩
  rw [header?_setHeader hr]
  split
  · subst r'
    obtain rfl := Option.some.inj (hr.symm.trans hr')
    exact ⟨header, rfl, hspan.symm⟩
  · exact ⟨header', hr', rfl⟩

end Heap

namespace Session

open Run

variable {α β : Type} {x : ScopeId}

/-! ## Small steps -/

/-- What a small step of a script in the scope `x` can do. -/
inductive Step (x : ScopeId) (S : Session) : Session → Prop
  /-- Say something. -/
  | say (events : Array Event) (output : Array String) : Step x S { S with events, output }
  /-- Bind or assign a name, or import a module. -/
  | rebind {arena : Arena} (h : S.arena.Rebound arena) : Step x S { S with arena }
  /-- Raise a signal in `x`, or take one that was meant for it. -/
  | signal {arena : Arena} (h : S.arena.Signals x arena) : Step x S { S with arena }
  /-- Take slots or write to them. -/
  | heap {heap : Heap} (h : S.memory.heap.WellFormed → S.memory.heap.Persists heap) :
      Step x S { S with memory := { S.memory with heap } }
  /-- Collect garbage. -/
  | collect (extra : Option ScopeId) : Step x S (S.collected extra)
  /-- Slide the objects together. -/
  | slide : Step x S S.slid

theorem Step.refl (x : ScopeId) (S : Session) : S.Step x S := .say S.events S.output

/-! ## Scripted actions -/

/-- Run an action while the control state that can be seen from `x` is set aside. -/
def aside (x : ScopeId) (y : Run α) : Run α := do
  modify fun s => { s with arena := s.arena.suspendControl x }
  let result ← Run.outcome y
  modify fun s => { s with arena := s.arena.restoreControl }
  Run.ofOutcome result

/-- What a thread does in its scope: it calls a function, and reports an exception that is left. -/
def serving (ev : Evaluator) (ticket : Nat) (request : ThreadRequest) (thread : ScopeId) :
    Run (Option Value) := do
  let value ← call ev request.callee request.args thread Position.unknown
  match ← reportUncaught thread with
  | some report =>
    Run.report (.uncaught ticket report)
    return none
  | none => return some value

/-- Serve a request that has been taken off the table. -/
def runRequest (ev : Evaluator) (ticket : Nat) (request : ThreadRequest) : Run (Option Value) := do
  inScope (.thread none) (← get).arena.global (serving ev ticket request)

/-- What a call does in its scope: the parameters are bound, then the body runs. -/
def activate (body : Callable → ScopeId → List Value → Run Value) (c : Callable)
    (args : List Value) (new : ScopeId) : Run Value := do
  bindParameters c new args
  body c new args

/-- The action `y` can be part of a script that runs in the scope `x`. -/
inductive Scripted : ScopeId → {α : Type} → Run α → Prop
  /-- A small step. -/
  | step {x : ScopeId} {α : Type} {y : Run α} (h : ∀ S : Session, S.Step x (y.exec S).2) :
      Scripted x y
  /-- One action after another. -/
  | bind {x : ScopeId} {α β : Type} {y : Run α} {f : α → Run β} (hy : Scripted x y)
      (hf : ∀ a, Scripted x (f a)) : Scripted x (y >>= f)
  /-- An action whose outcome is looked at. -/
  | outcome {x : ScopeId} {α : Type} {y : Run α} (hy : Scripted x y) : Scripted x (Run.outcome y)
  /-- Values held while slots are taken. -/
  | hold {x : ScopeId} {size : Nat} (h : Scripted x (allocate size)) (values : List Value)
      (scope : Option ScopeId) : Scripted x (allocateHolding size values scope)
  /-- A scope made inside `x`, and an action in it. -/
  | create {x : ScopeId} {α : Type} {state : ScopeState} {f : ScopeId → Run α}
      (hstate : state.calling? = none) (hf : ∀ new, Scripted new (f new)) :
      Scripted x (createScope state (some x) >>= f)
  /-- A scope entered inside `x`, and an action in it. -/
  | inScope {x : ScopeId} {α : Type} {state : ScopeState} {f : ScopeId → Run α}
      (hstate : state.calling? = none) (hf : ∀ new, Scripted new (f new)) :
      Scripted x (inScope state x f)
  /-- An action while control state is set aside. -/
  | aside {x : ScopeId} {α : Type} {y : Run α} (hy : Scripted x y) : Scripted x (aside x y)
  /-- A call from `x`. -/
  | call {x : ScopeId} {body : Callable → ScopeId → List Value → Run Value} {args : List Value}
      (hbody : ∀ c new, Scripted new (activate body c args new)) (callee : Value)
      (site : Position) : Scripted x (callWith body callee args x site)
  /-- An action in a thread scope. -/
  | thread {x : ScopeId} {α : Type} {f : ScopeId → Run α} (hf : ∀ new, Scripted new (f new)) :
      Scripted x (get >>= fun S => Session.inScope (.thread none) S.arena.global f)
  /-- A thread asked for. -/
  | spawn {x : ScopeId} {ev : Evaluator} (callee : Value) (args : List Value) (daemon : Bool)
      (hrun : ∀ ticket request, Scripted x (runRequest ev ticket request)) :
      Scripted x (spawnThread ev callee args daemon)

/-- Nodes are evaluated by scripted actions. -/
def Scripting (ev : Evaluator) : Prop := ∀ node x, Scripted x (ev node x)

namespace Scripted

/-! ### Small steps -/

theorem of_same {y : Run α} (h : ∀ S, (y.exec S).2 = S) : Scripted x y :=
  .step fun S => (h S).symm ▸ .refl x S

theorem pure (a : α) : Scripted x (Pure.pure a : Run α) := of_same fun _ => rfl

theorem stop (stop : Stop) : Scripted x (throw stop : Run α) := of_same fun _ => rfl

theorem fail (fault : Fault) : Scripted x (Run.fail fault : Run α) := of_same fun _ => rfl

theorem get : Scripted x (MonadState.get : Run Session) := of_same fun _ => rfl

theorem ofExcept (r : Except Fault α) : Scripted x (Run.ofExcept r) := by
  cases r with
  | ok a => exact .pure a
  | error fault => exact .fail fault

theorem ofOutcome (r : Except Stop α) : Scripted x (Run.ofOutcome r) :=
  of_same fun S => by rw [exec_ofOutcome]

theorem scopes (f : Arena → α) : Scripted x (Run.scopes f) := of_same fun _ => rfl

theorem memory (f : Memory → Except Fault α) : Scripted x (Run.memory f) :=
  .bind .get fun _ => .ofExcept _

theorem report (e : Event) : Scripted x (Run.report e) :=
  .step fun S => .say (S.events.push e) S.output

theorem emit (line : String) : Scripted x (Run.emit line) :=
  .step fun S => .say S.events (S.output.push line)

theorem discard {y : Run α} (h : Scripted x y) : Scripted x (do let _ ← y) :=
  .bind h fun _ => .pure _

/-- An action that may change the scopes is a step if the change is. -/
theorem modifyScopes {f : Arena → Except Fault Arena}
    (hf : ∀ {S : Session} {arena}, f S.arena = .ok arena → S.Step x { S with arena }) :
    Scripted x (Run.modifyScopes f) := by
  refine .step fun S => ?_
  cases h : f S.arena with
  | ok arena =>
    rw [exec_modifyScopes h]
    exact hf h
  | error fault =>
    rw [exec_modifyScopes_error h]
    exact .refl x S

theorem rebind {f : Arena → Except Fault Arena}
    (hf : ∀ {a a' : Arena}, f a = .ok a' → a.Rebound a') : Scripted x (Run.modifyScopes f) :=
  .modifyScopes fun h => .rebind (hf h)

theorem raise {signal : Signal} (f : Control → Control) :
    Scripted x (Run.modifyScopes fun a => a.raise x signal f) :=
  .modifyScopes fun h => .signal (Arena.signals_raise h)

theorem takeException : Scripted x (Run.takeScopes (·.takeException x)) :=
  .step fun S => .signal (S.arena.signals_takeException x)

theorem takeReturn : Scripted x (Run.takeScopes (·.takeReturn x)) :=
  .step fun S => .signal (S.arena.signals_takeReturn x)

/-- Taking something that may not be there. -/
theorem takePair {f : Arena → Except Fault (α × Arena)}
    (hf : ∀ {a b a'}, f a = .ok (b, a') → a.Signals x a') :
    Scripted x (do
      let (value, arena) ← Run.ofExcept (f (← MonadState.get).arena)
      modify fun s => { s with arena }
      return value : Run α) := by
  refine .step fun S => ?_
  rw [exec_bind_ok (exec_get S)]
  cases h : f S.arena with
  | ok result => exact .signal (hf h)
  | error fault => exact .refl x S

theorem takeYield : Scripted x (Session.takeYield x) :=
  takePair (f := (·.takeYield x)) Arena.signals_takeYield

theorem takeFallthrough : Scripted x (Session.takeFallthrough x) :=
  takePair (f := (·.takeFallthrough x)) Arena.signals_takeFallthrough

/-- An action that may write to the heap. -/
theorem modifyMemory {f : Memory → Except Fault Memory} (hf : ∀ {m m' : Memory}, f m = .ok m' →
      ∃ heap, m' = { m with heap } ∧ (m.heap.WellFormed → m.heap.Persists heap)) :
    Scripted x (Run.modifyMemory f) := by
  refine .step fun S => ?_
  cases h : f S.memory with
  | ok m =>
    rw [exec_modifyMemory h]
    obtain ⟨heap, rfl, hpersists⟩ := hf h
    exact .heap hpersists
  | error fault =>
    rw [exec_modifyMemory_error h]
    exact .refl x S

/-- Checking the free list changes nothing, whatever it finds. -/
theorem exec_verify_bind (S : Session) (a : α) :
    ((verifyIfChecked >>= fun _ => Pure.pure a).exec S).2 = S := by
  have hsame : (verifyIfChecked.exec S).2 = S := by
    unfold verifyIfChecked
    rw [exec_bind_ok (exec_get S)]
    dsimp only
    split
    · cases S.memory.verify <;> rfl
    · rfl
  rw [exec_bind]
  rcases h : verifyIfChecked.exec S with ⟨stop | ⟨⟩, T⟩ <;> rw [h] at hsame <;> exact hsame

theorem step_collectFrom (extra : Option ScopeId) (S : Session) :
    S.Step x ((Session.collectFrom extra).exec S).2 := by
  have hleft : ((Session.collectFrom extra).exec S).2 = S.collected extra :=
    exec_verify_bind (S.collected extra) _
  rw [hleft]
  exact .collect extra

theorem collectFrom (extra : Option ScopeId) : Scripted x (Session.collectFrom extra) :=
  .step (step_collectFrom extra)

theorem step_slide (S : Session) : S.Step x (Session.slide.exec S).2 := by
  have hleft : (Session.slide.exec S).2 = S.slid := exec_verify_bind S.slid _
  rw [hleft]
  exact .slide

theorem slide : Scripted x Session.slide := .step step_slide

theorem collectAndSlide : Scripted x Session.collectAndSlide :=
  .bind (.collectFrom none) fun _ => .slide

/-! ### Objects -/

theorem tryAllocate (size : Nat) : Scripted x (Session.tryAllocate size) := by
  refine .step fun S => ?_
  cases h : S.memory.tryAllocate size with
  | some result =>
    rw [exec_tryAllocate_some h]
    obtain ⟨heap, hreserve, hm⟩ := Memory.tryAllocate_eq_some.mp h
    rw [hm]
    exact .heap fun hw => hw.persists_reserve hreserve
  | none =>
    rw [exec_tryAllocate_none h]
    exact .refl x S

theorem allocate (size : Nat) : Scripted x (Session.allocate size) := by
  unfold Session.allocate
  refine .bind (.tryAllocate _) fun first => ?_
  split
  · exact .pure _
  · refine .bind .get fun S => .bind (.report _) fun _ => .bind (.collectFrom none) fun _ =>
      .bind (.tryAllocate _) fun second => ?_
    split
    · exact .pure _
    · refine .bind ?_ fun third => ?_
      · refine .bind .get fun S => ?_
        split
        · exact .bind .slide fun _ => .tryAllocate _
        · exact .pure _
      · split
        · exact .pure _
        · exact .bind .get fun S => .fail _

theorem fillArray (r : Ref) (elements : List Value) :
    Scripted x (Session.fillArray r elements) := by
  refine .modifyMemory fun {m m'} hm => ?_
  obtain ⟨heap, hwrites, hm⟩ := Memory.bind_eq_ok.mp hm
  cases hm
  exact ⟨heap, rfl, fun hw => hw.persists_writes r _ hwrites⟩

theorem newArray (elements : List Value) : Scripted x (Session.newArray elements) :=
  .bind (.hold (.allocate _) _ _) fun _ => .bind (.fillArray _ _) fun _ =>
    .bind (.report _) fun _ => .pure _

theorem init (r : Ref) (data : ObjectData) :
    Scripted x (Run.modifyMemory fun m => m.init r ⟨data, false⟩) := by
  refine .modifyMemory fun {m m'} hm => ?_
  obtain ⟨old, hold, hspan, rfl⟩ := Memory.init_eq_ok hm
  exact ⟨_, rfl, fun hw => hw.persists_setHeader hold hspan rfl⟩

theorem newObject (data : ObjectData) : Scripted x (Session.newObject data) := by
  by_cases harray : ∃ length, data = .array length
  · obtain ⟨length, rfl⟩ := harray
    exact .newArray _
  · obtain ⟨-, -, hnew⟩ := newObject_of_span fun length h => harray ⟨length, h⟩
    rw [hnew]
    exact .bind (.hold (.allocate _) _ _) fun _ => .bind (.init _ _) fun _ =>
      .bind (.report _) fun _ => .pure _

theorem newInstance (classRef : Ref) : Scripted x (Session.newInstance classRef x) :=
  .create rfl fun _ => .bind (.newObject _) fun _ => .pure _

theorem writeElement (r : Ref) (index : Int64) (v : Value) :
    Scripted x (Run.modifyMemory (·.writeElement r index v)) := by
  refine .modifyMemory fun {m m'} hm => ?_
  obtain ⟨header, k, heap, -, -, -, hwrite, rfl⟩ := Memory.writeElement_eq_ok hm
  exact ⟨heap, rfl, fun hw => hw.persists_write hwrite⟩

theorem setData (r : Ref) (data : ObjectData) :
    Scripted x (Run.modifyMemory (·.setData r data)) := by
  refine .modifyMemory fun {m m'} hm => ?_
  obtain ⟨old, hr, hspan, rfl⟩ := Memory.setData_eq_ok hm
  refine ⟨_, rfl, fun hw => ?_⟩
  have hmarked : old.marked = false := hw.unmarked hr
  exact hw.persists_setHeader hr hspan.symm hmarked

/-! ### Names and exceptions -/

theorem lookup (target : ScopeId) (name : String) : Scripted x (Session.lookup target name) :=
  .bind .get fun _ => .ofExcept _

theorem assign (target : ScopeId) (name : String) (v : Value) :
    Scripted x (Session.assign target name v) :=
  .bind .get fun _ => .rebind Arena.rebound_assign

theorem defineVar (target : ScopeId) (name : String) (v : Value) :
    Scripted x (Session.defineVar target name v) :=
  .rebind Arena.rebound_defineField

theorem defineConst (target : ScopeId) (name : String) (v : Value) :
    Scripted x (Session.defineConst target name v) :=
  .rebind Arena.rebound_defineField

theorem member (r : Ref) (name : String) : Scripted x (Session.member r name) :=
  .bind .get fun _ => .ofExcept _

theorem assignMember (r : Ref) (name : String) (v : Value) :
    Scripted x (Session.assignMember r name v) :=
  .bind .get fun _ => .rebind Arena.rebound_assignMember

theorem bindSuper (child parent : Ref) : Scripted x (Session.bindSuper child parent) :=
  .bind .get fun _ => .bind (.ofExcept _) fun _ => .bind (.ofExcept _) fun _ => .defineVar _ _ _

theorem importModule (target : ScopeId) (r : Ref) : Scripted x (Session.importModule target r) := by
  refine .bind (.memory _) fun header => ?_
  split
  · exact .rebind Arena.rebound_attachNamespace
  · exact .fail _

theorem halted : Scripted x (Session.halted x) := .scopes _

theorem throwValue (v : Value) : Scripted x (Session.throwValue x v) :=
  .bind .get fun _ => .bind (.report _) fun _ => .raise _

theorem raiseFault (fault : Fault) : Scripted x (Session.raise x fault) := by
  unfold Session.raise
  split
  · exact .bind (.newObject _) fun _ => .throwValue _
  · exact .fail _

theorem reportUncaught : Scripted x (Session.reportUncaught x) := by
  refine .bind .takeException fun taken => ?_
  cases taken with
  | none => exact .pure _
  | some pending => exact .bind .get fun _ => .pure _

theorem asInt (v : Value) : Scripted x (Session.asInt v) := by
  unfold Session.asInt
  split
  · exact .pure _
  · exact .fail _

theorem asRef (v : Value) : Scripted x (Session.asRef v) := by
  unfold Session.asRef
  split
  · exact .pure _
  · exact .fail _

theorem mapM (f : α → Run β) (hf : ∀ a, Scripted x (f a)) (l : List α) :
    Scripted x (l.mapM f) := by
  induction l with
  | nil => exact .pure _
  | cons a l ih =>
    rw [List.mapM_cons]
    exact .bind (hf a) fun _ => .bind ih fun _ => .pure _

theorem foldlM (f : β → α → Run β) (hf : ∀ b a, Scripted x (f b a)) (l : List α) (b : β) :
    Scripted x (l.foldlM f b) := by
  induction l generalizing b with
  | nil => exact .pure _
  | cons a l ih => exact .bind (hf b a) fun _ => ih _

/-! ### Statements -/

section Evaluation

variable {ev : Evaluator} (hev : Scripting ev)
include hev

theorem evaluate (node : Node) : Scripted x (Session.evaluate ev node x) := by
  refine .bind (.outcome (hev node x)) fun result => ?_
  split
  · exact .pure _
  · exact .bind (.raiseFault _) fun _ => .pure _
  · exact .stop _

theorem evaluateAll (nodes : List Node) : Scripted x (Session.evaluateAll ev nodes x) :=
  .mapM _ (fun _ => .evaluate hev _) nodes

theorem evaluateRef (node : Node) : Scripted x (Session.evaluateRef ev node x) :=
  .bind (.evaluate hev node) fun _ => .asRef _

theorem sequence (last : Value) (body : List Node) :
    Scripted x (Session.sequenceFrom ev x last body) := by
  induction body generalizing last with
  | nil => exact .pure _
  | cons statement rest ih =>
    refine .bind (.evaluate hev statement) fun value => .bind .halted fun stop => ?_
    split
    · exact .pure _
    · exact ih value

theorem block (body : List Node) : Scripted x (Session.executeBlock ev x body) :=
  .inScope rfl fun _ => .sequence hev _ body

theorem continues (condition : Option Node) : Scripted x (Session.continues ev condition x) := by
  cases condition with
  | none => exact .pure _
  | some condition =>
    exact .bind (.evaluate hev condition) fun _ => .bind .halted fun _ => .pure _

theorem iterate (body : List Node) : Scripted x (Session.iterate ev x body) := by
  refine .bind (.block hev body) fun _ => .bind .get fun S => .bind (.ofExcept _) fun flags => ?_
  refine .bind (.scopes _) fun exception => ?_
  split
  · exact .pure _
  · split
    · exact .bind (.raise _) fun _ => .bind (.scopes _) fun _ => .pure _
    · exact .bind (.scopes _) fun _ => .pure _

theorem update (action : Option Node) : Scripted x (Session.update ev action x) := by
  cases action with
  | none => exact .pure _
  | some action => exact .bind (.evaluate hev action) fun _ => .bind .halted fun _ => .pure _

theorem rounds (condition action : Option Node) (body : List Node) (n : Nat) :
    Scripted x (Session.runLoop ev x condition action body n) := by
  induction n with
  | zero => exact .stop _
  | succ n ih =>
    refine .bind (.continues hev condition) fun go => ?_
    split
    · refine .bind (.iterate hev body) fun go => ?_
      split
      · refine .bind (.update hev action) fun go => ?_
        split
        · exact ih
        · exact .pure _
      · exact .pure _
    · exact .pure _

theorem loop (n : Nat) (title : Option String) (condition action : Option Node)
    (body : List Node) : Scripted x (Session.executeLoop ev n x title condition action body) :=
  .inScope rfl fun _ => .rounds hev condition action body n

theorem guarded (body : List Node) : Scripted x (Session.runGuarded ev x body) :=
  .inScope rfl fun _ => .bind (.outcome (.sequence hev _ body)) fun _ =>
    .bind .takeException fun _ => .bind (.ofOutcome _) fun _ => .pure _

theorem handle (handler : Option (String × List Node)) (pending : Pending) :
    Scripted x (Session.handle ev x handler pending) := by
  cases handler with
  | none => exact .raise _
  | some handler =>
    exact .bind (.inScope rfl fun _ => .bind (.defineVar _ _ _) fun _ => .sequence hev _ _)
      fun _ => .pure _

theorem final (body : List Node) : Scripted x (Session.runFinal ev x body) := by
  have heq : Session.runFinal ev x body =
      (Session.aside x (Session.executeBlock ev x body) >>= fun _ => Pure.pure ()) := by
    simp only [Session.runFinal, Session.aside, bind_assoc]
  rw [heq]
  exact .bind (.aside (.block hev body)) fun _ => .pure _

theorem attempt (body : List Node) (handler : Option (String × List Node))
    (last : Option (List Node)) : Scripted x (Session.executeTry ev x body handler last) := by
  refine .bind (.guarded hev body) fun caught => ?_
  cases last with
  | none =>
    cases caught with
    | none => exact .pure _
    | some pending => exact .bind (.handle hev handler pending) fun _ => .pure _
  | some final =>
    cases caught with
    | none => exact .final hev final
    | some pending => exact .bind (.handle hev handler pending) fun _ => .final hev final

theorem selectArms (subject : Value) (default arms : List Arm) :
    Scripted x (Session.selectArms ev x subject default arms) := by
  induction arms generalizing default with
  | nil => exact .pure _
  | cons arm rest ih =>
    obtain ⟨_ | pattern, body⟩ := arm
    · exact ih _
    · refine .bind (.evaluate hev pattern) fun value => .bind .halted fun stop => ?_
      split
      · exact .pure _
      · split
        · exact .pure _
        · exact ih _

theorem arms (list : List Arm) : Scripted x (Session.runArms ev x list) := by
  induction list with
  | nil => exact .pure _
  | cons arm rest ih =>
    refine .bind (.block hev arm.2) fun _ => .bind .takeYield fun value => ?_
    split
    · exact .pure _
    · refine .bind .takeFallthrough fun fell => .bind .halted fun stop => ?_
      split
      · exact ih
      · exact .pure _

theorem case (subject : Value) (list : List Arm) :
    Scripted x (Session.executeCase ev x subject list) :=
  .inScope rfl fun _ => .bind (.selectArms hev subject [] list) fun _ => .arms hev _

/-! ### Calls and threads -/

omit hev in
theorem activate {body : Callable → ScopeId → List Value → Run Value}
    {args : List Value} (hbody : ∀ c new, Scripted new (body c new args)) (c : Callable)
    (new : ScopeId) : Scripted new (Session.activate body c args new) := by
  have hparams : ∀ l : List (String × Value),
      Scripted new (l.forM fun p => Session.defineVar new p.1 p.2) := by
    intro l
    induction l with
    | nil => exact .pure _
    | cons p l ih => exact .bind (.defineVar _ _ _) fun _ => ih
  refine .bind ?_ fun _ => hbody c new
  unfold bindParameters
  split
  · exact .bind (.defineVar _ _ _) fun _ => hparams _
  · exact hparams _

omit hev in
theorem runHost {call : Value → List Value → ScopeId → Position → Run Value}
    (hcall : ∀ callee args x site, Scripted x (call callee args x site)) (f : HostFunction)
    (args : List Value) : Scripted x (Session.runHost call f x args) := by
  cases f with
  | double => exact .bind (.asInt _) fun _ => .pure _
  | echo => exact .pure _
  | sum =>
    exact .bind (.foldlM _ (fun _ _ => .bind (.asInt _) fun _ => .pure _) _ _) fun _ => .pure _
  | add =>
    exact .bind (.lookup _ _) fun _ => .bind (.asInt _) fun _ => .bind (.asInt _) fun _ =>
      .bind (.assign _ _ _) fun _ => .pure _
  | len => exact .bind (.asRef _) fun _ => .bind (.memory _) fun _ => .pure _
  | throws => exact .bind (.throwValue _) fun _ => .pure _
  | returns => exact .bind (.raise _) fun _ => .pure _
  | collect => exact .bind (.collectFrom none) fun _ => .pure _
  | apply => exact hcall _ _ _ _

theorem runBody {call : Value → List Value → ScopeId → Position → Run Value}
    (hcall : ∀ callee args x site, Scripted x (call callee args x site)) (c : Callable)
    (args : List Value) : Scripted x (Session.runBody ev call c x args) := by
  unfold Session.runBody
  split
  · exact .bind (hev _ x) fun _ => .pure _
  · exact .runHost hcall _ args

theorem callBounded (bound : Nat) (callee : Value) (args : List Value) (site : Position) :
    Scripted x (Session.callBounded ev bound callee args x site) := by
  induction bound generalizing callee args x site with
  | zero => exact .stop _
  | succ bound ih =>
    exact .call (.activate fun c new =>
      .runBody hev (fun callee args x site => ih callee args site) c args) callee site

/-- What a call does in its scope. -/
theorem activation (bound : Nat) (c : Callable) (args : List Value) (new : ScopeId) : Scripted new
    (Session.activate (Session.runBody ev (Session.callBounded ev bound)) c args new) :=
  .activate (fun c _ => .runBody hev
    (fun callee args _ site => .callBounded hev bound callee args site) c args) c new

theorem callFrom (callee : Value) (args : List Value) (site : Position) :
    Scripted x (Session.call ev callee args x site) :=
  .callBounded hev _ callee args site

theorem serving (ticket : Nat) (request : ThreadRequest) :
    Scripted x (Session.serving ev ticket request x) := by
  refine .bind (.callFrom hev _ _ _) fun value => .bind .reportUncaught fun report => ?_
  cases report with
  | none => exact .pure _
  | some report => exact .bind (.report _) fun _ => .pure _

theorem runRequest (ticket : Nat) (request : ThreadRequest) :
    Scripted x (Session.runRequest ev ticket request) :=
  .thread fun _ => .serving hev ticket request

theorem spawnThread (callee : Value) (args : List Value) (daemon : Bool) :
    Scripted x (Session.spawnThread ev callee args daemon) :=
  .spawn callee args daemon fun ticket request => .runRequest hev ticket request

/-! ### Nodes -/

omit hev in
theorem intVariable (target : ScopeId) (name : String) :
    Scripted x (Session.intVariable target name) :=
  .bind (.lookup _ _) fun _ => .asInt _

omit hev in
theorem defineField (target : ScopeId) (r : Ref) (partition : Partition) (name : String)
    (v : Value) : Scripted x (Session.defineField target r partition name v) :=
  .bind (.memory _) fun _ => .rebind Arena.rebound_defineField

/-- A module has a scope of its own, and its body runs in it. -/
theorem moduleDef (name : String) (body : List Node) : Scripted x (do
    let (r, inner) ← Session.newModule name x
    let _ ← Session.executeSequence ev inner body
    return .ref r : Run Value) := by
  unfold Session.newModule
  simp only [bind_assoc, pure_bind]
  exact .create rfl fun _ => .bind (.newObject _) fun _ =>
    .bind (.sequence hev _ _) fun _ => .pure _

/-- **Nodes are scripted if their parts are.** -/
theorem node (rounds : Nat) (node : Node) : Scripted x (Session.step ev rounds node x) := by
  have hvalue : ∀ {n : Node} {f : Value → Run Value}, (∀ v, Scripted x (f v)) →
      Scripted x (Session.evaluate ev n x >>= f) := fun hf => .bind (.evaluate hev _) hf
  have href : ∀ {n : Node} {f : Ref → Run Value}, (∀ r, Scripted x (f r)) →
      Scripted x (Session.evaluateRef ev n x >>= f) := fun hf => .bind (.evaluateRef hev _) hf
  -- what is done last, when nothing is pending
  have hunless : ∀ {y : Run Unit}, Scripted x y → Scripted x (do
      unless ← Session.halted x do y
      return Value.null) := by
    intro y hy
    refine .bind .halted fun stop => ?_
    split
    · exact .pure _
    · exact .bind hy fun _ => .pure _
  unfold Session.step
  cases node with
  | lit v => exact .pure _
  | var name => exact .lookup _ _
  | define constant name init =>
    refine hvalue fun v => ?_
    split
    · exact .bind (.defineConst _ _ _) fun _ => .pure _
    · exact .bind (.defineVar _ _ _) fun _ => .pure _
  | declare name => exact .bind (.defineConst _ _ _) fun _ => .pure _
  | assign name value => exact hvalue fun v => .bind (.assign _ _ _) fun _ => .pure _
  | increment name => exact .bind (.intVariable _ _) fun _ => .bind (.assign _ _ _) fun _ => .pure _
  | less name bound => exact .bind (.intVariable _ _) fun _ => .pure _
  | equal name number => exact .bind (.intVariable _ _) fun _ => .pure _
  | emit line => exact .bind (.emit _) fun _ => .pure _
  | display value => exact hvalue fun v => hunless (.emit _)
  | cond condition yes no =>
    refine hvalue fun v => .bind .halted fun stop => ?_
    split
    · exact .pure _
    · exact .bind (.block hev _) fun _ => .pure _
  | seq body => exact .sequence hev _ body
  | block body => exact .block hev body
  | loop title condition action body =>
    exact .bind (.loop hev rounds title condition action body) fun _ => .pure _
  | leave label => exact .bind (.raise _) fun _ => .pure _
  | skip label => exact .bind (.raise _) fun _ => .pure _
  | fallthrough => exact .bind (.raise _) fun _ => .pure _
  | ret value =>
    cases value with
    | none => exact .bind (.raise _) fun _ => .pure _
    | some value => exact hvalue fun v => hunless (.raise _)
  | raise value => exact hvalue fun v => .bind (.throwValue _) fun _ => .pure _
  | attempt body handler last => exact .bind (.attempt hev body handler last) fun _ => .pure _
  | select subject list => exact hvalue fun v => .bind (.case hev v list) fun _ => .pure _
  | yield value => exact hvalue fun v => .bind (.raise _) fun _ => .pure _
  | call callee args site =>
    refine hvalue fun callee => .bind (.evaluateAll hev args) fun args =>
      .bind .halted fun stop => ?_
    split
    · exact .pure _
    · exact .callFrom hev callee args site
  | array elements =>
    exact .bind (.evaluateAll hev elements) fun _ => .bind (.newArray _) fun _ => .pure _
  | index array position => exact href fun r => .memory _
  | setIndex array position value =>
    exact href fun r => hvalue fun v => .bind (.writeElement _ _ _) fun _ => .pure _
  | function name params body => exact .bind (.newObject _) fun _ => .pure _
  | method receiver name params body => exact href fun this => .bind (.newObject _) fun _ => .pure _
  | host name arity body => exact .bind (.newObject _) fun _ => .pure _
  | classDef name parent attributes =>
    have hparent : Scripted x (parent.mapM fun node => Session.evaluateRef ev node x) := by
      cases parent with
      | none => exact .pure _
      | some node => exact .bind (.evaluateRef hev node) fun _ => .pure _
    exact .bind hparent fun _ => .bind (.evaluateAll hev attributes) fun _ =>
      .bind (.mapM _ (fun _ => .asRef _) _) fun _ => .bind (.newObject _) fun _ => .pure _
  | new classRef => exact href fun r => .bind (.newInstance r) fun _ => .pure _
  | field target partition name value =>
    exact href fun r => hvalue fun v => .bind (.defineField _ _ _ _ _) fun _ => .pure _
  | member target name => exact href fun r => .member _ _
  | setMember target name value =>
    exact href fun r => hvalue fun v => .bind (.assignMember _ _ _) fun _ => .pure _
  | extend child parent =>
    exact href fun child => href fun parent => .bind (.bindSuper _ _) fun _ => .pure _
  | moduleDef name body => exact .moduleDef hev name body
  | useModule target => exact href fun r => .bind (.importModule _ _) fun _ => .pure _
  | error typeName message => exact .bind (.newObject _) fun _ => .pure _
  | collect => exact .bind (.collectFrom none) fun _ => .pure _
  | compact => exact .bind .collectAndSlide fun _ => .pure _
  | fail fault => exact .fail _
  | spawn callee args daemon =>
    exact hvalue fun callee => .bind (.evaluateAll hev args) fun args =>
      .bind (.spawnThread hev callee args daemon) fun _ => .pure _
  | depth => exact .bind .get fun _ => .pure _

end Evaluation

end Scripted

/-- **The nodes of the language are evaluated by scripted actions.** -/
theorem scripting_eval (bound : Nat) : Scripting (eval bound) := by
  induction bound with
  | zero => exact fun _ _ => .stop _
  | succ bound ih => exact fun node x => .node ih bound node

end Session

end ScriptCore
