import ScriptCore.Proofs.Session.Contracts

/-!
# No dangling links over whole runs

Whatever operations are carried out on a new session, one after the other, nothing in it ever refers
to a scope or an object that is not there, as long as every reference that is handed in is null or
names an object and every scope that is handed in is there.

`Session.Operation` lists the operations, `Session.Operation.links` is the step: one operation keeps
a session linked, whether it succeeds or not. `Session.no_dangling_links` is the run.
-/

namespace ScriptCore

namespace Session

open Run

/-! ## Operations -/

/-- What can be asked of a session. -/
inductive Operation
  /-- Take slots. -/
  | allocate (size : Nat)
  /-- Make an array. -/
  | newArray (elements : List Value)
  /-- Make an object. -/
  | newObject (data : ObjectData)
  /-- Make a function. -/
  | newFunction (name : String) (params : List String) (body : Node) (closure : ScopeId)
  /-- Make a method. -/
  | newMethod (name : String) (params : List String) (body : Node) (closure : ScopeId) (this : Ref)
  /-- Make a host function. -/
  | newHost (name : String) (arity : Nat) (body : HostFunction)
  /-- Make a class. -/
  | newClass (name : String) (superclass : Option Ref) (attributes : List Ref)
  /-- Make an instance and its scope. -/
  | newInstance (classRef : Ref) (outer : ScopeId)
  /-- Make a module and its scope. -/
  | newModule (name : String) (outer : ScopeId)
  /-- Make an error object. -/
  | newError (typeName message : String)
  /-- Let one instance extend another. -/
  | bindSuper (child parent : Ref)
  /-- Import a module. -/
  | importModule (id : ScopeId) (target : Ref)
  /-- Make a scope and enter it. -/
  | enterScope (state : ScopeState) (outer : ScopeId)
  /-- Leave a scope. -/
  | exitScope (id : ScopeId)
  /-- Make a scope. -/
  | createScope (state : ScopeState) (outer : Option ScopeId)
  /-- Declare a variable. -/
  | defineVar (id : ScopeId) (name : String) (v : Value)
  /-- Declare a constant. -/
  | defineConst (id : ScopeId) (name : String) (v : Value)
  /-- Declare a field of an instance. -/
  | defineField (id : ScopeId) (partition : Partition) (name : String) (entry : Binding)
  /-- Assign to a name. -/
  | assign (id : ScopeId) (name : String) (v : Value)
  /-- Assign to a member of an instance. -/
  | assignMember (r : Ref) (name : String) (v : Value)
  /-- Assign to an array element. -/
  | writeElement (r : Ref) (index : Int64) (v : Value)
  /-- Replace the data of an object. -/
  | setData (r : Ref) (data : ObjectData)
  /-- Return from an activation. -/
  | setReturn (id : ScopeId) (v : Value)
  /-- Take the value returned. -/
  | takeReturn (id : ScopeId)
  /-- Leave a loop. -/
  | breakLoop (id : ScopeId) (label : Option String)
  /-- Cut an iteration short. -/
  | pauseLoop (id : ScopeId) (label : Option String)
  /-- Let a loop go on. -/
  | resumeLoop (id : ScopeId)
  /-- Go on with the next arm of a case construct. -/
  | fallthrough (id : ScopeId)
  /-- Take the fallthrough flag. -/
  | takeFallthrough (id : ScopeId)
  /-- Give a case construct its value. -/
  | yieldValue (id : ScopeId) (v : Value)
  /-- Take the value of a case construct. -/
  | takeYield (id : ScopeId)
  /-- Record an exception with a trace. -/
  | throwException (id : ScopeId) (pending : Pending)
  /-- Take the exception that waits. -/
  | takeException (id : ScopeId)
  /-- Throw a value. -/
  | throwValue (id : ScopeId) (v : Value)
  /-- Throw a fault as an error object. -/
  | raise (id : ScopeId) (fault : Fault)
  /-- Set control state aside. -/
  | suspendControl (id : ScopeId)
  /-- Put back the control state that was set aside last. -/
  | restoreControl
  /-- Enter a call. -/
  | pushFrame (frame : Frame)
  /-- Leave the innermost call. -/
  | popFrame
  /-- Keep an object alive for a while. -/
  | manage (r : Ref)
  /-- Give up a managed reference. -/
  | unmanage (r : Ref)
  /-- Keep an object alive for good. -/
  | makePermanent (r : Ref)
  /-- Collect garbage, keeping a scope besides. -/
  | collect (extra : Option ScopeId)
  /-- Collect garbage and slide the objects together. -/
  | compact

namespace Operation

/-- Carry out an operation. -/
def run : Operation → Run Unit
  | allocate size => do let _ ← Session.allocate size
  | newArray elements => do let _ ← Session.newArray elements
  | newObject data => do let _ ← Session.newObject data
  | newFunction name params body closure => do
    let _ ← Session.newFunction name params body closure
  | newMethod name params body closure this => do
    let _ ← Session.newMethod name params body closure this
  | newHost name arity body => do let _ ← Session.newHost name arity body
  | newClass name superclass attributes => do let _ ← Session.newClass name superclass attributes
  | newInstance classRef outer => do let _ ← Session.newInstance classRef outer
  | newModule name outer => do let _ ← Session.newModule name outer
  | newError typeName message => do let _ ← Session.newError typeName message
  | bindSuper child parent => Session.bindSuper child parent
  | importModule id target => Session.importModule id target
  | enterScope state outer => do let _ ← Session.enterScope state outer
  | exitScope id => Session.exitScope id
  | createScope state outer => do let _ ← Session.createScope state outer
  | defineVar id name v => Session.defineVar id name v
  | defineConst id name v => Session.defineConst id name v
  | defineField id partition name entry =>
    Run.modifyScopes fun a => a.defineField id partition name entry
  | assign id name v => Session.assign id name v
  | assignMember r name v => Session.assignMember r name v
  | writeElement r index v => Run.modifyMemory (·.writeElement r index v)
  | setData r data => Run.modifyMemory (·.setData r data)
  | setReturn id v => Run.modifyScopes fun a => a.setReturn id v
  | takeReturn id => do let _ ← Run.takeScopes (·.takeReturn id)
  | breakLoop id label => Run.modifyScopes fun a => a.breakLoop id label
  | pauseLoop id label => Run.modifyScopes fun a => a.pauseLoop id label
  | resumeLoop id => Run.modifyScopes fun a => a.resumeLoop id
  | fallthrough id => Run.modifyScopes fun a => a.fallthrough id
  | takeFallthrough id => do let _ ← Session.takeFallthrough id
  | yieldValue id v => Run.modifyScopes fun a => a.yieldValue id v
  | takeYield id => do let _ ← Session.takeYield id
  | throwException id pending => Run.modifyScopes fun a => a.throwException id pending
  | takeException id => do let _ ← Run.takeScopes (·.takeException id)
  | throwValue id v => Session.throwValue id v
  | raise id fault => Session.raise id fault
  | suspendControl id => modify fun s => { s with arena := s.arena.suspendControl id }
  | restoreControl => modify fun s => { s with arena := s.arena.restoreControl }
  | pushFrame frame => Session.pushFrame frame
  | popFrame => do let _ ← Session.popFrame
  | manage r => modify fun s => { s with memory := s.memory.manage r }
  | unmanage r => modify fun s => { s with memory := s.memory.unmanage r }
  | makePermanent r => modify fun s => { s with memory := s.memory.makePermanent r }
  | collect extra => do let _ ← Session.collectFrom extra
  | compact => do let _ ← Session.collectAndSlide

/-- The references and scopes that are handed in. -/
def mentions : Operation → List Cell
  | allocate _ | newHost .. | newError .. | restoreControl | popFrame | compact => []
  | newArray elements => Cell.ofValues elements
  | newObject data => cells data
  | newFunction _ _ _ closure => [.scope closure]
  | newMethod _ _ _ closure this => [.object this, .scope closure]
  | newClass _ superclass attributes => (superclass.toList ++ attributes).map Cell.object
  | newInstance classRef outer => [.object classRef, .scope outer]
  | newModule _ outer => [.scope outer]
  | bindSuper child parent => [.object child, .object parent]
  | importModule id target => [.scope id, .object target]
  | enterScope state outer => stateCells state (some outer)
  | createScope state outer => stateCells state outer
  | exitScope id | takeReturn id | breakLoop id _ | pauseLoop id _ | resumeLoop id
  | fallthrough id | takeFallthrough id | takeYield id | takeException id | raise id _
  | suspendControl id => [.scope id]
  | defineVar id _ v | defineConst id _ v | assign id _ v | setReturn id v | yieldValue id v
  | throwValue id v => .scope id :: Cell.ofValues [v]
  | defineField id _ _ entry => .scope id :: Cell.ofValues [entry.value]
  | throwException id pending => .scope id :: Cell.ofValues [pending.value]
  | assignMember r _ v | writeElement r _ v => .object r :: Cell.ofValues [v]
  | setData r data => .object r :: cells data
  | pushFrame frame => [.scope frame.scope]
  | manage r | unmanage r | makePermanent r => [.object r]
  | collect extra => Cell.ofScopes extra.toList

end Operation

/-! ## One operation -/

variable {given : List Cell}

/-- An operation that changes scopes without giving them anything. -/
theorem links_flag {f : Arena → Except Fault Arena}
    (hf : ∀ {a a' : Arena}, f a = .ok a' → a.Edited [] a') :
    Links given (Run.modifyScopes f) fun _ => [] :=
  (links_edit hf fun _ hc => nomatch hc).mono (fun _ hc => hc) fun _ _ hc => nomatch hc

/-- An operation that changes scopes so that a value is kept in them. -/
theorem links_store {f : Arena → Except Fault Arena} {c : Cell} {v : Value}
    (hf : ∀ {a a' : Arena}, f a = .ok a' → a.Edited (Cell.ofValues [v]) a') :
    Links (c :: Cell.ofValues [v]) (Run.modifyScopes f) fun _ => [] :=
  (links_edit hf fun _ hc => hc).mono (fun _ hc => List.mem_cons_of_mem _ hc)
    fun _ _ hc => nomatch hc

/-- An operation that takes something out of the scopes. -/
theorem links_take {α : Type} {f : Arena → α × Arena} (hf : ∀ {a : Arena}, a.Edited [] (f a).2) :
    Links given (do let _ ← Run.takeScopes f) fun _ : Unit => [] :=
  (links_takeScopes hf).discard

/-- An operation that makes an object of data that refers to nothing but what is given. -/
theorem links_make {data : ObjectData} (h : ∀ c ∈ cells data, c ∈ given) :
    Links given (do let _ ← Session.newObject data) fun _ : Unit => [] :=
  (links_newObject data).discard.mono h fun _ _ hc => hc

/-- A reference that is there is registered, or nothing is. -/
theorem mem_register {S : Session} {refs : List Ref} {r r' : Ref} (hr : S.Valid (.object r))
    (h : r' ∈ Memory.register r refs) : r' ∈ refs ∨ S.Valid (.object r') := by
  unfold Memory.register at h
  split at h
  · exact .inl h
  · refine (List.mem_append.mp h).imp_right fun h => ?_
    rwa [List.mem_singleton.mp h]

/-- An operation that changes which references are registered. -/
theorem links_registry {f : Memory → Memory} {r : Ref} (hheap : ∀ m, (f m).heap = m.heap)
    (hguarded : ∀ m, (f m).guarded = m.guarded)
    (hmanaged : ∀ m, ∀ r' ∈ (f m).managed, r' ∈ m.managed ∨ r' ∈ Memory.register r m.managed)
    (hpermanent : ∀ m, ∀ r' ∈ (f m).permanent,
      r' ∈ m.permanent ∨ r' ∈ Memory.register r m.permanent) :
    Links [.object r] (modify fun s => { s with memory := f s.memory }) fun _ => [] := by
  refine (links_modify fun {S} hS hgiven => ?_).mono (fun _ hc => hc) fun _ _ hc => nomatch hc
  have hr : S.Valid (.object r) := hgiven _ (List.mem_singleton_self _)
  refine hS.outside (hheap _) rfl rfl (fun _ hid => .inl hid)
    (fun _ hv => .inl (hguarded S.memory ▸ hv)) (fun r' hr' => ?_) fun r' hr' => ?_
  · exact (hmanaged _ r' hr').elim .inl (mem_register hr)
  · exact (hpermanent _ r' hr').elim .inl (mem_register hr)

namespace Operation

/-- Linked sessions stay linked, whether an operation succeeds or not. -/
theorem links (op : Operation) : Links op.mentions op.run fun _ => [] := by
  unfold mentions run
  cases op with
  | allocate size => exact (links_allocate size).discard
  | newArray elements => exact (links_newArray elements).discard
  | newObject data => exact links_make fun _ hc => hc
  | newFunction name params body closure => exact links_make fun _ hc => hc
  | newMethod name params body closure this => exact links_make fun _ hc => hc
  | newHost name arity body => exact links_make fun _ hc => hc
  | newClass name superclass attributes =>
    exact links_make fun c hc => (List.mem_append.mp hc).elim id fun hc => nomatch hc
  | newInstance classRef outer => exact (links_newInstance classRef outer).discard
  | newModule name outer => exact (links_newModule name outer).discard
  | newError typeName message => exact links_make fun _ hc => hc
  | bindSuper child parent => exact links_bindSuper child parent
  | importModule id target =>
    exact (links_importModule id target).mono (fun _ hc => nomatch hc) fun _ _ hc => hc
  | enterScope state outer => exact (links_enterScope state outer).discard
  | exitScope id => exact (links_exitScope id).mono (fun _ hc => nomatch hc) fun _ _ hc => hc
  | createScope state outer => exact (links_createScope fun _ hc => hc).discard
  | defineVar id name v => exact links_store Arena.edited_defineField
  | defineConst id name v => exact links_store Arena.edited_defineField
  | defineField id partition name entry => exact links_store Arena.edited_defineField
  | assign id name v => exact links_get_bind fun _ => links_store Arena.edited_assign
  | assignMember r name v => exact links_get_bind fun _ => links_store Arena.edited_assignMember
  | writeElement r index v =>
    exact (links_writeElement r index v).mono (fun _ hc => List.mem_cons_of_mem _ hc)
      fun _ _ hc => nomatch hc
  | setData r data =>
    exact (links_setData r data).mono (fun _ hc => List.mem_cons_of_mem _ hc)
      fun _ _ hc => nomatch hc
  | setReturn id v => exact links_store Arena.edited_setReturn
  | takeReturn id => exact links_take Arena.edited_takeReturn
  | breakLoop id label => exact links_flag Arena.edited_breakLoop
  | pauseLoop id label => exact links_flag Arena.edited_pauseLoop
  | resumeLoop id => exact links_flag Arena.edited_resumeLoop
  | fallthrough id => exact links_flag Arena.edited_fallthrough
  | takeFallthrough id =>
    exact (links_takePair (f := (·.takeFallthrough id)) Arena.edited_takeFallthrough).discard
  | yieldValue id v => exact links_store Arena.edited_yieldValue
  | takeYield id => exact (links_takePair (f := (·.takeYield id)) Arena.edited_takeYield).discard
  | throwException id pending => exact links_store Arena.edited_throwException
  | takeException id => exact links_take Arena.edited_takeException
  | throwValue id v =>
    exact (links_throwValue id v).mono (fun _ hc => List.mem_cons_of_mem _ hc) fun _ _ hc => hc
  | raise id fault => exact (links_raise id fault).mono (fun _ hc => nomatch hc) fun _ _ hc => hc
  | suspendControl id =>
    exact (links_modify fun hS _ => hS.suspend id).mono (fun _ hc => hc) fun _ _ hc => nomatch hc
  | restoreControl => exact links_modify fun hS _ => hS.restore
  | pushFrame frame => exact links_pushFrame frame
  | popFrame => exact links_popFrame.discard
  | manage r =>
    exact links_registry (f := (·.manage r)) (fun _ => rfl) (fun _ => rfl) (fun _ _ h => .inr h)
      fun _ _ h => .inl h
  | unmanage r =>
    exact links_registry (f := (·.unmanage r)) (fun _ => rfl) (fun _ => rfl)
      (fun _ _ h => .inl (List.mem_of_mem_filter h)) fun _ _ h => .inl h
  | makePermanent r =>
    exact links_registry (f := (·.makePermanent r)) (fun _ => rfl) (fun _ => rfl)
      (fun _ _ h => .inl h) fun _ _ h => .inr h
  | collect extra =>
    exact (links_collectFrom extra).discard.mono (fun _ hc => nomatch hc) fun _ _ hc => hc
  | compact => exact links_collectAndSlide.discard

end Operation

/-! ## Whole runs -/

/-- The sessions there can be: a new one, and what an operation leaves of another one, however it
ends. What is handed in is null or there at the time. -/
inductive Arises (options : Options) : Session → Prop
  | new : Arises options (Session.new options)
  | step {S : Session} (h : Arises options S) (op : Operation)
      (hop : ∀ c ∈ op.mentions, S.Valid c) : Arises options (op.run.exec S).2

theorem linked_new (options : Options) : (Session.new options).Linked where
  wellFormed := Heap.wellFormed_new options.heapSize
  orderly := Arena.orderly_new
  edge := by
    intro c d h
    cases c with
    | scope id =>
      obtain ⟨s, hs, hd⟩ := refers_scope_iff.mp h
      rw [(Arena.get?_new hs).2] at hd
      cases hd
    | object r =>
      obtain ⟨header, hr, -⟩ := refers_object_iff.mp h
      cases Heap.slot?_new (Heap.header?_eq_some.mp hr).2
  root := by
    intro c hc
    -- the outermost scope is the only root
    obtain rfl := List.mem_singleton.mp (mem_roots_iff.mpr hc)
    exact .inr rfl

/-- **Nothing dangles in whole runs.** Carry out operations on a new session, in any number and
order and whether they succeed or not, where each reference handed in is null or names an object and
each scope handed in is live. Then at any time each scope that a live scope, a live object, a call or an
entered scope names is live, and each reference in a live object, in a live scope, in control state
that has been set aside or among the outside roots is null or names an object. -/
theorem no_dangling_links {options : Options} {S : Session} (h : Arises options S) : S.Linked := by
  induction h with
  | new => exact linked_new options
  | step _ op hop ih => exact (op.links _ ih hop).1

/-- An array in an array, kept by a variable of a block that has been entered. -/
def nestedArrays : Session :=
  let inner := ((Operation.newArray [.int 5]).run.exec (Session.new { heapSize := 8 })).2
  let outer := ((Operation.newArray [.ref ⟨1⟩]).run.exec inner).2
  let block := ((Operation.enterScope .block ⟨0⟩).run.exec outer).2
  ((Operation.defineVar ⟨1⟩ "nested" (.ref ⟨3⟩)).run.exec block).2

theorem nestedArrays_arises : Arises { heapSize := 8 } nestedArrays := by
  refine .step (.step (.step (.step .new _ ?_) _ ?_) _ ?_) _ ?_
  · intro c hc
    cases hc
  · intro c hc
    obtain rfl := List.mem_singleton.mp hc
    exact .inr rfl
  · intro c hc
    obtain rfl := List.mem_singleton.mp hc
    exact .inr rfl
  · intro c hc
    rcases List.mem_cons.mp hc with rfl | hc
    · exact .inr rfl
    · obtain rfl := List.mem_singleton.mp hc
      exact .inr rfl

theorem no_dangling_links_nestedArrays :
    Arises { heapSize := 8 } (Operation.compact.run.exec nestedArrays).2 ∧
      (Operation.compact.run.exec nestedArrays).2.Linked :=
  have h := nestedArrays_arises.step .compact fun _ hc => nomatch hc
  ⟨h, no_dangling_links h⟩

end Session

end ScriptCore
