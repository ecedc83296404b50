import ScriptCore.Session.Basic

/-!
# Allocation

An allocation that finds no room collects garbage and tries again, then slides the objects
together, if that is allowed, and tries once more.

While an allocation runs, the references that the new object will hold are guarded: the objects
they name survive a collection, and a compaction moves the guarded references along, so that the
new object is written with references that are right.
-/

namespace ScriptCore.Session

/-! ## Collection -/

/-- The scopes and values in use by the session, and the scope `extra` if one is given. -/
def rootSet (s : Session) (extra : Option ScopeId) : RootSet where
  scopes := s.stack.frames.map (·.scope) ++ s.entered ++ extra.toList
  values := s.threads.values

/-- Check the free list, if contracts are to be checked. -/
def verifyIfChecked : Run Unit := do
  let memory := (← get).memory
  if memory.checked then Run.ofExcept memory.verify

/-- Collect garbage, keeping `extra` if it is given. -/
def collectFrom (extra : Option ScopeId) : Run CollectionReport := do
  let report ← modifyGet fun s =>
    let (report, memory, arena) := collect s.memory s.arena (s.rootSet extra)
    (report, { s with memory, arena })
  Run.report (.collected report)
  verifyIfChecked
  return report

/-- Slide the objects together and give the number of those that moved. -/
def slide : Run Nat := do
  let moved ← modifyGet fun s =>
    let (forwarding, memory, arena) := compact s.memory s.arena
    (forwarding.length,
      { s with memory, arena, threads := s.threads.mapRefs forwarding.resolve })
  Run.report (.compacted moved (← get).memory.available)
  verifyIfChecked
  return moved

/-- Collect garbage and slide what is left together. -/
def collectAndSlide : Run Nat := do
  let _ ← collectFrom none
  slide

/-! ## Slots -/

/-- Take `size` consecutive slots, if the free list has them. -/
def tryAllocate (size : Nat) : Run (Option Ref) :=
  modifyGet fun s =>
    match s.memory.tryAllocate size with
    | some (r, memory) => (some r, { s with memory })
    | none => (none, s)

/-- Slide the objects together, if that is allowed, and try again to take `size` slots. -/
def slideAndRetry (size : Nat) : Run (Option Ref) := do
  if (← get).options.compaction then
    let _ ← slide
    tryAllocate size
  else return none

/-- Take at least one and in all `size` consecutive slots. -/
def allocate (size : Nat) : Run Ref := do
  let size := max size 1
  if let some r ← tryAllocate size then return r
  Run.report (.heapExhausted size (← get).memory.available)
  let _ ← collectFrom none
  if let some r ← tryAllocate size then return r
  if let some r ← slideAndRetry size then return r
  Run.fail (.outOfMemory size (← get).memory.available)

/-- Take `size` slots while `values` and `scope` are in use, and give the values as they are
afterwards. -/
def allocateHolding (size : Nat) (values : List Value) (scope : Option ScopeId) :
    Run (Ref × List Value) := do
  let before ← get
  set { before with
    memory := before.memory.guard values
    entered := scope.toList ++ before.entered }
  let result ← Run.outcome (allocate size)
  let held ← modifyGet fun s =>
    let (held, memory) := s.memory.releaseGuard before.memory.guarded.length
    (held, { s with memory, entered := before.entered })
  return (← Run.ofOutcome result, held)

/-! ## Objects -/

/-- Write the elements of a new array. -/
def fillArray (r : Ref) (elements : List Value) : Run Unit :=
  Run.modifyMemory fun m => do
    let heap ← elements.zipIdx.foldlM
      (fun heap (v, index) => heap.write (r.slot + (index + 1)) v) m.heap
    return { m with heap }

/-- A new array. -/
def newArray (elements : List Value) : Run Ref := do
  let (r, elements) ← allocateHolding (elements.length + 1) elements none
  fillArray r elements
  Run.report (.allocatedArray r elements.length)
  return r

/-- Where a reference that was held during an allocation is now. -/
def relocated (held : List Ref) (now : List Value) (r : Ref) : Ref :=
  match (held.zip now).lookup r with
  | some (.ref moved) => moved
  | _ => r

/-- A new object. -/
def newObject (data : ObjectData) : Run Ref := do
  if let .array length := data then
    return ← newArray (List.replicate length .null)
  let held := data.references
  let (r, now) ← allocateHolding 1 (held.map Value.ref) data.scope?
  Run.modifyMemory fun m => m.init r ⟨data.mapRefs (relocated held now), false⟩
  Run.report (.allocatedObject r)
  return r

/-- A new function made in the scope `closure`. -/
def newFunction (name : String) (params : List String) (body : Node) (closure : ScopeId) :
    Run Ref :=
  newObject (.callable
    { name, kind := .function, params, body := .script body, closure := some closure,
      this := none })

/-- A new method made in the scope `closure` and bound to `this`. -/
def newMethod (name : String) (params : List String) (body : Node) (closure : ScopeId)
    (this : Ref) : Run Ref :=
  newObject (.callable
    { name, kind := .method, params, body := .script body, closure := some closure,
      this := some this })

/-- The parameter names of a host function. -/
def hostParams (arity : Nat) : List String := (List.range arity).map fun i => s!"arg{i}"

/-- A new host function. -/
def newHost (name : String) (arity : Nat) (body : HostFunction) : Run Ref :=
  newObject (.callable
    { name, kind := .native, params := hostParams arity, body := .host body, closure := none,
      this := none })

/-- A new class. -/
def newClass (name : String) (superclass : Option Ref) (attributes : List Ref) : Run Ref :=
  newObject (.classDef { name, superclass, attributes })

/-- A new error object. -/
def newError (typeName message : String) : Run Ref := newObject (.native typeName (.str message))

/-- Make a scope. -/
def createScope (state : ScopeState) (outer : Option ScopeId) : Run ScopeId :=
  Run.takeScopes (·.create state outer)

/-- A new instance of a class, with a scope for its fields. -/
def newInstance (classRef : Ref) (outer : ScopeId) : Run (Ref × ScopeId) := do
  let scope ← createScope (.instance_ {}) (some outer)
  return (← newObject (.instanceOf classRef scope), scope)

/-- A new module, with a scope for its bindings. -/
def newModule (name : String) (outer : ScopeId) : Run (Ref × ScopeId) := do
  let scope ← createScope (.module name) (some outer)
  return (← newObject (.moduleOf name scope), scope)

end ScriptCore.Session
