import ScriptCore.Fault
import ScriptCore.Node
import ScriptCore.Scope.Binding

/-!
# Scopes

A scope has a parent, bindings, the module scopes imported into it, and the state that belongs to
its kind. Part of that state is *control*: the pending return of an activation, the flags of a
loop, the state of a case construct, and the exception waiting at a scope that catches them.

* Scopes of the main category (global, module, function, method, instance) bound declarations;
  those of the sub category (block, loop, case, try, thread) are nested in them.
* `Scope.values` and `Scope.mapRefs` read and replace everything a scope refers to in the heap.
-/

namespace ScriptCore

/-! ## Control state -/

/-- The pending return of an activation. -/
structure ReturnState where
  /-- Whether a value has been returned. -/
  returned : Bool := false
  /-- The value returned. -/
  value : Value := .undefined
  deriving DecidableEq, Repr

/-- The flags of a loop. -/
structure LoopFlags where
  /-- The loop is being left. -/
  broken : Bool := false
  /-- The iteration is being cut short. -/
  paused : Bool := false
  deriving DecidableEq, Repr

/-- The state of a case construct. -/
structure CaseState where
  /-- The next arm is to run. -/
  fallthrough : Bool := false
  /-- The value of the construct. -/
  yielded : Option Value := none
  deriving DecidableEq, Repr

/-- A thrown value and the call trace at the throw. -/
structure Pending where
  /-- The value thrown. -/
  value : Value
  /-- The calls that were active, the innermost first. -/
  trace : List String
  deriving DecidableEq, Repr

/-- The control state of a scope that owns some. -/
inductive Control
  /-- Of a function or method activation. -/
  | returning (state : ReturnState)
  /-- Of a loop. -/
  | looping (flags : LoopFlags)
  /-- Of a case construct. -/
  | selecting (state : CaseState)
  /-- Of a scope that catches exceptions. -/
  | catching (exception : Option Pending)
  deriving DecidableEq, Repr

namespace Control

/-- Whether a signal is pending. -/
def isPending : Control → Bool
  | returning state => state.returned
  | looping flags => flags.broken || flags.paused
  | selecting state => state.fallthrough || state.yielded.isSome
  | catching exception => exception.isSome

/-- The control state of the same kind with nothing pending. -/
def cleared : Control → Control
  | returning _ => returning {}
  | looping _ => looping {}
  | selecting _ => selecting {}
  | catching _ => catching none

/-- The values held. -/
def values : Control → List Value
  | returning state => [state.value]
  | looping _ => []
  | selecting state => state.yielded.toList
  | catching exception => (exception.map (·.value)).toList

/-- Replace every reference held. -/
def mapRefs (f : Ref → Ref) : Control → Control
  | returning state => returning { state with value := state.value.mapRef f }
  | looping flags => looping flags
  | selecting state => selecting { state with yielded := state.yielded.map (·.mapRef f) }
  | catching exception =>
    catching (exception.map fun pending => { pending with value := pending.value.mapRef f })

@[simp] theorem isPending_cleared (c : Control) : c.cleared.isPending = false := by
  cases c <;> rfl

end Control

/-! ## Kinds of scopes -/

/-- Whether a scope bounds declarations. -/
inductive Category
  /-- It does. -/
  | main
  /-- It is nested in a scope that does. -/
  | sub
  deriving DecidableEq, Repr

/-- The kinds of scopes. -/
inductive ScopeKind
  /-- The outermost scope. -/
  | global
  /-- The scope of a module. -/
  | module
  /-- The activation of a function. -/
  | function
  /-- The activation of a method. -/
  | method
  /-- The fields of an instance. -/
  | instance_
  /-- A block of statements. -/
  | block
  /-- A loop without a title. -/
  | loop
  /-- A loop with a title. -/
  | titledLoop
  /-- A case construct. -/
  | select
  /-- The body of a `try` statement. -/
  | attempt
  /-- The start of a thread. -/
  | thread
  deriving DecidableEq, Repr

/-- The category of a kind of scope. -/
def ScopeKind.category : ScopeKind → Category
  | global | module | function | method | instance_ => .main
  | block | loop | titledLoop | select | attempt | thread => .sub

/-- The fields of an instance that are not public. -/
structure InstanceFields where
  /-- Generic parameters. -/
  generics : Bindings := {}
  /-- Private fields. -/
  priv : Bindings := {}
  /-- Protected fields. -/
  prot : Bindings := {}
  deriving DecidableEq, Repr

/-- What belongs to a scope by its kind. -/
inductive ScopeState
  /-- The outermost scope catches what nothing else does. -/
  | global (exception : Option Pending)
  /-- A module. -/
  | module (name : String)
  /-- A function activation: the scope it was called from, and its pending return. -/
  | function (calling : Option ScopeId) (ret : ReturnState)
  /-- A method activation has a receiver besides. -/
  | method (calling : Option ScopeId) (ret : ReturnState) (this : Ref)
  /-- An instance; its public fields are the scope's bindings. -/
  | instance_ (fields : InstanceFields)
  /-- A block. -/
  | block
  /-- A loop. -/
  | loop (title : Option String) (flags : LoopFlags)
  /-- A case construct. -/
  | select (state : CaseState)
  /-- The body of a `try` statement. -/
  | attempt (exception : Option Pending)
  /-- The start of a thread. -/
  | thread (exception : Option Pending)
  deriving DecidableEq, Repr

namespace ScopeState

/-- The kind of scope. -/
def kind : ScopeState → ScopeKind
  | global _ => .global
  | module _ => .module
  | function .. => .function
  | method .. => .method
  | instance_ _ => .instance_
  | block => .block
  | loop none _ => .loop
  | loop (some _) _ => .titledLoop
  | select _ => .select
  | attempt _ => .attempt
  | thread _ => .thread

/-- The control state, for the kinds that own some. -/
def control? : ScopeState → Option Control
  | global exception | attempt exception | thread exception => some (.catching exception)
  | function _ ret | method _ ret _ => some (.returning ret)
  | loop _ flags => some (.looping flags)
  | select state => some (.selecting state)
  | module _ | instance_ _ | block => none

/-- Replace the control state, if it is of the kind that this scope owns. -/
def setControl : Control → ScopeState → ScopeState
  | .catching exception, global _ => global exception
  | .catching exception, attempt _ => attempt exception
  | .catching exception, thread _ => thread exception
  | .returning ret, function calling _ => function calling ret
  | .returning ret, method calling _ this => method calling ret this
  | .looping flags, loop title _ => loop title flags
  | .selecting state, select _ => select state
  | _, state => state

/-- The scope an activation was called from. -/
def calling? : ScopeState → Option ScopeId
  | function calling _ | method calling _ _ => calling
  | _ => none

/-- The values held. -/
def values : ScopeState → List Value
  | instance_ fields => fields.generics.values ++ fields.priv.values ++ fields.prot.values
  | method _ ret this => [ret.value, Value.ofRef this]
  | state => (state.control?.map Control.values).getD []

/-- Replace every reference held. -/
def mapRefs (f : Ref → Ref) : ScopeState → ScopeState
  | instance_ fields => instance_ {
      generics := fields.generics.mapRefs f
      priv := fields.priv.mapRefs f
      prot := fields.prot.mapRefs f }
  | method calling ret this => method calling { ret with value := ret.value.mapRef f } (f this)
  | state => (state.control?.map fun c => state.setControl (c.mapRefs f)).getD state

@[simp] theorem kind_setControl (c : Control) (s : ScopeState) : (s.setControl c).kind = s.kind := by
  cases c <;> cases s <;> try rfl
  rename_i title _; cases title <;> rfl

@[simp] theorem setControl_control? (s : ScopeState) {c : Control} (h : s.control? = some c) :
    s.setControl c = s := by
  cases s <;> simp_all [control?] <;> subst h <;> rfl

end ScopeState

/-! ## Scopes -/

/-- A scope. -/
structure Scope where
  /-- What belongs to its kind. -/
  state : ScopeState
  /-- The enclosing scope. -/
  outer : Option ScopeId
  /-- The names bound in it. -/
  bindings : Bindings := {}
  /-- The module scopes imported into it, in the order of import. -/
  namespaces : List ScopeId := []
  /-- A number that no other scope ever has. -/
  serial : Nat
  deriving DecidableEq, Repr

namespace Scope

/-- The kind of scope. -/
def kind (s : Scope) : ScopeKind := s.state.kind

/-- Whether the scope bounds declarations. -/
def isMain (s : Scope) : Bool := s.kind.category == .main

/-- The control state of the scope. -/
def control? (s : Scope) : Option Control := s.state.control?

/-- Replace the control state of the scope. -/
def setControl (c : Control) (s : Scope) : Scope := { s with state := s.state.setControl c }

/-- Every value the scope holds. -/
def values (s : Scope) : List Value := s.bindings.values ++ s.state.values

/-- Replace every reference the scope holds. -/
def mapRefs (f : Ref → Ref) (s : Scope) : Scope :=
  { s with bindings := s.bindings.mapRefs f, state := s.state.mapRefs f }

/-- The table of a partition. Every scope has the public one, an instance has them all. -/
def table? (s : Scope) : Partition → Option Bindings
  | .pub => some s.bindings
  | partition =>
    match s.state, partition with
    | .instance_ fields, .generic => some fields.generics
    | .instance_ fields, .priv => some fields.priv
    | .instance_ fields, .prot => some fields.prot
    | _, _ => none

/-- Replace the table of a partition that the scope has. -/
def setTable (s : Scope) (partition : Partition) (table : Bindings) : Scope :=
  match s.state, partition with
  | _, .pub => { s with bindings := table }
  | .instance_ fields, .generic => { s with state := .instance_ { fields with generics := table } }
  | .instance_ fields, .priv => { s with state := .instance_ { fields with priv := table } }
  | .instance_ fields, .prot => { s with state := .instance_ { fields with prot := table } }
  | _, _ => s

/-- Whether one of the scope's tables binds `name`. -/
def binds (s : Scope) (name : String) : Bool :=
  [Partition.pub, .generic, .priv, .prot].any fun partition =>
    (s.table? partition).any (·.contains name)

end Scope

end ScriptCore
