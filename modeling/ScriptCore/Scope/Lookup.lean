import ScriptCore.Heap.Basic
import ScriptCore.Scope.Arena

/-!
# Names

A name is looked up from a scope outward. An instance scope is searched in all its tables and
then in the instance it extends, without the private fields of that one; a method scope falls
back on its receiver. When the whole chain has no such name, the modules imported along it are
searched, from the inside out and in the order of import.

A name can be declared unless it is bound already in a scope from here up to the nearest main
scope: nested blocks of one function share their names, and a function, module or instance
boundary starts afresh.
-/

namespace ScriptCore

/-- The name under which an instance keeps the instance it extends. -/
def superName : String := "super"

/-- The name under which a method activation keeps its receiver. -/
def thisName : String := "this"

/-- The scope that holds the fields of the instance at `r`. -/
def Heap.instanceScope (h : Heap) (r : Ref) : Except Fault ScopeId := do
  match (← h.header r).data with
  | .instanceOf _ scope => return scope
  | other => throw (.typeError "instance" other.kindName)

/-- Where a name is bound: a scope and a table of it. -/
abbrev Place := ScopeId × Partition

/-- The tables of an instance in the order in which they are searched. -/
def Scope.searchOrder (private_ : Bool) : List Partition :=
  if private_ then [.generic, .priv, .prot, .pub] else [.generic, .prot, .pub]

/-- The instance that an instance scope extends. -/
def Scope.parent? (s : Scope) : Option Ref :=
  (s.bindings.get? superName).bind fun entry => entry.value.reference?

namespace Arena

/-! ## Lookup -/

/-- Find `name` in one scope and, for instances and methods, in the instances behind it.
Private fields count if `private_` holds. At most `bound` scopes are searched, which stops the
search on instances that extend each other. -/
def searchScope (a : Arena) (heap : Heap) (name : String) :
    (bound : Nat) → (private_ : Bool) → ScopeId → Except Fault (Option Place)
  | 0, _, _ => .ok none
  | bound + 1, private_, id => do
    let scope ← a.get id
    match scope.state with
    | .instance_ _ =>
      let here := (Scope.searchOrder private_).find? fun partition =>
        (scope.table? partition).any (·.contains name)
      match here, scope.parent? with
      | some partition, _ => return some (id, partition)
      | none, none => return none
      | none, some parent =>
        match heap.instanceScope parent with
        | .ok parentScope => a.searchScope heap name bound false parentScope
        | .error _ => return none
    | .method _ _ this =>
      if scope.bindings.contains name then return some (id, .pub)
      else
        match heap.instanceScope this with
        | .ok receiver => a.searchScope heap name bound true receiver
        | .error _ => return none
    | _ => return if scope.bindings.contains name then some (id, .pub) else none

/-- The bound on one search. Where a search goes next depends on the scope alone, so after one
visit more than there are scopes it is on a cycle and has seen every table it will ever see. -/
def searchBound (a : Arena) : Nat := a.liveCount + 1

/-- Find `name` among the first of the imported modules that binds it. -/
def searchNamespaces (a : Arena) (name : String) : List ScopeId → Except Fault (Option Place)
  | [] => .ok none
  | target :: rest => do
    let scope ← a.get target
    if scope.bindings.contains name then return some (target, .pub)
    else a.searchNamespaces name rest

/-- Search each scope from `id` outward until one has an answer. -/
def searchOutward (a : Arena) (search : ScopeId → Scope → Except Fault (Option Place))
    (id : ScopeId) : Except Fault (Option Place) := do
  let answer ← a.follow (fun id scope =>
    match search id scope with
    | .error fault => .done (.error fault)
    | .ok (some place) => .done (.ok (some place))
    | .ok none => .outward scope (.ok none)) id
  answer

/-- Where `name` is bound as seen from `id`. -/
def locate (a : Arena) (heap : Heap) (id : ScopeId) (name : String) :
    Except Fault (Option Place) := do
  let bound := a.searchBound
  match ← a.searchOutward (fun id _ => a.searchScope heap name bound true id) id with
  | some place => return some place
  | none => a.searchOutward (fun _ scope => a.searchNamespaces name scope.namespaces) id

/-- Where the instance at `r` has the member `name`. -/
def locateMember (a : Arena) (heap : Heap) (r : Ref) (name : String) :
    Except Fault (Option Place) := do
  a.searchScope heap name a.searchBound true (← heap.instanceScope r)

/-- The binding of `name` at a place. -/
def entry (a : Arena) (place : Place) (name : String) : Except Fault Binding := do
  match (← a.get place.1).table? place.2 with
  | none => throw (.notAnInstance place.1)
  | some table =>
    match table.get? name with
    | none => throw (.undefinedVariable name)
    | some entry => return entry

/-- Change the table of a place. -/
def modifyTable (a : Arena) (place : Place) (f : Bindings → Bindings) : Arena :=
  a.modify place.1 fun scope =>
    match scope.table? place.2 with
    | some table => scope.setTable place.2 (f table)
    | none => scope

/-- Assign to the binding of `name` at a place. A constant is assigned once. -/
def assignAt (a : Arena) (place : Place) (name : String) (v : Value) : Except Fault Arena := do
  let entry ← a.entry place name
  if entry.constant && !entry.value.isUndefined then throw (.constReassignment name)
  else return a.modifyTable place (·.assign name v)

/-- The value of `name` as seen from `id`. -/
def lookup (a : Arena) (heap : Heap) (id : ScopeId) (name : String) : Except Fault Value := do
  match ← a.locate heap id name with
  | some place => return (← a.entry place name).value
  | none => throw (.undefinedVariable name)

/-- Assign to `name` as seen from `id`. -/
def assign (a : Arena) (heap : Heap) (id : ScopeId) (name : String) (v : Value) :
    Except Fault Arena := do
  match ← a.locate heap id name with
  | some place => a.assignAt place name v
  | none => throw (.undefinedVariable name)

/-- Whether `name` is bound as seen from `id`. -/
def hasName (a : Arena) (heap : Heap) (id : ScopeId) (name : String) : Bool :=
  match a.locate heap id name with
  | .ok (some _) => true
  | _ => false

/-- The member `name` of the instance at `r`. -/
def member (a : Arena) (heap : Heap) (r : Ref) (name : String) : Except Fault Value := do
  match ← a.locateMember heap r name with
  | some place => return (← a.entry place name).value
  | none => throw (.attributeNotFound name)

/-- Assign to the member `name` of the instance at `r`. -/
def assignMember (a : Arena) (heap : Heap) (r : Ref) (name : String) (v : Value) :
    Except Fault Arena := do
  match ← a.locateMember heap r name with
  | some place => a.assignAt place name v
  | none => throw (.attributeNotFound name)

/-! ## Declarations -/

/-- Whether `name` is bound between `id` and its declaration boundary. -/
def isDeclared (a : Arena) (id : ScopeId) (name : String) : Except Fault Bool :=
  a.follow (fun _ scope =>
    if scope.binds name then .done true
    else if scope.isMain then .done false
    else .outward scope false) id

/-- Declare `name` in a table of `id`. -/
def defineField (a : Arena) (id : ScopeId) (partition : Partition) (name : String)
    (entry : Binding) : Except Fault Arena := do
  if partition != .pub then
    if ((← a.get id).table? partition).isNone then throw (.notAnInstance id)
  if ← a.isDeclared id name then throw (.nameRedefinition name)
  return a.modifyTable (id, partition) (·.insert name entry)

/-- Declare a variable in `id`. -/
def defineVar (a : Arena) (id : ScopeId) (name : String) (v : Value) : Except Fault Arena :=
  a.defineField id .pub name ⟨v, false⟩

/-- Declare a constant in `id`; an undefined one can be assigned once. -/
def defineConst (a : Arena) (id : ScopeId) (name : String) (v : Value) : Except Fault Arena :=
  a.defineField id .pub name ⟨v, true⟩

end Arena

end ScriptCore
