import ScriptCore.Node

/-!
# Heap objects

An object is a header, followed for an array by one slot per element. The header says what kind
of object it is and which other objects and scopes it refers to.

The collector reads an object's edges through `ObjectData.references` and
`ObjectData.scope?`; the compactor replaces them through `ObjectData.mapRefs`.
-/

namespace ScriptCore

/-- The kinds of callable objects. -/
inductive CallableKind
  /-- A script function. -/
  | function
  /-- A script function with a receiver. -/
  | method
  /-- A host function. -/
  | native
  deriving DecidableEq, Repr

/-- What a callable object runs. -/
inductive CallableBody
  /-- A program. -/
  | script (body : Node)
  /-- A host function. -/
  | host (body : HostFunction)

/-- A function, method or host function. -/
structure Callable where
  /-- The name shown in call traces. -/
  name : String
  /-- Its kind. -/
  kind : CallableKind
  /-- The parameter names. -/
  params : List String
  /-- What it runs. -/
  body : CallableBody
  /-- The scope it was made in, which encloses its activations. -/
  closure : Option ScopeId
  /-- The receiver of a method. -/
  this : Option Ref

/-- A class. -/
structure ClassData where
  /-- The class name. -/
  name : String
  /-- The class it extends. -/
  superclass : Option Ref
  /-- Its methods and static members. -/
  attributes : List Ref

/-- The number of machine words. Slot numbers and lengths of arrays are machine words. -/
def wordCount : Nat := UInt64.size

/-- What an object header says about its object. -/
inductive ObjectData
  /-- An array; its elements are in the slots after the header. -/
  | array (length : Nat)
  /-- An instance of a class, with the scope that holds its fields. -/
  | instanceOf (classRef : Ref) (scope : ScopeId)
  /-- A class. -/
  | classDef (data : ClassData)
  /-- A module, with the scope that holds its bindings. -/
  | moduleOf (name : String) (scope : ScopeId)
  /-- Something that can be called. -/
  | callable (c : Callable)
  /-- An object of the host, such as an error. -/
  | native (typeName : String) (payload : Value)

namespace ObjectData

/-- The name of the object's kind. -/
def kindName : ObjectData → String
  | array _ => "Array"
  | instanceOf .. => "Instance"
  | classDef _ => "Class"
  | moduleOf .. => "Module"
  | callable c =>
    match c.kind with
    | .function => "Function"
    | .method => "Method"
    | .native => "Native"
  | native .. => "NativeObject"

/-- The number of slots the object occupies, its header included. This is the exact number;
`wordSpan` is what a machine word holds of it. -/
def span : ObjectData → Nat
  | array length => length + 1
  | _ => 1

/-- The span as it is computed on machine words, where one more than the greatest is `0`. -/
def wordSpan (d : ObjectData) : Nat := d.span % wordCount

/-- The references that the header holds. -/
def references : ObjectData → List Ref
  | array _ => []
  | instanceOf classRef _ => [classRef]
  | classDef c => c.superclass.toList ++ c.attributes
  | moduleOf .. => []
  | callable c => c.this.toList
  | native _ payload => payload.reference?.toList

/-- The scope that the header holds. -/
def scope? : ObjectData → Option ScopeId
  | instanceOf _ scope | moduleOf _ scope => some scope
  | callable c => c.closure
  | _ => none

/-- Replace every reference that the header holds. -/
def mapRefs (f : Ref → Ref) : ObjectData → ObjectData
  | array length => array length
  | instanceOf classRef scope => instanceOf (f classRef) scope
  | classDef c =>
    classDef { c with superclass := c.superclass.map f, attributes := c.attributes.map f }
  | moduleOf name scope => moduleOf name scope
  | callable c => callable { c with this := c.this.map f }
  | native typeName payload => native typeName (payload.mapRef f)

/-- A one-line description. -/
def describe : ObjectData → String
  | array length => s!"Array[{length}]"
  | instanceOf classRef scope => "Instance of " ++ classRef.text ++ " (scope " ++ scope.text ++ ")"
  | classDef c => "Class " ++ c.name
  | moduleOf name _ => "Module " ++ name
  | callable c =>
    kindName (callable c) ++ " " ++ c.name ++ "(" ++ ", ".intercalate c.params ++ ")"
  | native typeName payload => typeName ++ " " ++ payload.text

@[simp] theorem span_mapRefs (f : Ref → Ref) (d : ObjectData) : (d.mapRefs f).span = d.span := by
  cases d <;> rfl

@[simp] theorem scope?_mapRefs (f : Ref → Ref) (d : ObjectData) :
    (d.mapRefs f).scope? = d.scope? := by
  cases d <;> rfl

theorem span_pos (d : ObjectData) : 0 < d.span := by
  cases d <;> simp [span]

theorem wordSpan_of_lt {d : ObjectData} (h : d.span < wordCount) : d.wordSpan = d.span :=
  Nat.mod_eq_of_lt h

theorem wordSpan_of_eq {d : ObjectData} (h : d.span = wordCount) : d.wordSpan = 0 := by
  rw [wordSpan, h, Nat.mod_self]

end ObjectData

/-- An object header: the object's data and the collector's mark. -/
structure Header where
  /-- What the object is. -/
  data : ObjectData
  /-- Whether the collector has reached the object. -/
  marked : Bool := false

/-- The number of slots the object occupies. -/
def Header.span (h : Header) : Nat := h.data.span

/-- The span as it is computed on machine words. -/
def Header.wordSpan (h : Header) : Nat := h.data.wordSpan

/-- One cell of the heap. -/
inductive Slot
  /-- A free cell. -/
  | empty
  /-- An array element. -/
  | data (v : Value)
  /-- The header of an object. -/
  | object (h : Header)

namespace Slot

/-- Whether this is a free cell. -/
def isEmpty : Slot → Bool
  | empty => true
  | _ => false

/-- The header in this cell, if there is one. -/
def header? : Slot → Option Header
  | object h => some h
  | _ => none

/-- The array element in this cell, if there is one. -/
def value? : Slot → Option Value
  | data v => some v
  | _ => none

/-- Replace every reference in this cell. -/
def mapRefs (f : Ref → Ref) : Slot → Slot
  | empty => empty
  | data v => data (v.mapRef f)
  | object h => object { h with data := h.data.mapRefs f }

end Slot

end ScriptCore
