import ScriptCore.Handle

/-!
# Faults

Every way in which the heap, the scopes or the call machinery can refuse a request is a
constructor of `Fault`. Faults fall into three classes: a fatal fault ends the script, a misuse
never arises in a well-formed program, and a script fault can be caught by a `try` statement,
where it appears as an object of type `Fault.scriptType`.

The wording of every fault is in `Fault.message`.
-/

namespace ScriptCore

/-- A place in a source text. -/
structure Position where
  /-- The line, from one. -/
  line : Nat
  /-- The column, from one. -/
  column : Nat
  deriving DecidableEq, Repr

namespace Position

/-- The position of code that has none. -/
def unknown : Position := ⟨0, 0⟩

/-- A position as it is shown: line and column with a colon between them. -/
def text (p : Position) : String := toString p.line ++ ":" ++ toString p.column

end Position

/-- How far a fault travels. -/
inductive Severity
  /-- The script ends; nothing can catch it. -/
  | fatal
  /-- A scope or control operation was used where it has no meaning. -/
  | misuse
  /-- An ordinary error that scripts can catch. -/
  | script
  deriving DecidableEq, Repr

/-- The causes of failure. -/
inductive Fault
  /-- No run of free slots is long enough, even after collecting. -/
  | outOfMemory (requested available : Nat)
  /-- A call would exceed the limit on nested calls. -/
  | stackOverflow (depth limit : Nat) (site : Position)
  /-- The free list does not match the heap. -/
  | freeListCorrupted (problem : String)
  /-- The reference names no object, or no array element. -/
  | invalidReference (slot : Nat)
  /-- A freed run of slots is not an object. -/
  | invalidFree (slot length : Nat) (problem : String)
  /-- A thread could not be started. -/
  | threadSpawnFailed (problem : String)
  /-- `break` without a loop to leave. -/
  | breakOutsideLoop (label : Option String)
  /-- `continue` without a loop to continue. -/
  | continueOutsideLoop (label : Option String)
  /-- `fallthrough` without a case construct. -/
  | fallthroughOutsideCase
  /-- `yield` without a case construct. -/
  | yieldOutsideCase
  /-- `return` without a function. -/
  | returnOutsideFunction
  /-- A second assignment to a constant. -/
  | constReassignment (name : String)
  /-- The name is taken within the same declaration boundary. -/
  | nameRedefinition (name : String)
  /-- The scope has been reclaimed or never existed. -/
  | unknownScope (id : ScopeId)
  /-- A field partition was named on a scope that has none. -/
  | notAnInstance (id : ScopeId)
  /-- No binding of this name is visible. -/
  | undefinedVariable (name : String)
  /-- The instance has no field of this name. -/
  | attributeNotFound (name : String)
  /-- A value or object of another kind was needed. -/
  | typeError (expected got : String)
  /-- The index lies outside the array. -/
  | indexOutOfBounds (index : Int64) (length : Nat)
  /-- A call with the wrong number of arguments. -/
  | argumentCountMismatch (function : String) (expected got : Nat)
  /-- A call of something that is no function. -/
  | notCallable (typeName : String)
  deriving DecidableEq, Repr

namespace Fault

/-- The wording of a fault. -/
def message : Fault → String
  | outOfMemory requested available =>
    s!"Out of memory: requested {requested} slots, {available} free"
  | stackOverflow depth limit site =>
    s!"Stack overflow: depth {depth} exceeds limit {limit} at line " ++ toString site.line
  | freeListCorrupted problem => s!"Free list corrupted: {problem}"
  | invalidReference slot => "Invalid reference " ++ Ref.text ⟨slot⟩
  | invalidFree slot length problem =>
    s!"Invalid free of {length} slots at " ++ Ref.text ⟨slot⟩ ++ ": " ++ problem
  | threadSpawnFailed problem => s!"Failed to spawn thread: {problem}"
  | breakOutsideLoop _ => "'break' outside of a loop"
  | continueOutsideLoop _ => "'continue' outside of a loop"
  | fallthroughOutsideCase => "'fallthrough' outside of a case"
  | yieldOutsideCase => "'yield' outside of a case expression"
  | returnOutsideFunction => "'return' outside of a function"
  | constReassignment name => s!"Attempted to modify const variable '{name}'"
  | nameRedefinition name => s!"Name '{name}' is already defined in this scope"
  | unknownScope id => "Unknown scope " ++ id.text
  | notAnInstance id => "Scope " ++ id.text ++ " is not an instance scope"
  | undefinedVariable name => s!"Undefined variable '{name}'"
  | attributeNotFound name => s!"Object has no attribute '{name}'"
  | typeError expected got => s!"Type error: expected {expected}, got {got}"
  | indexOutOfBounds index length =>
    "Index " ++ toString index.toInt ++ s!" out of bounds for length {length}"
  | argumentCountMismatch function expected got =>
    let noun := if expected == 1 then "argument" else "arguments"
    s!"Function '{function}' expects {expected} {noun}, got {got}"
  | notCallable typeName => s!"Value of type {typeName} is not callable"

/-- The class of a fault. -/
def severity : Fault → Severity
  | outOfMemory .. | stackOverflow .. | freeListCorrupted _ | invalidReference _
  | invalidFree .. | threadSpawnFailed _ => .fatal
  | breakOutsideLoop _ | continueOutsideLoop _ | fallthroughOutsideCase | yieldOutsideCase
  | returnOutsideFunction | constReassignment _ | nameRedefinition _ | unknownScope _
  | notAnInstance _ => .misuse
  | undefinedVariable _ | attributeNotFound _ | typeError .. | indexOutOfBounds ..
  | argumentCountMismatch .. | notCallable _ => .script

/-- Whether the fault ends the script. -/
def isFatal (f : Fault) : Bool := f.severity == .fatal

/-- Whether scripts can catch the fault. -/
def isCatchable (f : Fault) : Bool := f.severity == .script

/-- The type of the object a caught fault appears as. -/
def scriptType : Fault → String
  | undefinedVariable _ => "NameError"
  | attributeNotFound _ => "AttributeError"
  | typeError .. | notCallable _ | argumentCountMismatch .. => "TypeError"
  | indexOutOfBounds .. => "IndexError"
  | _ => "InternalError"

end Fault

end ScriptCore
