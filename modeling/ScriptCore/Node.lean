import ScriptCore.Fault
import ScriptCore.Value

/-!
# Programs

The tree language that sessions evaluate, and the host functions that scripts can call. A node
is evaluated in a scope and gives a value; what each one does is said in
`ScriptCore.Session.Eval`.
-/

namespace ScriptCore

/-- Where an instance keeps a field. -/
inductive Partition
  /-- An ordinary binding of the instance's scope. -/
  | pub
  /-- A generic parameter. -/
  | generic
  /-- Visible in the instance itself only. -/
  | priv
  /-- Visible in the instance and in those that extend it. -/
  | prot
  deriving DecidableEq, Repr

/-- The host functions. -/
inductive HostFunction
  /-- Twice its argument. -/
  | double
  /-- Its argument. -/
  | echo
  /-- The sum of its arguments. -/
  | sum
  /-- Adds its argument to the variable `total`. -/
  | add
  /-- The length of an array. -/
  | len
  /-- Throws its argument. -/
  | throws
  /-- Returns its argument from the calling activation. -/
  | returns
  /-- Collects garbage and gives the number of objects freed. -/
  | collect
  /-- Calls its first argument with the others. -/
  | apply
  deriving DecidableEq, Repr

/-- Programs. -/
inductive Node
  /-- A literal value. -/
  | lit (v : Value)
  /-- The value of a name. -/
  | var (name : String)
  /-- Declare a name with a value, as a variable or as a constant. -/
  | define (constant : Bool) (name : String) (init : Node)
  /-- Declare a constant without a value. -/
  | declare (name : String)
  /-- Assign to a name. -/
  | assign (name : String) (value : Node)
  /-- Add one to an integer variable. -/
  | increment (name : String)
  /-- Whether an integer variable is less than a number. -/
  | less (name : String) (bound : Int64)
  /-- Whether an integer variable equals a number. -/
  | equal (name : String) (number : Int64)
  /-- Write a line. -/
  | emit (line : String)
  /-- Write the text of a value. -/
  | display (value : Node)
  /-- Choose between two blocks. -/
  | cond (condition : Node) (yes no : List Node)
  /-- Statements in the same scope. -/
  | seq (body : List Node)
  /-- Statements in a scope of their own. -/
  | block (body : List Node)
  /-- A loop with an optional title, condition and update. -/
  | loop (title : Option String) (condition update : Option Node) (body : List Node)
  /-- Leave a loop. -/
  | leave (label : Option String)
  /-- Go on with the next iteration of a loop. -/
  | skip (label : Option String)
  /-- Go on with the next arm of a case construct. -/
  | fallthrough
  /-- Return from a function. -/
  | ret (value : Option Node)
  /-- Throw a value. -/
  | raise (value : Node)
  /-- A `try` statement with an optional handler and an optional final block. -/
  | attempt (body : List Node) (handler : Option (String × List Node))
      (final : Option (List Node))
  /-- A case construct; an arm without a pattern is the default. -/
  | select (subject : Node) (arms : List (Option Node × List Node))
  /-- Give a case construct its value. -/
  | yield (value : Node)
  /-- A call. -/
  | call (callee : Node) (args : List Node) (site : Position)
  /-- A new array. -/
  | array (elements : List Node)
  /-- An element of an array. -/
  | index (array : Node) (position : Int64)
  /-- Assign to an element of an array. -/
  | setIndex (array : Node) (position : Int64) (value : Node)
  /-- A new function. -/
  | function (name : String) (params : List String) (body : List Node)
  /-- A new method, bound to its receiver. -/
  | method (receiver : Node) (name : String) (params : List String) (body : List Node)
  /-- A new host function. -/
  | host (name : String) (arity : Nat) (body : HostFunction)
  /-- A new class. -/
  | classDef (name : String) (parent : Option Node) (attributes : List Node)
  /-- A new instance of a class. -/
  | new (classRef : Node)
  /-- Declare a field of an instance. -/
  | field (target : Node) (partition : Partition) (name : String) (value : Node)
  /-- The value of a member. -/
  | member (target : Node) (name : String)
  /-- Assign to a member. -/
  | setMember (target : Node) (name : String) (value : Node)
  /-- Make one instance extend another. -/
  | extend (child parent : Node)
  /-- A new module, whose body runs in the module's scope. -/
  | moduleDef (name : String) (body : List Node)
  /-- Import a module. -/
  | useModule (target : Node)
  /-- A new error object. -/
  | error (typeName message : String)
  /-- Collect garbage. -/
  | collect
  /-- Collect garbage and slide what is left together. -/
  | compact
  /-- Fail with a fault. -/
  | fail (fault : Fault)
  /-- Run a function on a new thread. -/
  | spawn (callee : Node) (args : List Node) (daemon : Bool)
  /-- The number of nested calls. -/
  | depth

/-- An arm of a case construct: a pattern, or none for the default, and a body. -/
abbrev Arm := Option Node × List Node

end ScriptCore
