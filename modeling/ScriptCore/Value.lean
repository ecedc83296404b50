import ScriptCore.Double
import ScriptCore.Handle

/-!
# Values

A `Value` is what a binding, an array element or a control signal can hold. Primitive values
are stored in place; a heap object is reached through a `Ref`. `Value.undefined` marks a
constant that has been declared and not assigned yet.

`null` and a null reference are different values that are both null to `Value.isNull`, and
`Value.ofRef` turns a null reference into `null`.
-/

namespace ScriptCore

/-- A runtime value. -/
inductive Value
  /-- A declared constant that has no value yet. -/
  | undefined
  /-- The null value. -/
  | null
  /-- A truth value. -/
  | bool (b : Bool)
  /-- A 64-bit integer, which wraps around. -/
  | int (n : Int64)
  /-- A floating-point number. -/
  | float (x : Double)
  /-- A character. -/
  | char (c : Char)
  /-- A string. -/
  | str (s : String)
  /-- A reference to a heap object. -/
  | ref (r : Ref)
  deriving DecidableEq, Repr

namespace Value

instance : Inhabited Value := ⟨undefined⟩

/-- The value that stands for a reference: `null` for the null reference. -/
def ofRef (r : Ref) : Value := if r.isNull then null else ref r

/-- Whether this is the mark of an unassigned constant. -/
def isUndefined : Value → Bool
  | undefined => true
  | _ => false

/-- Whether this is null, as a value or as a reference. -/
def isNull : Value → Bool
  | null => true
  | ref r => r.isNull
  | _ => false

/-- The heap object this value refers to, if it is a non-null reference. -/
def reference? : Value → Option Ref
  | ref r => if r.isNull then none else some r
  | _ => none

/-- The integer this value is, if it is one. -/
def int? : Value → Option Int64
  | int n => some n
  | _ => none

/-- Replace the reference this value holds, if it holds one. -/
def mapRef (f : Ref → Ref) : Value → Value
  | ref r => ref (f r)
  | v => v

/-- Whether a condition with this value holds: null, false, zero and the empty string do not. -/
def isTruthy : Value → Bool
  | undefined | null => false
  | bool b => b
  | int n => n != 0
  | float x => !x.isZero
  | char _ => true
  | str s => s != ""
  | ref r => !r.isNull

/-- The name of the value's type. -/
def typeName : Value → String
  | undefined => "undefined"
  | null => "null"
  | bool _ => "bool"
  | int _ => "int"
  | float _ => "float"
  | char _ => "char"
  | str _ => "string"
  | ref _ => "reference"

/-- Equality of values as scripts see it: equal types and contents, with numeric equality of
floating-point numbers. -/
def equals : Value → Value → Bool
  | float x, float y => x.equals y
  | v, w => v == w

/-- The value as it is shown. Text is quoted and not escaped. -/
def text : Value → String
  | undefined => "<unassigned>"
  | null => "null"
  | bool b => if b then "true" else "false"
  | int n => toString n.toInt
  | float x => x.text
  | char c => "'" ++ String.singleton c ++ "'"
  | str s => "\"" ++ s ++ "\""
  | ref r => r.text

@[simp] theorem mapRef_id (v : Value) : v.mapRef id = v := by cases v <;> rfl

@[simp] theorem mapRef_mapRef (f g : Ref → Ref) (v : Value) :
    (v.mapRef f).mapRef g = v.mapRef (g ∘ f) := by cases v <;> rfl

/-- A replacement of references that keeps null where it is commutes with reading the reference. -/
theorem reference?_mapRef {f : Ref → Ref} (hf : ∀ r, (f r).isNull = r.isNull) (v : Value) :
    (v.mapRef f).reference? = v.reference?.map f := by
  cases v with
  | ref r => simp only [mapRef, reference?, hf]; split <;> rfl
  | _ => rfl

end Value

end ScriptCore
