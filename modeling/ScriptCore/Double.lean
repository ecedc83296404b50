import ScriptCore.Decimal

/-!
# Floating-point numbers

Scripts store and compare 64-bit floating-point numbers but do no arithmetic on them here, so a
`Double` is the bit pattern itself: one sign bit, eleven exponent bits and 52 fraction bits.

* `Double.equals` is numeric equality: the two zeros are equal and a not-a-number equals nothing.
* `Double.text` writes the shortest digits that identify the number, never with an exponent.
-/

namespace ScriptCore

/-- A 64-bit floating-point number, given by its bits. -/
structure Double where
  /-- Sign, exponent and fraction, from the high end down. -/
  bits : UInt64
  deriving DecidableEq, Repr

namespace Double

/-- Whether the sign bit is set. -/
def negative (x : Double) : Bool := x.bits.toNat / Nat.pow 2 63 == 1

/-- The biased exponent. -/
def exponentField (x : Double) : Nat := x.bits.toNat / Nat.pow 2 52 % Nat.pow 2 11

/-- The fraction bits. -/
def fractionField (x : Double) : Nat := x.bits.toNat % Nat.pow 2 52

/-- Whether this is one of the two zeros. -/
def isZero (x : Double) : Bool := x.bits.toNat % Nat.pow 2 63 == 0

/-- Whether this is not a number. -/
def isNaN (x : Double) : Bool := x.exponentField == 2047 && x.fractionField != 0

/-- Whether this is one of the two infinities. -/
def isInfinite (x : Double) : Bool := x.exponentField == 2047 && x.fractionField == 0

/-- Numeric equality. -/
def equals (x y : Double) : Bool :=
  !x.isNaN && !y.isNaN && (x.bits == y.bits || (x.isZero && y.isZero))

/-- The absolute value of a finite number: subnormal numbers have no hidden bit, and below a
power of two the gap is half as wide. -/
def magnitude (x : Double) : Binary :=
  let e := x.exponentField
  let f := x.fractionField
  if e == 0 then ⟨f, -1074, false⟩
  else ⟨Nat.pow 2 52 + f, (e : Int) - 1075, f == 0 && 1 < e⟩

/-- The number as it is shown. -/
def text (x : Double) : String :=
  if x.isNaN then "NaN"
  else
    let digits :=
      if x.isInfinite then "inf"
      else if x.isZero then "0"
      else x.magnitude.shortest.positional
    if x.negative then "-" ++ digits else digits

theorem equals_comm (x y : Double) : x.equals y = y.equals x := by
  simp only [equals, Bool.and_comm, BEq.comm (a := x.bits)]

theorem equals_self (x : Double) : x.equals x = !x.isNaN := by
  simp [equals]

end Double

end ScriptCore
