/-!
# Shortest decimals

A binary floating-point number stands for every real that rounds to it. Among the decimals in
that interval the shortest ones have the fewest digits; of those, `Binary.shortest` gives the one
nearest to the number, and the larger one when two are equally near.

All arithmetic is on natural numbers: the interval is measured in quarters of the distance
between neighbouring numbers, and a decimal is compared with its ends by cross-multiplying.
-/

namespace ScriptCore

/-- The positive number `mantissa * 2 ^ exponent` of a binary format. -/
structure Binary where
  /-- The integral mantissa. -/
  mantissa : Nat
  /-- The power of two it is scaled by. -/
  exponent : Int
  /-- The gap to the number below is half the gap to the number above. -/
  narrow : Bool
  deriving DecidableEq, Repr

/-- The number `digits * 10 ^ exponent`. -/
structure Decimal where
  /-- The integral digits. -/
  digits : Nat
  /-- The power of ten they are scaled by. -/
  exponent : Int
  deriving DecidableEq, Repr

/-- Compare `a * 10 ^ i` with `b * 2 ^ j`. -/
def Decimal.compareScaled (a : Nat) (i : Int) (b : Nat) (j : Int) : Ordering :=
  compare (a * Nat.pow 10 i.toNat * Nat.pow 2 (-j).toNat)
    (b * Nat.pow 2 j.toNat * Nat.pow 10 (-i).toNat)

namespace Binary

/-- Whether `d` rounds to `x`, to nearest and with ties to an even mantissa. -/
def accepts (x : Binary) (d : Decimal) : Bool :=
  let low := 4 * x.mantissa - (if x.narrow then 1 else 2)
  let high := 4 * x.mantissa + 2
  let closed := x.mantissa % 2 == 0
  let below := Decimal.compareScaled d.digits d.exponent low (x.exponent - 2)
  let above := Decimal.compareScaled d.digits d.exponent high (x.exponent - 2)
  (below == .gt || (closed && below == .eq)) && (above == .lt || (closed && above == .eq))

/-- The numerator of `x` over `x.denominator`. -/
def numerator (x : Binary) : Nat := x.mantissa * Nat.pow 2 x.exponent.toNat

/-- The power of two that makes `x` a fraction of natural numbers. -/
def denominator (x : Binary) : Nat := Nat.pow 2 (-x.exponent).toNat

/-- The least `k` with `x < 10 ^ k`, for a positive `x`. -/
def magnitude (x : Binary) : Int :=
  let n := x.numerator
  let d := x.denominator
  if d ≤ n then (toString (n / d)).length
  else 1 - ((toString ((d - 1) / n)).length : Int)

/-- The two decimals next to `x` on the grid of `10 ^ e`, the lower one first. -/
def neighbours (x : Binary) (e : Int) : Decimal × Decimal :=
  let low := x.numerator * Nat.pow 10 (-e).toNat / (x.denominator * Nat.pow 10 e.toNat)
  (⟨low, e⟩, ⟨low + 1, e⟩)

/-- The decimal on the grid of `10 ^ e` that rounds to `x`: the nearer one if both neighbours
do, and the upper one if they are equally near. -/
def onGrid (x : Binary) (e : Int) : Option Decimal :=
  let (low, high) := x.neighbours e
  match x.accepts low, x.accepts high with
  | true, true =>
    -- twice `x` against the sum of the neighbours decides which of them is nearer
    if Decimal.compareScaled (low.digits + high.digits) e (2 * x.mantissa) x.exponent == .gt then
      some low
    else some high
  | true, false => some low
  | false, true => some high
  | false, false => none

end Binary

/-- Move the zeros that end the digits into the exponent. -/
def Decimal.stripped (d : Decimal) : Decimal :=
  if 0 < d.digits ∧ d.digits % 10 = 0 then
    Decimal.stripped ⟨d.digits / 10, d.exponent + 1⟩
  else d
termination_by d.digits
decreasing_by omega

/-- The exact decimal value of `x`. -/
def Binary.exact (x : Binary) : Decimal :=
  ⟨x.numerator * Nat.pow 5 (-x.exponent).toNat, min x.exponent 0⟩

/-- The shortest decimal that rounds to the positive number `x`. Seventeen digits always
suffice for the numbers of the 64-bit format; the exact value stands behind them. -/
def Binary.shortest (x : Binary) : Decimal :=
  let k := x.magnitude
  let found := (List.range 17).findSome? fun (i : Nat) => x.onGrid (k - (i + 1))
  (found.getD x.exact).stripped

/-- A decimal without an exponent mark: the digits with as many zeros as it takes to reach the
point. -/
def Decimal.positional (d : Decimal) : String :=
  let digits := (toString d.digits).toList
  let point := (digits.length : Int) + d.exponent
  if 0 ≤ d.exponent then String.ofList (digits ++ List.replicate d.exponent.toNat '0')
  else if 0 < point then
    String.ofList (digits.take point.toNat ++ '.' :: digits.drop point.toNat)
  else String.ofList ('0' :: '.' :: List.replicate (-point).toNat '0' ++ digits)

end ScriptCore
