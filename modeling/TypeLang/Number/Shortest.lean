import TypeLang.Number.Double

/-!
# Shortest decimals

The shortest decimal that reads back as a given double: of all decimals in the interval of numbers
that round to the double, one with the fewest digits, and of those the one nearest to the double,
a tie going to the even last digit.

The interval ends halfway to either neighbour.  Its ends belong to it when the significand is even.
Below a power of two the neighbour is twice as near.  If a grid of decimals meets the interval, so
does one of the two grid points around the double, and these are all that is tried.
-/

namespace TypeLang

/-- A decimal `d₁.d₂d₃… · 10 ^ exponent`. -/
structure Decimal where
  /-- The digits as one number, the first not zero. -/
  digits : Nat
  /-- The power of ten of the first digit. -/
  exponent : Int
  deriving DecidableEq, Repr, Inhabited

namespace Double

/-- The quarter units in one. -/
def quarters : Nat :=
  4 * one

/-- The number of decimal digits of a natural number. -/
def decimalLength (n : Nat) : Nat :=
  (Nat.toDigits 10 n).length

/-- The power of ten of the first decimal digit of a positive double: the length of the number
after it has been multiplied by a power of ten that makes any double larger than one. -/
def decimalExponent (d : Double) : Int :=
  (decimalLength (d.units * Nat.pow 10 350 / one) : Int) - 351

/-- The numbers that round to a double lie between `low` and `high` quarter units. -/
structure Interval where
  low : Nat
  high : Nat
  /-- Whether the ends belong to the interval. -/
  closed : Bool

/-- The interval of a positive finite double. -/
def interval (d : Double) : Interval :=
  let m := d.significand
  let low := if d.fractionBits = 0 ∧ 1 < d.exponentBits then 4 * m - 1 else 4 * m - 2
  ⟨low * Nat.pow 2 d.scale, (4 * m + 2) * Nat.pow 2 d.scale, m % 2 == 0⟩

/-- Whether a number of quarter units lies in the interval, all three multiplied by
`factor`. -/
def Interval.contains (i : Interval) (factor quarterUnits : Nat) : Bool :=
  if i.closed then i.low * factor ≤ quarterUnits && quarterUnits ≤ i.high * factor
  else i.low * factor < quarterUnits && quarterUnits < i.high * factor

/-- The point of the grid `10 ^ power` that reads back as a positive double and is nearest to it,
as a multiple of the grid. -/
def onGrid? (d : Double) (power : Int) : Option Nat :=
  let factor := Nat.pow 10 (-power).toNat
  let step := quarters * Nat.pow 10 power.toNat
  let value := 4 * d.units * factor
  let below := value / step
  let r := value % step
  let hits n := d.interval.contains factor (n * step)
  match hits below, hits (below + 1) with
  | true, true =>
    some (if step < 2 * r ∨ (2 * r = step ∧ below % 2 = 1) then below + 1 else below)
  | true, false => some below
  | false, true => some (below + 1)
  | false, false => none

/-- The decimal with `count` digits, if one reads back as a positive double.  Rounding up may carry
into one more digit, and then all digits but the first are zero. -/
def withDigits? (d : Double) (count : Nat) : Option Decimal :=
  let e := d.decimalExponent
  (d.onGrid? (e - (count - 1 : Nat))).map fun n =>
    if n = Nat.pow 10 count then ⟨1, e + 1⟩ else ⟨n, e⟩

/-- The shortest decimal that reads back as a positive finite double.  Seventeen digits always
do. -/
def shortest (d : Double) : Decimal :=
  ((List.range 17).findSome? fun i => d.withDigits? (i + 1)).getD ⟨0, 0⟩

end Double

end TypeLang
