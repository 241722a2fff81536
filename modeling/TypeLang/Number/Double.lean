/-!
# Double-precision numbers

A double is its 64 bits: sign, eleven bits of exponent, 52 bits of fraction.  Everything here is
exact arithmetic on natural numbers.  Every finite double is a whole number of *units*, the unit
being the smallest positive double, 2⁻¹⁰⁷⁴; `Double.nearest` rounds a quotient of natural numbers
to the nearest double, a tie going to the even neighbour.
-/

namespace TypeLang

/-- A double-precision number. -/
structure Double where
  /-- The bits, the sign highest. -/
  bits : UInt64
  deriving DecidableEq, Repr, Inhabited

namespace Double

/-! ## The parts of a double -/

/-- Whether the sign bit is set. -/
def isNegative (d : Double) : Bool :=
  Nat.pow 2 63 ≤ d.bits.toNat

/-- The eleven bits of exponent. -/
def exponentBits (d : Double) : Nat :=
  d.bits.toNat / Nat.pow 2 52 % Nat.pow 2 11

/-- The 52 bits of fraction. -/
def fractionBits (d : Double) : Nat :=
  d.bits.toNat % Nat.pow 2 52

/-- Whether the double is a number other than the infinities. -/
def isFinite (d : Double) : Bool :=
  d.exponentBits != 2047

/-- Whether the double is no number. -/
def isNaN (d : Double) : Bool :=
  d.exponentBits == 2047 && d.fractionBits != 0

/-- The significand of a finite double, the leading bit of a normal one included. -/
def significand (d : Double) : Nat :=
  if d.exponentBits = 0 then d.fractionBits else Nat.pow 2 52 + d.fractionBits

/-- The power of two by which the significand is to be multiplied to give units. -/
def scale (d : Double) : Nat :=
  d.exponentBits - 1

/-- The magnitude of a finite double in units. -/
def units (d : Double) : Nat :=
  d.significand * Nat.pow 2 d.scale

/-- The units in one. -/
def one : Nat :=
  Nat.pow 2 1074

/-! ## Making doubles -/

/-- Positive zero. -/
def zero : Double :=
  ⟨0⟩

/-- The bits of positive infinity. -/
def infinityBits : Nat :=
  2047 * Nat.pow 2 52

/-- The double of the opposite sign. -/
def neg (d : Double) : Double :=
  ⟨d.bits ^^^ 0x8000000000000000⟩

/-- The quotient rounded to the nearest whole number, a tie going to the even one. -/
def roundQuotient (num den : Nat) : Nat :=
  let q := num / den
  let r := num % den
  if den < 2 * r ∨ (2 * r = den ∧ q % 2 = 1) then q + 1 else q

/-- The double nearest to `num / den`, a tie going to the even neighbour; infinity from halfway
beyond the largest finite double on.

With `shift` the position of the leading bit of the units above the 53rd, the rounded significand
`m` stands for `m * 2 ^ shift` units.  Adding `shift` to the exponent bits of `m` gives the bits of
that double, also when `m` is below 2⁵² and `shift` is zero, and when rounding has made `m` equal
to 2⁵³. -/
def nearest (num den : Nat) : Double :=
  let units := num * one
  let shift := (units / den).log2 - 52
  let m := roundQuotient units (den * Nat.pow 2 shift)
  ⟨UInt64.ofNat (min (m + shift * Nat.pow 2 52) infinityBits)⟩

/-- The double nearest to a natural number. -/
def ofNat (n : Nat) : Double :=
  nearest n 1

/-- The rounded product of the magnitudes of two finite doubles. -/
def mul (a b : Double) : Double :=
  nearest (a.units * b.units) (one * one)

/-- The rounded quotient of the magnitudes of two finite doubles, the second not zero. -/
def div (a b : Double) : Double :=
  nearest a.units b.units

end Double

end TypeLang
