import TypeLang.Json.Basic

/-!
# The value of a JSON number

A number is read in one pass: its digits make up a 64-bit significand for as long as they fit, and
the rest only count.  The value is the double nearest to the significand, multiplied or divided by
the double nearest to a power of ten; each of the two steps rounds.  So the result may differ from
the double nearest to the number in the last bit.
-/

namespace TypeLang.Json

/-- Appends decimal digits to a significand while it fits 64 bits.  Gives the significand and the
number of digits that are left over. -/
def accumulate (significand : Nat) : List Nat → Nat × Nat
  | [] => (significand, 0)
  | d :: rest =>
    if significand * 10 + d < Nat.pow 2 64 then accumulate (significand * 10 + d) rest
    else (significand, rest.length + 1)

/-- The double nearest to a power of ten. -/
def powerOfTen (n : Nat) : Double :=
  Double.ofNat (Nat.pow 10 n)

/-- A non-negative double times a power of ten, unless that is infinite.  Powers below 10⁻³⁰⁸ are
taken in steps. -/
def timesPower? (d : Double) (exponent : Int) : Option Double :=
  if 0 ≤ exponent then
    if exponent ≤ 308 then
      let product := d.mul (powerOfTen exponent.toNat)
      if product.isFinite then some product else none
    else if d = Double.zero then some d
    else none
  else if -308 ≤ exponent then some (d.div (powerOfTen (-exponent).toNat))
  else if d = Double.zero then some d
  else timesPower? (d.div (powerOfTen 308)) (exponent + 308)
termination_by (-exponent).toNat
decreasing_by omega

/-- A sign put onto a non-negative double. -/
def signed (negative : Bool) (d : Double) : Double :=
  if negative then d.neg else d

/-- The number with an integer for its text: a whole number if it fits the range of 64-bit
integers, signed or not, and a double otherwise and for `-0`. -/
def ofSignificand (negative : Bool) (significand : Nat) : Json :=
  if !negative then .integer significand
  else if significand ≠ 0 ∧ significand ≤ Nat.pow 2 63 then .integer (-(significand : Int))
  else .double (Double.ofNat significand).neg

end TypeLang.Json
