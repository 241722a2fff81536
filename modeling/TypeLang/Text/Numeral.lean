/-!
# Numerals

Reading whole numbers in a given radix within given bounds.  One `+` may lead; a `-` may lead only
where negative numbers are admitted.  The digits are read from the left, and the first character
that is no digit or takes the value out of bounds decides the fault.
-/

namespace TypeLang.Text

/-- Why a text is not a numeral. -/
inductive NumeralFault where
  | empty
  /-- A character is no digit of the radix, or a sign stands alone. -/
  | invalidDigit
  /-- The value exceeds the largest one admitted. -/
  | tooLarge
  deriving DecidableEq, Repr

/-- The wording of a fault. -/
def NumeralFault.message : NumeralFault → String
  | .empty => "cannot parse integer from empty string"
  | .invalidDigit => "invalid digit found in string"
  | .tooLarge => "number too large to fit in target type"

/-- The value of a digit of any radix up to 36; letters count from ten in either case. -/
def digitValue? (radix : Nat) (c : Char) : Option Nat :=
  let n := c.toNat
  let value? :=
    if 0x30 ≤ n ∧ n ≤ 0x39 then some (n - 0x30)
    else if 0x61 ≤ n ∧ n ≤ 0x7A then some (n - 0x61 + 10)
    else if 0x41 ≤ n ∧ n ≤ 0x5A then some (n - 0x41 + 10)
    else none
  value?.filter (· < radix)

/-- Reads digits onto the value `acc` of those before them. -/
def digits (radix limit : Nat) (acc : Nat) : List Char → Except NumeralFault Nat
  | [] => .ok acc
  | c :: rest =>
    match digitValue? radix c with
    | none => .error .invalidDigit
    | some d =>
      if acc * radix + d ≤ limit then digits radix limit (acc * radix + d) rest
      else .error .tooLarge

/-- Reads a natural number up to `limit`. -/
def natural (radix limit : Nat) : List Char → Except NumeralFault Nat
  | [] => .error .empty
  | ['+'] => .error .invalidDigit
  | '+' :: rest => digits radix limit 0 rest
  | s => digits radix limit 0 s

/-- Reads a decimal integer of the 32-bit two's complement range. -/
def int32? : List Char → Option Int
  | '-' :: c :: rest => (digits 10 (Nat.pow 2 31) 0 (c :: rest)).toOption.map fun n => -(n : Int)
  | s => (natural 10 (Nat.pow 2 31 - 1) s).toOption.map fun n => (n : Int)

end TypeLang.Text
