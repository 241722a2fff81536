/-!
# Hexadecimal text

Octets as pairs of hexadecimal digits: written in lower case, read in either case.
-/

namespace TypeLang.Text

/-- The lower-case digit of a value below sixteen. -/
def hexDigit (n : Nat) : Char :=
  Char.ofNat (if n < 10 then 0x30 + n else 0x57 + n)

/-- The two digits of an octet. -/
def hexOctet (b : UInt8) : List Char :=
  [hexDigit (b.toNat / 16), hexDigit (b.toNat % 16)]

/-- Octets as hexadecimal text. -/
def hex (bytes : List UInt8) : String :=
  String.ofList (bytes.flatMap hexOctet)

/-- The last `width` hexadecimal digits of a number. -/
def hexDigits : Nat → Nat → List Char
  | 0, _ => []
  | width + 1, n => hexDigits width (n / 16) ++ [hexDigit (n % 16)]

/-! ## Reading -/

/-- Why octets are not hexadecimal text. -/
inductive HexFault where
  | oddLength
  /-- The octet at a position is no digit. -/
  | invalidDigit (octet : UInt8) (position : Nat)
  deriving DecidableEq, Repr

/-- The value of an octet that is an ASCII hexadecimal digit. -/
def hexValue? (b : UInt8) : Option UInt8 :=
  if 0x30 ≤ b ∧ b ≤ 0x39 then some (b - 0x30)
  else if 0x61 ≤ b ∧ b ≤ 0x66 then some (b - 0x57)
  else if 0x41 ≤ b ∧ b ≤ 0x46 then some (b - 0x37)
  else none

/-- Reads pairs of digits from `position` on, after the octets `read` in reverse.  A digit without
a partner is not reached, since the length is checked first. -/
def unhexFrom (position : Nat) (read : List UInt8) : List UInt8 → Except HexFault (List UInt8)
  | a :: b :: rest =>
    match hexValue? a, hexValue? b with
    | none, _ => .error (.invalidDigit a position)
    | some _, none => .error (.invalidDigit b (position + 1))
    | some hi, some lo => unhexFrom (position + 2) ((hi * 16 + lo) :: read) rest
  | _ => .ok read.reverse

/-- Reads hexadecimal text, its length first. -/
def unhex (text : List UInt8) : Except HexFault (List UInt8) :=
  if text.length % 2 = 1 then .error .oddLength else unhexFrom 0 [] text

/-- The letter, digit or escape by which an octet, taken as a Latin-1 character, is quoted. -/
def quotedLatin1 (b : UInt8) : List Char :=
  if b = 0x00 then ['\\', '0']
  else if b = 0x09 then ['\\', 't']
  else if b = 0x0A then ['\\', 'n']
  else if b = 0x0D then ['\\', 'r']
  else if b = 0x27 then ['\\', '\'']
  else if b = 0x5C then ['\\', '\\']
  else if b < 0x20 ∨ (0x7F ≤ b ∧ b ≤ 0xA0) ∨ b = 0xAD then
    ['\\', 'u', '{'] ++ (if b < 0x10 then [hexDigit b.toNat] else hexOctet b) ++ ['}']
  else [Char.ofNat b.toNat]

/-- The wording of a fault. -/
def HexFault.message : HexFault → String
  | .oddLength => "Odd number of digits"
  | .invalidDigit octet position =>
    "Invalid character '" ++ String.ofList (quotedLatin1 octet) ++ "' at position "
      ++ toString position

end TypeLang.Text
