import TypeLang.Text.Utf8

/-!
# What can be wrong with a JSON text

A fault stands at an offset, counted in octets.  Its wording names the line, counted from one, and
the number of octets on that line up to the offset.
-/

namespace TypeLang.Json

/-- Why a text is not JSON. -/
inductive Fault where
  /-- The text ends where a value is due, or inside one. -/
  | endInValue
  | endInArray
  | endInObject
  | endInString
  | expectedValue
  /-- No letter of `null`, `true` or `false`. -/
  | expectedIdent
  | expectedColon
  | expectedCommaOrBracket
  | expectedCommaOrBrace
  | keyNotString
  /-- A closing bracket or brace after a comma. -/
  | trailingComma
  | trailingCharacters
  | tooDeep
  /-- A digit after a leading zero, or none where one is due. -/
  | invalidNumber
  | numberOutOfRange
  | controlCharacter
  /-- A backslash with nothing that it could escape. -/
  | invalidEscape
  /-- Half of a surrogate pair without the other half. -/
  | loneSurrogate
  /-- The first half of a surrogate pair without an escape after it. -/
  | unpairedEscape
  deriving DecidableEq, Repr

/-- The wording of a fault, without its place. -/
def Fault.message : Fault → String
  | .endInValue => "EOF while parsing a value"
  | .endInArray => "EOF while parsing a list"
  | .endInObject => "EOF while parsing an object"
  | .endInString => "EOF while parsing a string"
  | .expectedValue => "expected value"
  | .expectedIdent => "expected ident"
  | .expectedColon => "expected `:`"
  | .expectedCommaOrBracket => "expected `,` or `]`"
  | .expectedCommaOrBrace => "expected `,` or `\x7d`"
  | .keyNotString => "key must be a string"
  | .trailingComma => "trailing comma"
  | .trailingCharacters => "trailing characters"
  | .tooDeep => "recursion limit exceeded"
  | .invalidNumber => "invalid number"
  | .numberOutOfRange => "number out of range"
  | .controlCharacter => "control character (\\u0000-\\u001F) found while parsing a string"
  | .invalidEscape => "invalid escape"
  | .loneSurrogate => "lone leading surrogate in hex escape"
  | .unpairedEscape => "unexpected end of hex escape"

/-- A fault with its place in a text. -/
structure LocatedFault where
  fault : Fault
  /-- The line, counted from one. -/
  line : Nat
  /-- The octets on that line up to the place of the fault. -/
  column : Nat
  deriving DecidableEq, Repr

/-- The wording of a fault with its place. -/
def LocatedFault.message (f : LocatedFault) : String :=
  f.fault.message ++ " at line " ++ toString f.line ++ " column " ++ toString f.column

/-- The line and column that are reached from `line` and `column` after `offset` octets. -/
def locate (line column offset : Nat) : List Char → Nat × Nat
  | [] => (line, column)
  | c :: rest =>
    if offset = 0 then (line, column)
    else if c = '\n' then locate (line + 1) 0 (offset - 1) rest
    else locate line (column + min c.utf8Size offset) (offset - c.utf8Size) rest

end TypeLang.Json
