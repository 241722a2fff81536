import TypeLang.Json.Basic
import TypeLang.Number.Shortest
import TypeLang.Text.Hex

/-!
# JSON trees as text

Two layouts: `Json.compact` without blanks, and `Json.pretty` with one entry a line, indented by
two spaces a level.  A finite double is written with the shortest digits that read back,
positionally with at least one digit after the point when the power of ten of its first digit lies
between −5 and 15, and otherwise with a signed exponent.
-/

namespace TypeLang.Json

/-! ## Numbers -/

/-- The first power of ten of a number that is written positionally. -/
def leastPositional : Int :=
  -5

/-- The last power of ten of a number that is written positionally. -/
def greatestPositional : Int :=
  15

/-- A decimal with a point and at least one digit after it. -/
def positional (digits : List Char) (exponent : Int) : List Char :=
  if exponent < 0 then '0' :: '.' :: (List.replicate ((-exponent).toNat - 1) '0' ++ digits)
  else
    let whole := exponent.toNat + 1
    if digits.length ≤ whole then
      digits ++ List.replicate (whole - digits.length) '0' ++ ['.', '0']
    else digits.take whole ++ '.' :: digits.drop whole

/-- A decimal with an exponent, the point after its first digit if there are more. -/
def scientific (digits : List Char) (exponent : Int) : List Char :=
  digits.take 1 ++ (if digits.length ≤ 1 then [] else '.' :: digits.drop 1)
    ++ 'e' :: (if exponent < 0 then '-' else '+') :: Nat.toDigits 10 exponent.natAbs

/-- The magnitude of a finite double. -/
def magnitudeChars (d : Double) : List Char :=
  if d.units = 0 then ['0', '.', '0']
  else
    let decimal := d.shortest
    let digits := Nat.toDigits 10 decimal.digits
    if leastPositional ≤ decimal.exponent ∧ decimal.exponent ≤ greatestPositional then
      positional digits decimal.exponent
    else scientific digits decimal.exponent

/-- A double; `null` if it is no finite number. -/
def doubleChars (d : Double) : List Char :=
  if d.isFinite then (if d.isNegative then ['-'] else []) ++ magnitudeChars d
  else ['n', 'u', 'l', 'l']

/-- A whole number. -/
def integerChars (n : Int) : List Char :=
  (if n < 0 then ['-'] else []) ++ Nat.toDigits 10 n.natAbs

/-! ## Strings -/

/-- A character inside quotes. -/
def quotedChar (c : Char) : List Char :=
  if c = '"' then ['\\', '"']
  else if c = '\\' then ['\\', '\\']
  else if c.toNat = 0x08 then ['\\', 'b']
  else if c.toNat = 0x0C then ['\\', 'f']
  else if c = '\n' then ['\\', 'n']
  else if c = '\r' then ['\\', 'r']
  else if c = '\t' then ['\\', 't']
  else if c.toNat < 0x20 then '\\' :: 'u' :: Text.hexDigits 4 c.toNat
  else [c]

/-- A string in quotes. -/
def quoted (s : String) : List Char :=
  '"' :: (s.toList.flatMap quotedChar ++ ['"'])

/-! ## Trees -/

mutual

/-- A tree without blanks. -/
def compactChars : Json → List Char
  | null => ['n', 'u', 'l', 'l']
  | bool true => ['t', 'r', 'u', 'e']
  | bool false => ['f', 'a', 'l', 's', 'e']
  | integer n => integerChars n
  | double d => doubleChars d
  | string s => quoted s
  | array items => '[' :: (List.intercalate [','] (compactItems items) ++ [']'])
  | object entries => '{' :: (List.intercalate [','] (compactEntries entries) ++ ['}'])

/-- The items of an array, each as text. -/
def compactItems : List Json → List (List Char)
  | [] => []
  | item :: rest => compactChars item :: compactItems rest

/-- The entries of an object, each as text. -/
def compactEntries : List (String × Json) → List (List Char)
  | [] => []
  | (key, value) :: rest => (quoted key ++ ':' :: compactChars value) :: compactEntries rest

end

/-- A line break and the indentation of a level. -/
def newline (level : Nat) : List Char :=
  '\n' :: List.replicate (2 * level) ' '

/-- Lines between brackets, each indented one level deeper than the brackets; the brackets stand
together if there is no line. -/
def block (level : Nat) (left right : Char) (entries : List (List Char)) : List Char :=
  if entries.isEmpty then [left, right]
  else
    left :: newline (level + 1) ++ List.intercalate (',' :: newline (level + 1)) entries
      ++ newline level ++ [right]

mutual

/-- A tree with one entry a line, at a level of indentation. -/
def prettyChars (level : Nat) : Json → List Char
  | array items => block level '[' ']' (prettyItems (level + 1) items)
  | object entries => block level '{' '}' (prettyEntries (level + 1) entries)
  | null => ['n', 'u', 'l', 'l']
  | bool true => ['t', 'r', 'u', 'e']
  | bool false => ['f', 'a', 'l', 's', 'e']
  | integer n => integerChars n
  | double d => doubleChars d
  | string s => quoted s

/-- The items of an array, each as text. -/
def prettyItems (level : Nat) : List Json → List (List Char)
  | [] => []
  | item :: rest => prettyChars level item :: prettyItems level rest

/-- The entries of an object, each as text. -/
def prettyEntries (level : Nat) : List (String × Json) → List (List Char)
  | [] => []
  | (key, value) :: rest =>
    (quoted key ++ ':' :: ' ' :: prettyChars level value) :: prettyEntries level rest

end

/-- A tree without blanks. -/
def compact (j : Json) : String :=
  String.ofList (compactChars j)

/-- A tree with one entry a line. -/
def pretty (j : Json) : String :=
  String.ofList (prettyChars 0 j)

end TypeLang.Json
