import TypeLang.Json.Decimal
import TypeLang.Json.Fault
import TypeLang.Json.Keyed
import TypeLang.Text.Numeral

/-!
# Reading JSON text

`Json.read` reads a tree from a text that holds nothing else but blanks, without comments, trailing
commas or any other liberty.  Of repeated keys the last counts.  Arrays and objects may nest 127
deep, and the reader recurses on the levels that are left.

A fault is reported either *at* the character that is looked at, or *after* what has been consumed;
the offset of the former is one more than the octets before the character, and no more than the
text has.
-/

namespace TypeLang.Json

/-! ## Places in a text -/

/-- The rest of a text and the number of octets before it. -/
structure Place where
  /-- What is still to be read. -/
  rest : List Char
  /-- The octets that have been consumed. -/
  offset : Nat

/-- A fault and the offset at which it is reported. -/
abbrev Reported := Fault × Nat

/-- A reader of a part of a text. -/
abbrev Reader (α : Type) := Place → Except Reported (α × Place)

/-- A fault reported after what has been consumed. -/
def failAfter {α : Type} (fault : Fault) (p : Place) : Except Reported α :=
  .error (fault, p.offset)

/-- A fault reported at the next character. -/
def failAt {α : Type} (fault : Fault) (p : Place) : Except Reported α :=
  .error (fault, if p.rest.isEmpty then p.offset else p.offset + 1)

/-- The four characters that may stand between the parts of a JSON text. -/
def isSpace (c : Char) : Bool :=
  c == ' ' || c == '\t' || c == '\n' || c == '\r'

/-- The place after the spaces. -/
def Place.skipSpaces (p : Place) : Place :=
  ⟨p.rest.dropWhile isSpace, p.offset + (p.rest.takeWhile isSpace).length⟩

/-- The decimal digits at a place and the place after them. -/
def Place.digits (p : Place) : List Nat × Place :=
  let ds := (p.rest.takeWhile Char.isDigit).map fun c => c.toNat - 0x30
  (ds, ⟨p.rest.dropWhile Char.isDigit, p.offset + ds.length⟩)

/-! ## Words -/

/-- Reads the letters of a word. -/
def word : List Char → Reader Unit
  | [], p => .ok ((), p)
  | expected :: more, p =>
    match p.rest with
    | [] => failAfter .endInValue p
    | c :: rest =>
      if c = expected then word more ⟨rest, p.offset + 1⟩
      else .error (.expectedIdent, p.offset + 1)

/-! ## Numbers -/

/-- The double `significand · 10 ^ exponent`, read up to `p`. -/
def finish (negative : Bool) (significand : Nat) (exponent : Int) : Reader Json := fun p =>
  match timesPower? (Double.ofNat significand) exponent with
  | some d => .ok (.double (signed negative d), p)
  | none => failAfter .numberOutOfRange p

/-- The value of the digits of an exponent, or the number of digits up to the one with which it
exceeds 31 bits. -/
def exponentOf (value count : Nat) : List Nat → Nat ⊕ Nat
  | [] => .inl value
  | d :: rest =>
    if value * 10 + d < Nat.pow 2 31 then exponentOf (value * 10 + d) (count + 1) rest
    else .inr (count + 1)

/-- Reads an exponent from its sign on.  One that is too large makes the number zero or infinite,
and the latter is noticed at once. -/
def exponentFrom (negative : Bool) (significand : Nat) (start : Int) : Reader Json := fun p =>
  let (below, q) : Bool × Place :=
    match p.rest with
    | '+' :: rest => (false, ⟨rest, p.offset + 1⟩)
    | '-' :: rest => (true, ⟨rest, p.offset + 1⟩)
    | _ => (false, p)
  let (ds, after) := q.digits
  if ds.isEmpty then
    if q.rest.isEmpty then failAfter .endInValue q else .error (.invalidNumber, q.offset + 1)
  else
    match exponentOf 0 0 ds with
    | .inl e => finish negative significand (if below then start - e else start + e) after
    | .inr count =>
      if significand ≠ 0 ∧ !below then .error (.numberOutOfRange, q.offset + count)
      else .ok (.double (signed negative Double.zero), after)

/-- Reads what may follow the last digit before an exponent. -/
def exponentOrEnd (negative : Bool) (significand : Nat) (exponent : Int) : Reader Json := fun p =>
  match p.rest with
  | c :: rest =>
    if c = 'e' ∨ c = 'E' then exponentFrom negative significand exponent ⟨rest, p.offset + 1⟩
    else finish negative significand exponent p
  | [] => finish negative significand exponent p

/-- Reads the digits after a point. -/
def fractionFrom (negative : Bool) (significand : Nat) (exponent : Int) : Reader Json := fun p =>
  let (ds, after) := p.digits
  if ds.isEmpty then
    failAt (if p.rest.isEmpty then .endInValue else .invalidNumber) p
  else
    let (significand, left) := accumulate significand ds
    exponentOrEnd negative significand (exponent - (ds.length - left : Nat)) after

/-- Reads what may follow the digits before a point; `left` of them did not fit the
significand. -/
def numberTail (negative : Bool) (significand left : Nat) : Reader Json := fun p =>
  match p.rest with
  | '.' :: rest => fractionFrom negative significand left ⟨rest, p.offset + 1⟩
  | c :: _ =>
    if c = 'e' ∨ c = 'E' ∨ left ≠ 0 then exponentOrEnd negative significand left p
    else .ok (ofSignificand negative significand, p)
  | [] =>
    if left ≠ 0 then exponentOrEnd negative significand left p
    else .ok (ofSignificand negative significand, p)

/-- Reads a number after its sign. -/
def number (negative : Bool) : Reader Json := fun p =>
  match p.rest with
  | [] => failAfter .endInValue p
  | '0' :: rest =>
    let q : Place := ⟨rest, p.offset + 1⟩
    if rest.head?.any Char.isDigit then failAt .invalidNumber q else numberTail negative 0 0 q
  | _ =>
    let (ds, after) := p.digits
    if ds.isEmpty then .error (.invalidNumber, p.offset + 1)
    else
      let (significand, left) := accumulate 0 ds
      numberTail negative significand left after

/-! ## Strings -/

/-- The character that a letter after a backslash stands for. -/
def escape? (c : Char) : Option Char :=
  if c = '"' then some '"'
  else if c = '\\' then some '\\'
  else if c = '/' then some '/'
  else if c = 'b' then some (Char.ofNat 0x08)
  else if c = 'f' then some (Char.ofNat 0x0C)
  else if c = 'n' then some '\n'
  else if c = 'r' then some '\r'
  else if c = 't' then some '\t'
  else none

/-- The number that four hexadecimal digits write. -/
def hexFour? (a b c d : Char) : Option Nat :=
  match Text.digitValue? 16 a, Text.digitValue? 16 b, Text.digitValue? 16 c,
      Text.digitValue? 16 d with
  | some a, some b, some c, some d => some (((a * 16 + b) * 16 + c) * 16 + d)
  | _, _, _, _ => none

/-- Whether a number is the first half of a surrogate pair. -/
def isHighSurrogate (n : Nat) : Bool :=
  0xD800 ≤ n && n ≤ 0xDBFF

/-- Whether a number is the second half of a surrogate pair. -/
def isLowSurrogate (n : Nat) : Bool :=
  0xDC00 ≤ n && n ≤ 0xDFFF

/-- The fault of an escape that `rest` holds fewer than four digits of: four octets are consumed
before they are judged. -/
def shortEscape {α : Type} (rest : List Char) (offset : Nat) : Except Reported α :=
  if Text.utf8Size rest < 4 then .error (.endInString, offset + Text.utf8Size rest)
  else .error (.invalidEscape, offset + 4)

/-- Reads a string from inside its quotes, after the characters `read` in reverse. -/
def stringFrom (read : List Char) (offset : Nat) :
    List Char → Except Reported (String × Place)
  | [] => .error (.endInString, offset)
  | '"' :: rest => .ok (String.ofList read.reverse, ⟨rest, offset + 1⟩)
  | '\\' :: 'u' :: a :: b :: c :: d :: rest =>
    match hexFour? a b c d with
    | none => .error (.invalidEscape, offset + 6)
    | some n =>
      if isLowSurrogate n then .error (.loneSurrogate, offset + 6)
      else if isHighSurrogate n then
        match rest with
        | [] => .error (.endInString, offset + 6)
        | ['\\'] => .error (.endInString, offset + 7)
        | '\\' :: 'u' :: a :: b :: c :: d :: rest =>
          match hexFour? a b c d with
          | none => .error (.invalidEscape, offset + 12)
          | some m =>
            if isLowSurrogate m then
              let char := Char.ofNat ((n - 0xD800) * 0x400 + (m - 0xDC00) + 0x10000)
              stringFrom (char :: read) (offset + 12) rest
            else .error (.loneSurrogate, offset + 12)
        | '\\' :: 'u' :: rest => shortEscape rest (offset + 8)
        | '\\' :: _ => .error (.unpairedEscape, offset + 8)
        | _ => .error (.unpairedEscape, offset + 7)
      else stringFrom (Char.ofNat n :: read) (offset + 6) rest
  | '\\' :: 'u' :: rest => shortEscape rest (offset + 2)
  | ['\\'] => .error (.endInString, offset + 1)
  | '\\' :: c :: rest =>
    match escape? c with
    | some e => stringFrom (e :: read) (offset + 2) rest
    | none => .error (.invalidEscape, offset + 2)
  | c :: rest =>
    if c.toNat < 0x20 then .error (.controlCharacter, offset + 1)
    else stringFrom (c :: read) (offset + c.utf8Size) rest

/-! ## Arrays and objects -/

/-- Reads the items of an array after its bracket and the items `read` in reverse.  Each item takes
at least one character, so `fuel` may be any bound on the length of the text. -/
def items (item : Reader Json) : (fuel : Nat) → (read : List Json) → Reader (List Json)
  | 0, _ => failAt .endInArray
  | fuel + 1, read => fun p =>
    let p := p.skipSpaces
    match p.rest with
    | [] => failAt .endInArray p
    | ']' :: rest => .ok (read.reverse, ⟨rest, p.offset + 1⟩)
    | c :: rest =>
      if read.isEmpty then do
        let (j, p) ← item p
        items item fuel (j :: read) p
      else if c = ',' then
        let p := Place.skipSpaces ⟨rest, p.offset + 1⟩
        match p.rest with
        | [] => failAt .endInValue p
        | ']' :: _ => failAt .trailingComma p
        | _ => do
          let (j, p) ← item p
          items item fuel (j :: read) p
      else failAt .expectedCommaOrBracket p

/-- Reads an entry from inside the quotes of its key. -/
def entry (item : Reader Json) : Reader (String × Json) := fun p => do
  let (key, p) ← stringFrom [] p.offset p.rest
  let p := p.skipSpaces
  match p.rest with
  | [] => failAt .endInObject p
  | ':' :: rest =>
    let (j, p) ← item ⟨rest, p.offset + 1⟩
    return ((key, j), p)
  | _ => failAt .expectedColon p

/-- Reads the entries of an object after its brace and the entries `read`, which are none as long
as `first`.  Each entry takes at least one character, so `fuel` may be any bound on the length of
the text. -/
def entries (item : Reader Json) :
    (fuel : Nat) → (first : Bool) → (read : List (String × Json)) →
      Reader (List (String × Json))
  | 0, _, _ => failAt .endInObject
  | fuel + 1, first, read => fun p =>
    let p := p.skipSpaces
    match p.rest with
    | [] => failAt .endInObject p
    | '}' :: rest => .ok (read, ⟨rest, p.offset + 1⟩)
    | c :: rest =>
      if first then
        if c = '"' then do
          let (e, p) ← entry item ⟨rest, p.offset + 1⟩
          entries item fuel false (insertKey e.1 e.2 read) p
        else failAt .keyNotString p
      else if c = ',' then
        let p := Place.skipSpaces ⟨rest, p.offset + 1⟩
        match p.rest with
        | [] => failAt .endInValue p
        | '"' :: rest => do
          let (e, p) ← entry item ⟨rest, p.offset + 1⟩
          entries item fuel false (insertKey e.1 e.2 read) p
        | '}' :: _ => failAt .trailingComma p
        | _ => failAt .keyNotString p
      else failAt .expectedCommaOrBrace p

/-! ## Values -/

/-- Reads a value that is neither array nor object and begins with `c`. -/
def scalar (c : Char) (rest : List Char) : Reader Json := fun p =>
  let q : Place := ⟨rest, p.offset + 1⟩
  if c = 'n' then (word ['u', 'l', 'l'] q).map fun r => (.null, r.2)
  else if c = 't' then (word ['r', 'u', 'e'] q).map fun r => (.bool true, r.2)
  else if c = 'f' then (word ['a', 'l', 's', 'e'] q).map fun r => (.bool false, r.2)
  else if c = '-' then number true q
  else if c.isDigit then number false p
  else if c = '"' then (stringFrom [] q.offset rest).map fun r => (.string r.1, r.2)
  else failAt .expectedValue p

/-- Reads a value in which arrays and objects nest at most `levels` deep. -/
def value (fuel : Nat) : (levels : Nat) → Reader Json
  | 0 => fun p =>
    let p := p.skipSpaces
    match p.rest with
    | [] => failAt .endInValue p
    | c :: rest => if c = '[' ∨ c = '{' then failAt .tooDeep p else scalar c rest p
  | levels + 1 => fun p =>
    let p := p.skipSpaces
    match p.rest with
    | [] => failAt .endInValue p
    | c :: rest =>
      let q : Place := ⟨rest, p.offset + 1⟩
      if c = '[' then (items (value fuel levels) fuel [] q).map fun r => (.array r.1, r.2)
      else if c = '{' then
        (entries (value fuel levels) fuel true [] q).map fun r => (.object r.1, r.2)
      else scalar c rest p

/-- The number of levels that arrays and objects may nest. -/
def maxNesting : Nat :=
  127

/-- Reads a text that holds one tree. -/
def document (text : List Char) : Except Reported Json := do
  let (j, p) ← value (text.length + 1) maxNesting ⟨text, 0⟩
  let p := p.skipSpaces
  if p.rest.isEmpty then return j else failAt .trailingCharacters p

/-- Reads a text that holds one tree, and locates its fault if there is one. -/
def read (text : List Char) : Except LocatedFault Json :=
  match document text with
  | .ok j => .ok j
  | .error (fault, offset) =>
    let (line, column) := locate 1 0 offset text
    .error ⟨fault, line, column⟩

end TypeLang.Json
