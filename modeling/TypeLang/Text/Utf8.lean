/-!
# UTF-8

Characters as octets and back.  Writing is `utf8`; reading is `unutf8`, which admits exactly the
well-formed sequences (shortest forms, no surrogates, nothing above U+10FFFF) and otherwise says
where the first ill-formed sequence stands: how long its longest well-formed beginning is, or that
the text ends inside a sequence that was well-formed so far.
-/

namespace TypeLang.Text

/-- Characters as octets. -/
def utf8 (s : List Char) : List UInt8 :=
  s.flatMap String.utf8EncodeChar

/-- The number of octets that a text takes. -/
def utf8Size (s : List Char) : Nat :=
  s.foldl (fun n c => n + c.utf8Size) 0

/-- Why octets are not UTF-8. -/
inductive Utf8Fault where
  /-- From `index` on stand `length` octets that no character begins with. -/
  | invalid (index length : Nat)
  /-- The character that begins at `index` is cut off. -/
  | incomplete (index : Nat)
  deriving DecidableEq, Repr

/-- The wording of a fault. -/
def Utf8Fault.message : Utf8Fault → String
  | .invalid index length =>
    "invalid utf-8 sequence of " ++ toString length ++ " bytes from index " ++ toString index
  | .incomplete index => "incomplete utf-8 byte sequence from index " ++ toString index

/-- The octets that may continue a character: `10xxxxxx`. -/
def isContinuation (b : UInt8) : Bool :=
  0x80 ≤ b && b ≤ 0xBF

/-- The octets that may follow the first octet `a` of a three-octet character: none that makes a
longer form than needed, and none that makes a surrogate. -/
def isSecondOfThree (a b : UInt8) : Bool :=
  isContinuation b && (a != 0xE0 || 0xA0 ≤ b) && (a != 0xED || b ≤ 0x9F)

/-- The octets that may follow the first octet `a` of a four-octet character: none that makes a
longer form than needed, and none that goes beyond U+10FFFF. -/
def isSecondOfFour (a b : UInt8) : Bool :=
  isContinuation b && (a != 0xF0 || 0x90 ≤ b) && (a != 0xF4 || b ≤ 0x8F)

/-- The six payload bits of a continuation octet. -/
def payload (b : UInt8) : Nat :=
  b.toNat % 64

/-- Reads from `index` on, after the characters `read` in reverse. -/
def unutf8From (index : Nat) (read : List Char) : List UInt8 → Except Utf8Fault (List Char)
  | [] => .ok read.reverse
  | a :: rest =>
    if a < 0x80 then unutf8From (index + 1) (Char.ofNat a.toNat :: read) rest
    else if a < 0xC2 then .error (.invalid index 1)
    else if a < 0xE0 then
      match rest with
      | [] => .error (.incomplete index)
      | b :: rest =>
        if isContinuation b then
          unutf8From (index + 2) (Char.ofNat (a.toNat % 32 * 64 + payload b) :: read) rest
        else .error (.invalid index 1)
    else if a < 0xF0 then
      match rest with
      | [] => .error (.incomplete index)
      | b :: rest =>
        if isSecondOfThree a b then
          match rest with
          | [] => .error (.incomplete index)
          | c :: rest =>
            if isContinuation c then
              unutf8From (index + 3)
                (Char.ofNat (a.toNat % 16 * 4096 + payload b * 64 + payload c) :: read) rest
            else .error (.invalid index 2)
        else .error (.invalid index 1)
    else if a < 0xF5 then
      match rest with
      | [] => .error (.incomplete index)
      | b :: rest =>
        if isSecondOfFour a b then
          match rest with
          | [] => .error (.incomplete index)
          | c :: rest =>
            if isContinuation c then
              match rest with
              | [] => .error (.incomplete index)
              | d :: rest =>
                if isContinuation d then
                  unutf8From (index + 4)
                    (Char.ofNat (a.toNat % 8 * 262144 + payload b * 4096 + payload c * 64
                      + payload d) :: read) rest
                else .error (.invalid index 3)
            else .error (.invalid index 2)
        else .error (.invalid index 1)
    else .error (.invalid index 1)

/-- Octets as characters. -/
def unutf8 (bytes : List UInt8) : Except Utf8Fault (List Char) :=
  unutf8From 0 [] bytes

end TypeLang.Text
