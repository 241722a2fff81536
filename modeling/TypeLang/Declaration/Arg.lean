import TypeLang.Declaration.TypeTerm

/-!
# Arguments

An argument of a declaration, such as `flags:#` or `title:flags.2?string`: a name and what follows
the colon.  A type that stands behind a *gate* is present on the wire only when the named bit of an
earlier flag word is set.
-/

namespace TypeLang.Declaration

/-- A bit of a flag word. -/
structure FlagBit where
  /-- The name of the argument that holds the word. -/
  word : String
  /-- The position of the bit, counted from the lowest. -/
  bit : Nat
  deriving DecidableEq, Repr, Inhabited

namespace FlagBit

/-- The word in which this bit alone is set; no bit of a 32-bit word, if the position is beyond
it. -/
def mask (f : FlagBit) : UInt32 :=
  if f.bit < 32 then UInt32.ofNat (Nat.pow 2 f.bit) else 0

/-- A gate as characters, without the `?`. -/
def chars (f : FlagBit) : List Char :=
  f.word.toList ++ '.' :: Nat.toDigits 10 f.bit

/-- Reads a gate such as `flags.2`.  The word is what precedes the first point. -/
def read? (s : List Char) : Option FlagBit :=
  match Text.cutAtChar '.' s with
  | none => none
  | some (word, position) =>
    if word.isEmpty then none
    else
      match Text.natural 10 31 position with
      | .ok bit => some ⟨String.ofList word, bit⟩
      | .error _ => none

end FlagBit

/-- What follows the colon of an argument. -/
inductive ArgType where
  /-- `#`: a word whose bits gate later arguments. -/
  | flagWord
  /-- A type, possibly behind a gate. -/
  | value (type : TypeTerm) (gate : Option FlagBit)
  deriving DecidableEq, Repr, Inhabited

namespace ArgType

/-- An argument's type as characters. -/
def chars : ArgType → List Char
  | flagWord => ['#']
  | value type none => type.chars
  | value type (some gate) => gate.chars ++ '?' :: type.chars

/-- An argument's type as text. -/
def text (t : ArgType) : String :=
  String.ofList t.chars

/-- The gate of an argument. -/
def gate? : ArgType → Option FlagBit
  | flagWord => none
  | value _ gate => gate

/-- The type variables that an argument refers to. -/
def typeVars : ArgType → List String
  | flagWord => []
  | value type _ => type.typeVars

/-- Reads what follows the colon.  A gate is judged before the type behind it. -/
def read (s : List Char) : Except ArgFault ArgType :=
  if s = ['#'] then .ok flagWord
  else
    match Text.cutAtChar '?' s with
    | none => (TypeTerm.read s).map (value · none)
    | some (gate, type) =>
      match FlagBit.read? gate with
      | none => .error .invalidFlag
      | some bit =>
        if type.contains '?' then .error .invalidFlag
        else (TypeTerm.read type).map (value · (some bit))

end ArgType

/-- An argument of a declaration. -/
structure Arg where
  /-- What precedes the colon. -/
  name : String
  /-- What follows the colon. -/
  type : ArgType
  deriving DecidableEq, Repr, Inhabited

namespace Arg

/-- An argument as characters. -/
def chars (a : Arg) : List Char :=
  a.name.toList ++ ':' :: a.type.chars

/-- An argument as text. -/
def text (a : Arg) : String :=
  String.ofList a.chars

/-- Whether the argument is written `name:#`. -/
def isFlagWord (a : Arg) : Bool :=
  a.type == .flagWord

/-- Whether the argument can hold the bits that gate later ones: it is written `#`, or it is an
ungated plain `int`, as old layers of a schema wrote their flag words. -/
def canGate (a : Arg) : Bool :=
  match a.type with
  | .flagWord => true
  | .value type none => type.head.name.path.isEmpty && type.head.name.last == "int"
  | .value _ (some _) => false

/-- Reads one token of a declaration. -/
def read (token : List Char) : Except ArgFault Arg :=
  match token with
  | '{' :: inner =>
    match Text.beforeTail? [':', 'T', 'y', 'p', 'e', '}'] inner with
    | some name => .error (.declaresVariable (String.ofList name))
    | none => .error .undeclared
  | _ =>
    match Text.cutAtChar ':' token with
    | none => .error .noType
    | some (name, type) =>
      if name.isEmpty || type.isEmpty then .error .empty
      else (ArgType.read type).map fun type => ⟨String.ofList name, type⟩

end Arg

end TypeLang.Declaration
