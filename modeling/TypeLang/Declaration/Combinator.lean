import TypeLang.Checksum.Crc32
import TypeLang.Declaration.Arg
import TypeLang.Text.Hex
import TypeLang.Text.Utf8

/-!
# Combinator declarations

One declaration of a schema, such as `peerChannel#a2a5371e channel_id:long = Peer`: a constructor
of a type or a function.  `Combinator.read` reads one and `Combinator.chars` writes one.

A combinator is numbered by the hexadecimal number after its `#`.  Without one, its number is the
CRC-32 of the declaration with one space between each two words and no semicolon.
-/

namespace TypeLang.Declaration

/-- The section of a schema file in which a declaration stands. -/
inductive Section where
  /-- Constructors of types. -/
  | types
  /-- Functions that a server answers. -/
  | functions
  deriving DecidableEq, Repr, Inhabited

/-- A declaration. -/
structure Combinator where
  /-- The name before the number and the arguments. -/
  name : QualifiedName
  /-- The number that stands for the combinator on the wire. -/
  id : UInt32
  /-- The arguments in wire order, declarations of type variables left out. -/
  args : List Arg
  /-- The type right of the `=`. -/
  result : TypeTerm
  /-- The section in which it stands. -/
  place : Section
  deriving DecidableEq, Repr, Inhabited

namespace Combinator

/-! ## Writing -/

/-- The type variables that the arguments refer to, each once, in the order of their
characters. -/
def typeVars (d : Combinator) : List String :=
  d.args.flatMap (·.type.typeVars) |>.mergeSort (fun a b => decide (a ≤ b)) |>.eraseReps

/-- The token that declares a type variable. -/
def variableToken (name : String) : List Char :=
  '{' :: name.toList ++ [':', 'T', 'y', 'p', 'e', '}']

/-- A declaration as characters: name, number, type variables, arguments, result. -/
def chars (d : Combinator) : List Char :=
  d.name.chars ++ '#' :: Text.hexDigits 8 d.id.toNat
    ++ d.typeVars.flatMap (fun name => ' ' :: variableToken name)
    ++ d.args.flatMap (fun arg => ' ' :: arg.chars)
    ++ ' ' :: '=' :: ' ' :: d.result.chars

/-- A declaration as text. -/
def text (d : Combinator) : String :=
  String.ofList d.chars

/-! ## Reading -/

/-- The number of a declaration that is written without one. -/
def derivedId (declaration : List Char) : UInt32 :=
  Checksum.crc32 (Text.utf8 (Text.squeeze declaration))

/-- A declaration without the blanks around it and the semicolons that end it. -/
def strip (s : List Char) : List Char :=
  Text.trim (Text.dropEndWhile (· == ';') (Text.trim s))

/-- Whether an argument refers only to what precedes it: a type variable among `vars`, a flag
word among `earlier`. -/
def isScoped (vars : List String) (earlier : List Arg) (arg : Arg) : Bool :=
  match arg.type with
  | .flagWord => true
  | .value type gate =>
    (!type.head.generic || vars.contains type.head.name.last) &&
      gate.all fun bit => earlier.any fun a => a.name == bit.word && a.canGate

/-- Reads the tokens between name and `=`, after the type variables and arguments before them.
Gives the declared type variables and the arguments. -/
def readArgs (vars : List String) (earlier : List Arg) :
    List (List Char) → Except CombinatorFault (List String × List Arg)
  | [] => .ok (vars, earlier)
  | token :: rest =>
    match Arg.read token with
    | .error (.declaresVariable name) => readArgs (vars ++ [name]) earlier rest
    | .error .noType => .error .unsupported
    | .error fault => .error (.invalidArg fault)
    | .ok arg =>
      if isScoped vars earlier arg then readArgs vars (earlier ++ [arg]) rest
      else .error (.invalidArg .undeclared)

/-- Reads the number after `#`; without one it is derived from the whole declaration. -/
def readId (declaration : List Char) : Option (List Char) → Except CombinatorFault UInt32
  | none => .ok (derivedId declaration)
  | some digits =>
    match Text.natural 16 (Nat.pow 2 32 - 1) (Text.trim digits) with
    | .ok n => .ok (UInt32.ofNat n)
    | .error fault => .error (.invalidId fault)

/-- The text before the first character that satisfies `p` and the text after it, if there is
one. -/
def halves (p : Char → Bool) (s : List Char) : List Char × Option (List Char) :=
  match Text.cutAt p s with
  | some (before, after) => (before, some after)
  | none => (s, none)

/-- Reads the type right of the `=`. -/
def readResult (s : List Char) : Except CombinatorFault TypeTerm :=
  if s.isEmpty then .error .missingType
  else if s.any Text.isBlank then .error .unsupported
  else (TypeTerm.read s).mapError fun _ => .missingType

/-- Reads a declaration.  Its parts are judged in the order result, name, number, arguments. -/
def read (s : List Char) : Except CombinatorFault Combinator := do
  let declaration := strip s
  if declaration.isEmpty then
    throw .empty
  match Text.cutAtChar '=' declaration with
  | none => throw .missingType
  | some (left, right) =>
    let result ← readResult (Text.trim right)
    let (head, rest?) := halves Text.isBlank (Text.trim left)
    let (full, digits?) := halves (· == '#') head
    match QualifiedName.read? full with
    | none => throw .missingName
    | some name =>
      let id ← readId declaration digits?
      let (vars, args) ← readArgs [] [] (Text.words (rest?.getD []))
      let result :=
        if vars.contains result.head.name.last then result.markGeneric else result
      return ⟨name, id, args, result, .types⟩

end Combinator

end TypeLang.Declaration
