import TypeLang.Schema.Constructor
import TypeLang.Text.Numeral

/-!
# The options of the command

The command takes one payload and these options:

* `-s`, `--schema`: a schema file, at least once; its origin may follow after a colon;
* `-t`, `--type`: the type to be read, instead of an object that may stand alone;
* `--max-inflated`: the most octets that come out of an envelope;
* `--hex`: the payload is hexadecimal text;
* `-h`, `--help`.

The value of an option follows in the same word or in the next one, which must not look like an
option.  After `--` no word is an option.  All options but the schema may be given once only.
-/

namespace TypeLang.Command

/-- A schema file and the origin of its constructors. -/
structure SchemaFile where
  path : String
  /-- What its constructors are taken for. -/
  origin : Origin
  deriving DecidableEq, Repr

/-- What the command is asked to do. -/
structure Options where
  schemas : List SchemaFile
  type : Option String
  hex : Bool
  /-- The most octets that come out of an envelope. -/
  maxInflated : Option Nat
  /-- The payload file, `-` being the standard input. -/
  payload : String
  deriving DecidableEq, Repr

/-- What a list of words asks for. -/
inductive Invocation where
  | read (options : Options)
  | help
  | misuse
  deriving DecidableEq, Repr

/-! ## Schema files -/

/-- The origin of a name. -/
def origin? (name : List Char) : Option Origin :=
  if name = "mtproto".toList then some .mtproto
  else if name = "api".toList then some .api
  else if name = "secret".toList then some .secret
  else none

/-- The text before and after the last `c`. -/
def cutAtLast (c : Char) (s : List Char) : Option (List Char × List Char) :=
  (Text.cutAtChar c s.reverse).map fun (after, before) => (before.reverse, after.reverse)

/-- The part of a path after its last slash of either kind. -/
def fileName (path : List Char) : List Char :=
  (path.reverse.takeWhile fun c => c != '/' && c != '\\').reverse

/-- The origin of a file that does not state it: files of the service schema are named so. -/
def defaultOrigin (path : List Char) : Origin :=
  if "mtproto".toList.isPrefixOf (fileName path) then .mtproto else .api

/-- A schema file as given, with its origin after the last colon if there is one. -/
def schemaFile? (given : List Char) : Option SchemaFile :=
  let stated? := do
    let (path, name) ← cutAtLast ':' given
    let origin ← origin? name
    return (⟨String.ofList path, origin⟩ : SchemaFile)
  match stated? with
  | some file => some file
  | none =>
    if given.isEmpty then none else some ⟨String.ofList given, defaultOrigin given⟩

/-! ## Reading the words -/

/-- An option that takes a value. -/
inductive Valued where
  | schema
  | type
  /-- The most octets that come out of an envelope. -/
  | maxInflated
  deriving DecidableEq, Repr

/-- What has been given so far. -/
structure Given where
  schemas : List SchemaFile
  type : Option String
  hex : Bool
  /-- The most octets that come out of an envelope. -/
  maxInflated : Option Nat
  payload : Option String

/-- What has been given before the first word. -/
def Given.nothing : Given :=
  ⟨[], none, false, none, none⟩

/-- Takes the value of an option. -/
def Given.put (g : Given) (option : Valued) (value : List Char) : Option Given :=
  match option with
  | .schema => (schemaFile? value).map fun file => { g with schemas := g.schemas ++ [file] }
  | .type => if g.type.isSome then none else some { g with type := some (String.ofList value) }
  | .maxInflated =>
    if g.maxInflated.isSome then none
    else
      match Text.natural 10 (Nat.pow 2 64 - 1) value with
      | .ok n => some { g with maxInflated := some n }
      | .error _ => none

/-- Takes the payload. -/
def Given.putPayload (g : Given) (word : List Char) : Option Given :=
  if g.payload.isSome then none else some { g with payload := some (String.ofList word) }

/-- What all words together ask for. -/
def Given.invocation (g : Given) : Invocation :=
  match g.payload with
  | some payload =>
    if g.schemas.isEmpty then .misuse
    else .read ⟨g.schemas, g.type, g.hex, g.maxInflated, payload⟩
  | none => .misuse

/-- The option of a long name that takes a value. -/
def longValued? (name : List Char) : Option Valued :=
  if name = "schema".toList then some .schema
  else if name = "type".toList then some .type
  else if name = "max-inflated".toList then some .maxInflated
  else none

/-- The option of a letter that takes a value. -/
def shortValued? (letter : Char) : Option Valued :=
  if letter = 's' then some .schema else if letter = 't' then some .type else none

/-- What a word is, as long as `--` has not come. -/
inductive Word where
  | plain
  | stop
  /-- An option, with its value if that is in the same word. -/
  | valued (option : Valued) (value : Option (List Char))
  | hex
  | help
  | unknown

/-- What a word after `--` in the same word is. -/
def longWord (s : List Char) : Word :=
  let (name, value) : List Char × Option (List Char) :=
    match Text.cutAtChar '=' s with
    | some (name, value) => (name, some value)
    | none => (s, none)
  match longValued? name with
  | some option => .valued option value
  | none =>
    if value.isSome then .unknown
    else if name = "hex".toList then .hex
    else if name = "help".toList then .help
    else .unknown

/-- What a letter after `-`, and what follows it in the same word, is. -/
def shortWord (letter : Char) (rest : List Char) : Word :=
  match shortValued? letter with
  | some option =>
    match rest with
    | [] => .valued option none
    | '=' :: value => .valued option (some value)
    | value => .valued option (some value)
  | none => if letter = 'h' then .help else .unknown

/-- What a word is. -/
def wordOf (s : List Char) : Word :=
  match s with
  | ['-', '-'] => .stop
  | '-' :: '-' :: rest => longWord rest
  | '-' :: letter :: rest => shortWord letter rest
  | _ => .plain

/-- Reads words none of which is an option. -/
def plainWords (g : Given) : List (List Char) → Invocation
  | [] => g.invocation
  | w :: rest =>
    match g.putPayload w with
    | some g => plainWords g rest
    | none => .misuse

/-- Reads words, the first of which may be the value of a `pending` option. -/
def wordsFrom (g : Given) (pending : Option Valued) : List (List Char) → Invocation
  | [] => if pending.isSome then .misuse else g.invocation
  | w :: rest =>
    match wordOf w, pending with
    | .plain, some option =>
      match g.put option w with
      | some g => wordsFrom g none rest
      | none => .misuse
    | _, some _ => .misuse
    | .plain, none =>
      match g.putPayload w with
      | some g => wordsFrom g none rest
      | none => .misuse
    | .stop, none => plainWords g rest
    | .valued option none, none => wordsFrom g (some option) rest
    | .valued option (some value), none =>
      match g.put option value with
      | some g => wordsFrom g none rest
      | none => .misuse
    | .hex, none => if g.hex then .misuse else wordsFrom { g with hex := true } none rest
    | .help, none => .help
    | .unknown, none => .misuse

/-- What words ask for. -/
def Invocation.ofWords (words : List String) : Invocation :=
  wordsFrom .nothing none (words.map String.toList)

end TypeLang.Command
