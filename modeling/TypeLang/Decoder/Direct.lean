import TypeLang.Decoder.Run

/-!
# Reading by the schema

The same readings without a plan: every reference is followed in the schema itself when a value of
it is due, and every gate asks for its flag word by name.  Types and constructors are found by name
and by tag, one level down for each constructor, vector and envelope, so nothing is prepared and
nothing is remembered.

This is what a plan is measured against, and the form in which the laws of reading are stated.
-/

namespace TypeLang.Direct

open Wire

/-! ## Candidates -/

/-- What may stand where a tag is due. -/
inductive Choice where
  /-- Any object. -/
  | object
  /-- An object that may stand alone. -/
  | standalone
  /-- A constructor of a type. -/
  | type (name : String)
  deriving DecidableEq, Repr

namespace Choice

/-- Whether a constructor may stand there. -/
def admits (s : Schema) (choice : Choice) (c : Constructor) : Bool :=
  match choice with
  | object => Plan.isObject c
  | standalone => Plan.isTopLevel c
  | type name => (s.typeDef? name).any fun t => t.members.contains c.id

/-- The candidate that a tag announces. -/
def candidate? (s : Schema) (choice : Choice) (tag : UInt32) : Option Constructor :=
  (s.byId? tag).filter (choice.admits s)

/-- What is said to be expected when a tag announces no candidate. -/
def expected : Choice → String
  | object | standalone => Plan.objectName
  | type name => name

end Choice

/-! ## Values of named types -/

/-- Reads a value of a type that needs no schema. -/
def primitive? (name : String) : Option (Reader Value) :=
  match name with
  | "int" | "#" => some do return .int (← Reader.int32)
  | "long" => some do return .long (← Reader.int64)
  | "double" => some do return .double (← Reader.double)
  | "Bool" => some do return .bool (← Reader.bool)
  | "string" => some do return .string (← Reader.string)
  | "bytes" => some do return .bytes (← Reader.bytes)
  | "int128" => some do return .bytes (← Reader.take 16)
  | "int256" => some do return .bytes (← Reader.take 32)
  | "int512" => some do return .bytes (← Reader.take 64)
  | "strlong" => some do return .bytes (← Reader.take 8)
  | _ => none

/-- Reads a value of a named type, given how tagged constructors and bare ones are read. -/
def named (s : Schema) (boxed : Choice → Reader Value) (bare : Constructor → Reader Value)
    (r : TypeRef) : Reader Value :=
  if r.generic then boxed .object
  else
    match primitive? r.name with
    | some read => read
    | none =>
      if r.name = Plan.objectName then boxed .object
      else if r.bare then
        match s.bare? r.name with
        | some c => bare c
        | none => Reader.fail (.unknownType r.name)
      else boxed (.type r.name)

/-- Reads a value of a type expression, given how its parts are read. -/
def valueWith (s : Schema) (boxed : Choice → Reader Value) (bare : Constructor → Reader Value)
    (vector : Bool → TypeExpr → Reader (List Value)) : TypeExpr → Reader Value
  | .named r => named s boxed bare r
  | .vector boxedVector elem =>
    if Plan.isEntry elem then do
      Reader.ofExcept (Decoder.objectOf (← vector boxedVector elem))
    else do return .vector (← vector boxedVector elem)

/-! ## Fields -/

/-- The flag words so far by name; one behind a closed gate counts as zero. -/
abbrev Words := List (String × UInt32)

/-- Whether a field is on the wire.  Of several words of a name the first counts. -/
def isOpen (words : Words) (f : Field) : Bool :=
  f.gate.all fun bit => (words.lookup bit.word).getD 0 &&& bit.mask != 0

/-- Reads a value under a name, and gives what is shown of it. -/
def shown (minRandom : Nat) (value : TypeExpr → Reader Value) (c : Constructor) (name : String)
    (type : TypeExpr) : Reader (Option (String × Value)) :=
  if Plan.isOctets type && name == "random_bytes" then do
    Reader.randomBytes minRandom
    return none
  else if Plan.isOctets type && name == "waveform" then do
    let samples := Content.Waveform.samples (← Reader.bytes)
    return some (name, .vector (samples.map fun n => .int (Int32.ofNat n)))
  else if Plan.isOctets type && c.predicate == "photoStrippedSize" && name == "bytes" then do
    return some ("inflated", .bytes (Content.Thumbnail.restore (← Reader.bytes)))
  else do return some (name, ← value type)

/-- Reads the fields of a constructor. -/
def fields (minRandom : Nat) (value : TypeExpr → Reader Value) (c : Constructor) :
    List Field → Words → Reader (List (String × Value))
  | [], _ => return []
  | f :: rest, words =>
    if isOpen words f then
      match f.kind with
      | .flagWord => do
        let word ← Reader.uint32
        fields minRandom value c rest (words ++ [(f.name, word)])
      | .presence => do
        return (f.name, .bool true) :: (← fields minRandom value c rest words)
      | .value type => do
        let kept? ← shown minRandom value c f.name type
        return kept?.toList ++ (← fields minRandom value c rest words)
    else
      match f.kind with
      | .flagWord => fields minRandom value c rest (words ++ [(f.name, 0)])
      | _ => fields minRandom value c rest words

/-- Reads a constructor after its tag. -/
def construct (minRandom : Nat) (value : TypeExpr → Reader Value) (c : Constructor) :
    Reader Value := do
  let read ← fields minRandom value c c.fields []
  Reader.ofExcept (Decoder.assemble c.predicate (Plan.formOf c) read)

/-- Reads a tag and the candidate that it announces, given how constructors are read and how what
comes out of an envelope is. -/
def announced (s : Schema) (maxInflated : Nat) (choice : Choice)
    (bare : Constructor → Reader Value) (again : Reader Value) : Reader Value := do
  let tag ← Reader.uint32
  if tag = Tag.gzipPacked then
    let octets ← Reader.opened maxInflated
    Reader.within octets again
  else
    match choice.candidate? s tag with
    | some c => bare c
    | none => Reader.unknownTag choice.expected

/-- Reads the elements of a vector, given how one is read. -/
def vectorOf (maxInflated : Nat) (boxedVector : Bool) (elem : Reader Value) :
    Reader (List Value) :=
  if boxedVector then Reader.boxedVector maxInflated elem else Reader.bareVector elem

/-! ## Levels -/

mutual

/-- Reads a tag and what it announces, within some levels. -/
def boxed (s : Schema) (limits : Limits) : (levels : Nat) → Choice → Reader Value
  | 0, _ => Decoder.tooDeep limits
  | levels + 1, choice =>
    announced s limits.maxInflated choice (bare s limits levels) (boxed s limits levels choice)

/-- Reads a constructor after its tag, within some levels. -/
def bare (s : Schema) (limits : Limits) : (levels : Nat) → Constructor → Reader Value
  | 0, _ => Decoder.tooDeep limits
  | levels + 1, c =>
    construct limits.minRandom
      (valueWith s (boxed s limits levels) (bare s limits levels) (vector s limits levels)) c

/-- Reads the elements of a vector, within some levels. -/
def vector (s : Schema) (limits : Limits) :
    (levels : Nat) → (boxedVector : Bool) → (elem : TypeExpr) → Reader (List Value)
  | 0, _, _ => Decoder.tooDeep limits
  | levels + 1, boxedVector, elem =>
    vectorOf limits.maxInflated boxedVector
      (valueWith s (boxed s limits levels) (bare s limits levels) (vector s limits levels) elem)

end

/-- Reads a value of a type expression, within some levels. -/
def value (s : Schema) (limits : Limits) (levels : Nat) : TypeExpr → Reader Value :=
  valueWith s (boxed s limits levels) (bare s limits levels) (vector s limits levels)

/-! ## Entry points -/

/-- Reads an object that may stand alone. -/
def readObject (s : Schema) (limits : Limits) : Reader Value :=
  boxed s limits limits.maxDepth .standalone

/-- Whether the schema has a meaning for a reference. -/
def isKnown (s : Schema) (r : TypeRef) : Bool :=
  r.generic || (primitive? r.name).isSome || r.name == Plan.objectName ||
    (if r.bare then (s.bare? r.name).isSome else (s.typeDef? r.name).isSome)

/-- Reads a value of a type that is given as text. -/
def readType (s : Schema) (limits : Limits) (type : String) : Reader Value :=
  match TypeExpr.read type.toList with
  | .error _ => Reader.fail (.unknownType type)
  | .ok e =>
    if isKnown s e.leaf then value s limits limits.maxDepth e
    else Reader.fail (.unknownType e.leaf.name)

end TypeLang.Direct
