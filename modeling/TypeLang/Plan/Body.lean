import TypeLang.Plan.Basic
import TypeLang.Schema.Basic
import TypeLang.Wire.Fault
import TypeLang.Wire.Tag

/-!
# Steps, bodies and dispatches

What a type expression, a constructor and a choice of constructors become in a plan, given the
numbers of the routines that they refer to.  Where these numbers come from is left open: they are
made on the way while a schema is compiled, and only looked up in a plan that is finished.

A constructor may be at fault: it refers to an unknown type, it uses too many flag words, or a gate
names no word.
-/

namespace TypeLang.Plan

open Wire

/-- The numbers of the routines for the types and the constructors of a schema. -/
structure Numbering (s : Schema) (M : Type → Type) where
  /-- The number of the dispatch of a type. -/
  ofType : String → M Nat
  /-- The number of the body of a constructor. -/
  ofMember : s.Member → M Nat

/-- The routine for any object. -/
def anyObject : Nat :=
  0

/-- The routine for an object that may stand alone. -/
def topLevel : Nat :=
  1

/-- The name of the type of all objects. -/
def objectName : String :=
  "Object"

/-! ## Steps -/

/-- The step of a name that needs no schema. -/
def builtinStep? (name : String) : Option Step :=
  match name with
  | "int" | "#" => some .int
  | "long" => some .long
  | "double" => some .double
  | "Bool" => some .bool
  | "string" => some .string
  | "bytes" => some .bytes
  | "int128" => some (.fixed 16)
  | "int256" => some (.fixed 32)
  | "int512" => some (.fixed 64)
  | "strlong" => some (.fixed 8)
  | "Object" => some (.call anyObject)
  | _ => none

/-- The type whose vectors are JSON objects. -/
def entryType : String :=
  "JSONObjectValue"

/-- Whether a type expression is the boxed type of JSON entries. -/
def isEntry : TypeExpr → Bool
  | .named r => !r.bare && r.name == entryType
  | .vector _ _ => false

section

variable {s : Schema} {M : Type → Type} [Monad M] [MonadExceptOf Fault M]

/-- The step of a reference. -/
def refStep (numbers : Numbering s M) (r : TypeRef) : M Step :=
  if r.generic then pure (.call anyObject)
  else
    match builtinStep? r.name with
    | some step => pure step
    | none =>
      if r.bare then
        match s.bareMember? r.name with
        | some c => do return .call (← numbers.ofMember c)
        | none => throw (.unknownType r.name)
      else do return .call (← numbers.ofType r.name)

/-- The step of a type expression. -/
def exprStep (numbers : Numbering s M) : TypeExpr → M Step
  | .named r => refStep numbers r
  | .vector boxed elem => do
    let step ← exprStep numbers elem
    return if isEntry elem then .entries boxed step else .vector boxed step

end

/-! ## Bodies -/

/-- The most flag words that a constructor may use. -/
def maxFlagWords : Nat :=
  8

/-- Whether a field holds an octet string. -/
def isOctets : TypeExpr → Bool
  | .named r => r.name == "bytes" || r.name == "string"
  | .vector _ _ => false

/-- What becomes of the fields of a constructor. -/
def formOf (c : Constructor) : Form :=
  if c.predicate = "dataJSON" then .jsonText
  else if c.predicate = "peerChat" then .peer .chat
  else if c.predicate = "peerChannel" then .peer .channel
  else if c.type = "Peer" then .peer .user
  else if c.type = "JSONValue" then .content
  else .record

section

variable {s : Schema} {M : Type → Type} [Monad M] [MonadExceptOf Fault M]

/-- The gate of a field, given the flag words before it; of equal names the first counts. -/
def gateOf (c : Constructor) (words : List String) (f : Field) : M (Option Gate) :=
  match f.gate with
  | none => pure none
  | some bit =>
    match words.idxOf? bit.word with
    | some slot => pure (some ⟨slot, bit.mask⟩)
    | none => throw (.unsupported c.predicate (.unknownFlagWord f.name bit.word))

/-- How a value of a type is read under a name. -/
def valueField (numbers : Numbering s M) (c : Constructor) (name : String) (type : TypeExpr)
    (gate : Option Gate) : M FieldStep :=
  if isOctets type && name == "random_bytes" then pure ⟨name, .randomBytes, gate⟩
  else if isOctets type && name == "waveform" then pure ⟨name, .read .waveform, gate⟩
  else if isOctets type && c.predicate == "photoStrippedSize" && name == "bytes" then
    pure ⟨"inflated", .thumbnail, gate⟩
  else do return ⟨name, .read (← exprStep numbers type), gate⟩

/-- How a field is read, given the flag words before it, and the flag words up to it. -/
def fieldStep (numbers : Numbering s M) (c : Constructor) (words : List String) (f : Field) :
    M (FieldStep × List String) := do
  let gate ← gateOf c words f
  match f.kind with
  | .flagWord =>
    if words.length = maxFlagWords then
      throw (.unsupported c.predicate (.tooManyFlagWords maxFlagWords))
    else return (⟨f.name, .flagWord words.length, gate⟩, words ++ [f.name])
  | .presence => return (⟨f.name, .presence, gate⟩, words)
  | .value type => return (← valueField numbers c f.name type gate, words)

/-- How fields are read, given the flag words before them. -/
def fieldSteps (numbers : Numbering s M) (c : Constructor) (words : List String) :
    List Field → M (List FieldStep)
  | [] => pure []
  | f :: rest => do
    let (step, words) ← fieldStep numbers c words f
    return step :: (← fieldSteps numbers c words rest)

/-- The body of a constructor. -/
def bodyOf (numbers : Numbering s M) (c : Constructor) : M Body := do
  return ⟨c.predicate, formOf c, ← fieldSteps numbers c [] c.fields⟩

end

/-! ## Dispatches and numbers -/

/-- Whether a constructor is an object: entries of JSON objects only stand in vectors. -/
def isObject (c : Constructor) : Bool :=
  c.predicate != "jsonObjectValue"

/-- Whether a constructor may stand alone: an answer to a call, an update, or whatever may travel
unencrypted. -/
def isTopLevel (c : Constructor) : Bool :=
  !c.encrypted || c.predicate == "rpc_result" || c.predicate == "rpc_error" ||
    c.type == "Update" || c.type == "Updates"

section

variable {s : Schema} {M : Type → Type} [Monad M]

/-- The tags of some constructors with the numbers of their bodies. -/
def armsOf (numbers : Numbering s M) : List s.Member → M (List (UInt32 × Nat))
  | [] => pure []
  | c :: rest => do
    let number ← numbers.ofMember c
    return (c.val.id, number) :: (← armsOf numbers rest)

/-- The dispatch over some constructors.  The tag of envelopes announces none of them. -/
def dispatchOver (numbers : Numbering s M) (expected : String) (members : List s.Member) :
    M Dispatch := do
  return ⟨expected, ← armsOf numbers (members.filter (·.val.id != Tag.gzipPacked))⟩

/-- Asks for the numbers of some types. -/
def numberTypes (numbers : Numbering s M) : List TypeDef → M Unit
  | [] => pure ()
  | t :: rest => do
    let _ ← numbers.ofType t.name
    numberTypes numbers rest

/-- Asks for the numbers of some constructors. -/
def numberMembers (numbers : Numbering s M) : List s.Member → M Unit
  | [] => pure ()
  | c :: rest => do
    let _ ← numbers.ofMember c
    numberMembers numbers rest

end

end TypeLang.Plan
