import TypeLang.Content.Thumbnail
import TypeLang.Content.Waveform
import TypeLang.Decoder.Basic
import TypeLang.Json.Read
import TypeLang.Value.Json

/-!
# Reading by a plan

Reading recurses on the levels that are left: a routine, a vector and the content of an envelope
each take one level.  So a wire is refused where a value begins for which no level is left, and
reading ends on every wire, also by a schema whose types refer to themselves.
-/

namespace TypeLang.Decoder

open Wire

/-! ## Fields -/

/-- The flag words of a body, by slot. -/
abbrev Words := List UInt32

/-- The words before any is read. -/
def noWords : Words :=
  List.replicate Plan.maxFlagWords 0

/-- Whether a field is on the wire. -/
def isOpen (words : Words) (f : FieldStep) : Bool :=
  f.gate.all fun gate => words.getD gate.slot 0 &&& gate.mask != 0

/-- Reads fields after those `read` in reverse. -/
def fields (minRandom : Nat) (step : Step → Reader Value) :
    List FieldStep → Words → (read : List (String × Value)) → Reader (List (String × Value))
  | [], _, read => Reader.done read.reverse
  | f :: rest, words, read =>
    if isOpen words f then
      match f.op with
      | .flagWord slot => do
        let word ← Reader.uint32
        fields minRandom step rest (words.set slot word) read
      | .presence => fields minRandom step rest words ((f.name, .bool true) :: read)
      | .randomBytes => do
        Reader.randomBytes minRandom
        fields minRandom step rest words read
      | .thumbnail => do
        let stripped ← Reader.bytes
        let picture := Content.Thumbnail.restore stripped
        fields minRandom step rest words ((f.name, .bytes picture) :: read)
      | .read s => do
        let value ← step s
        fields minRandom step rest words ((f.name, value) :: read)
    else fields minRandom step rest words read

/-- The value that the fields of a constructor make. -/
def assemble (predicate : String) (form : Form) (read : List (String × Value)) :
    Except Fault Value :=
  let first? := read.head?.map (·.2)
  match form with
  | .record => .ok (.record predicate read)
  | .content => .ok (first?.getD .null)
  | .peer kind =>
    match first?.bind Value.asLong? with
    | some id => .ok (.long (kind.common id))
    | none => .error (.content predicate .noPeerId)
  | .jsonText =>
    match first?.bind Value.asString? with
    | none => .error (.content predicate .noData)
    | some text =>
      match Json.read text.toList with
      | .ok j => .ok (Value.ofJson j)
      | .error fault => .error (.content predicate (.json fault))

/-- Reads a body. -/
def body (minRandom : Nat) (step : Step → Reader Value) (b : Body) : Reader Value := do
  let read ← fields minRandom step b.fields noWords []
  Reader.ofExcept (assemble b.predicate b.form read)

/-! ## Vectors -/

/-- Reads `n` elements after those `read` in reverse. -/
def elementsFrom (elem : Reader Value) : (n : Nat) → (read : List Value) → Reader (List Value)
  | 0, read => Reader.done read.reverse
  | n + 1, read => fun c =>
    match elem c with
    | .done value after => elementsFrom elem n (value :: read) after
    | .failed fault stop => .failed fault stop

/-- Reads a count and as many elements. -/
def elements (elem : Reader Value) : Reader (List Value) := do
  elementsFrom elem (← Reader.count) []

/-- Reads what comes out of an envelope around a vector: a tag and the elements, not another
envelope. -/
def unpacked (elem : Reader Value) : Reader (List Value) := do
  let tag ← Reader.uint32
  if tag = Tag.vector then
    elements elem
  else
    Reader.unknownTag "Vector"

/-- Reads a vector whose elements are read by `elem`. -/
def vectorOf (maxInflated : Nat) (boxed : Bool) (elem : Reader Value) : Reader (List Value) :=
  if !boxed then elements elem
  else do
    let tag ← Reader.uint32
    if tag = Tag.vector then
      elements elem
    else if tag = Tag.gzipPacked then
      let octets ← Reader.opened maxInflated
      Reader.within octets (unpacked elem)
    else
      Reader.unknownTag "Vector"

/-- The key and the value of an entry of a JSON object. -/
def entryOf? (v : Value) : Option (String × Value) :=
  match (v.field? "key").bind Value.asString?, v.field? "value" with
  | some key, some value => some (key, value)
  | _, _ => none

/-- The JSON object of some entries. -/
def objectOf (read : List Value) : Except Fault Value :=
  match read.mapM entryOf? with
  | some entries => .ok (.map (insertKeys [] entries))
  | none => .error (.content "jsonObjectValue" .noEntry)

/-! ## Steps -/

/-- Reads one value, given how routines and vectors are read. -/
def stepWith (run : Nat → Reader Value) (vector : Bool → Step → Reader (List Value)) :
    Step → Reader Value
  | .int => do return .int (← Reader.int32)
  | .long => do return .long (← Reader.int64)
  | .double => do return .double (← Reader.double)
  | .bool => do return .bool (← Reader.bool)
  | .bytes => do return .bytes (← Reader.bytes)
  | .string => do return .string (← Reader.string)
  | .waveform => do
    let samples := Content.Waveform.samples (← Reader.bytes)
    return .vector (samples.map fun n => .int (Int32.ofNat n))
  | .fixed size => do return .bytes (← Reader.take size)
  | .vector boxed elem => do return .vector (← vector boxed elem)
  | .entries boxed elem => do Reader.ofExcept (objectOf (← vector boxed elem))
  | .call routine => run routine

/-- Reads a tag and what it announces, given how bodies are read and how what comes out of an
envelope is. -/
def dispatch (maxInflated : Nat) (d : Dispatch) (run : Nat → Reader Value)
    (again : Reader Value) : Reader Value := do
  let tag ← Reader.uint32
  match d.arms.lookup tag with
  | some routine => run routine
  | none =>
    if tag = Tag.gzipPacked then
      let octets ← Reader.opened maxInflated
      Reader.within octets again
    else
      Reader.unknownTag d.expected

/-! ## Levels -/

/-- The fault of a routine that has not been made. -/
def notMade (routine : Nat) : Fault :=
  .unsupported ("routine #" ++ toString routine) .unfinished

/-- The fault of a value for which no level is left. -/
def tooDeep {α : Type} (limits : Limits) : Reader α := do
  Reader.fail (.tooDeep (← Reader.position) limits.maxDepth)

mutual

/-- Reads what a routine reads, within some levels. -/
def run (plan : Plan) (limits : Limits) : (levels : Nat) → (routine : Nat) → Reader Value
  | 0, _ => tooDeep limits
  | levels + 1, routine =>
    match plan.routine routine with
    | .reserved => Reader.fail (notMade routine)
    | .dispatch d =>
      dispatch limits.maxInflated d (run plan limits levels) (reopen plan limits levels d)
    | .body b =>
      body limits.minRandom (stepWith (run plan limits levels) (vector plan limits levels)) b

/-- Reads the content of an envelope as the dispatch around it would, within some levels. -/
def reopen (plan : Plan) (limits : Limits) : (levels : Nat) → Dispatch → Reader Value
  | 0, _ => tooDeep limits
  | levels + 1, d =>
    dispatch limits.maxInflated d (run plan limits levels) (reopen plan limits levels d)

/-- Reads a vector, within some levels. -/
def vector (plan : Plan) (limits : Limits) :
    (levels : Nat) → (boxed : Bool) → (elem : Step) → Reader (List Value)
  | 0, _, _ => tooDeep limits
  | levels + 1, boxed, elem =>
    vectorOf limits.maxInflated boxed
      (stepWith (run plan limits levels) (vector plan limits levels) elem)

end

/-- Reads one value, within some levels. -/
def step (plan : Plan) (limits : Limits) (levels : Nat) : Step → Reader Value :=
  stepWith (run plan limits levels) (vector plan limits levels)

/-! ## Entry points -/

/-- Reads an object that may stand alone. -/
def readObject (d : Decoder) : Reader Value :=
  run d.plan d.limits d.limits.maxDepth Plan.topLevel

/-- The step of a type that is given as text. -/
def stepOf (d : Decoder) (type : String) : Except Fault Step :=
  match TypeExpr.read type.toList with
  | .ok expr => Plan.exprStep (Plan.found d.schema d.plan) expr
  | .error _ => .error (.unknownType type)

/-- Reads a value of a type that is given as text. -/
def readType (d : Decoder) (type : String) : Reader Value := do
  let s ← Reader.ofExcept (stepOf d type)
  step d.plan d.limits d.limits.maxDepth s

/-- What may be asked of a decoder. -/
inductive Request where
  /-- An object that may stand alone. -/
  | object
  /-- A value of a type that is given as text. -/
  | type (text : String)
  deriving DecidableEq, Repr

/-- Reads what is asked for. -/
def answer (d : Decoder) : Request → Reader Value
  | .object => readObject d
  | .type text => readType d text

end TypeLang.Decoder
