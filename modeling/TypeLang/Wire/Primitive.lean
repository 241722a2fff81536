import TypeLang.Number.Double
import TypeLang.Wire.Reader
import TypeLang.Wire.Tag

/-!
# Primitive forms on the wire

Numbers are little-endian.  Octet strings begin with their length, in one octet up to 253 and
otherwise in three octets after `0xFE`, and are filled up to a multiple of four.  A boxed vector is
a tag, a count and the elements; it may stand in an envelope of compressed octets.
-/

namespace TypeLang.Wire.Reader

/-! ## Numbers -/

/-- A number of `width` octets. -/
def number (width : Nat) : Reader Nat := do
  return ofLittleEndian (← take width)

/-- An unsigned number of four octets. -/
def uint32 : Reader UInt32 := do
  return UInt32.ofNat (← number 4)

/-- A signed number of four octets. -/
def int32 : Reader Int32 := do
  return Int32.ofNat (← number 4)

/-- A signed number of eight octets. -/
def int64 : Reader Int64 := do
  return Int64.ofNat (← number 8)

/-- A double. -/
def double : Reader Double := do
  return ⟨UInt64.ofNat (← number 8)⟩

/-- Reports the tag that has just been read, where something else is expected.  The cursor goes back
and over the tag again, so that the report holds the octets as they stand on the wire. -/
def unknownTag {α : Type} (expected : String) : Reader α := do
  rewind 4
  let start ← position
  let tag ← uint32
  fail (.unknownTag tag start expected)

/-- A truth value, written as one of two tags. -/
def bool : Reader Bool := do
  let tag ← uint32
  if tag = Tag.boolTrue then
    return true
  else if tag = Tag.boolFalse then
    return false
  else
    unknownTag "Bool"

/-! ## Octet strings -/

/-- The octets that fill up `length` octets to a multiple of four. -/
def padding (length : Nat) : Nat :=
  (4 - length % 4) % 4

/-- The length at the start of an octet string. -/
structure LengthMark where
  /-- The octets of content. -/
  length : Nat
  /-- The octets that the mark itself takes. -/
  width : Nat

/-- The octets that fill up a string with this mark. -/
def LengthMark.padding (m : LengthMark) : Nat :=
  Reader.padding (m.width + m.length)

/-- The length of an octet string. -/
def lengthMark : Reader LengthMark := do
  let start ← position
  let first ← number 1
  if first = 0xFF then
    fail (.malformedLength start 0xFF)
  else if first = 0xFE then
    return ⟨← number 3, 4⟩
  else
    return ⟨first, 1⟩

/-- An octet string. -/
def bytes : Reader (List UInt8) := do
  let mark ← lengthMark
  let content ← take mark.length
  skip mark.padding
  return content

/-- An octet string of at least `least` octets whose content is of no interest. -/
def randomBytes (least : Nat) : Reader Unit := do
  let start ← position
  let mark ← lengthMark
  if mark.length < least then
    fail (.shortPadding start mark.length)
  else
    skip (mark.length + mark.padding)

/-- An octet string that is UTF-8. -/
def string : Reader String := do
  match Text.unutf8 (← bytes) with
  | .ok chars => return String.ofList chars
  | .error fault => fail (.content "string" (.utf8 fault))

/-! ## Envelopes -/

/-- The content of an envelope whose tag has just been read: at most `limit` octets.  The envelope
is reported at its tag. -/
def opened (limit : Nat) : Reader (List UInt8) := do
  let start ← position
  let packed ← bytes
  ofExcept ((Compression.inflate limit packed).mapError (.envelope (start - 4)))

/-! ## Vectors -/

/-- The count of a vector. -/
def count : Reader Nat := do
  let start ← position
  let n ← int32
  if n.toInt < 0 then
    fail (.malformedLength start n.toInt)
  else
    return n.toInt.toNat

/-- A bare vector: a count and as many elements. -/
def bareVector {α : Type} (elem : Reader α) : Reader (List α) := do
  items elem (← count)

/-- The tag of vectors and what follows it. -/
def afterVectorTag {α : Type} (body : Reader α) : Reader α := do
  let tag ← uint32
  if tag = Tag.vector then
    body
  else
    unknownTag "Vector"

/-- A boxed vector, possibly in an envelope of at most `limit` octets; not in two. -/
def boxedVector {α : Type} (limit : Nat) (elem : Reader α) : Reader (List α) := do
  let tag ← uint32
  if tag = Tag.vector then
    bareVector elem
  else if tag = Tag.gzipPacked then
    let octets ← opened limit
    within octets (afterVectorTag (bareVector elem))
  else
    unknownTag "Vector"

end TypeLang.Wire.Reader
