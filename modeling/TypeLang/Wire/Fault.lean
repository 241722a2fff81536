import TypeLang.Compression.Inflate
import TypeLang.Json.Fault
import TypeLang.Text.Hex
import TypeLang.Wire.LittleEndian

/-!
# What can be wrong with a wire

Faults of framing say that the octets do not have the form of what is read, and where.  The others
say that well-framed octets mean nothing, or that the schema does not provide what is asked for.
-/

namespace TypeLang.Wire

/-- Why well-framed content cannot be interpreted. -/
inductive ContentCause where
  /-- A string is not UTF-8. -/
  | utf8 (fault : Text.Utf8Fault)
  /-- A text is not JSON. -/
  | json (fault : Json.LocatedFault)
  /-- A peer has no number in its first field. -/
  | noPeerId
  /-- A JSON container has no string in its first field. -/
  | noData
  /-- An entry of a JSON object lacks its key or its value. -/
  | noEntry
  deriving DecidableEq, Repr

/-- The wording of a cause. -/
def ContentCause.message : ContentCause → String
  | utf8 fault => fault.message
  | json fault => fault.message
  | noPeerId => "peer without an integer id"
  | noData => "missing data string"
  | noEntry => "entry without key and value"

/-- Why a constructor cannot be read at all. -/
inductive UnsupportedCause where
  /-- A field is gated by a word that no earlier field holds. -/
  | unknownFlagWord (field word : String)
  /-- There are more flag words than `limit`. -/
  | tooManyFlagWords (limit : Nat)
  /-- It is read before its routine has been made. -/
  | unfinished
  deriving DecidableEq, Repr

/-- The wording of a cause. -/
def UnsupportedCause.message : UnsupportedCause → String
  | unknownFlagWord field word =>
    "`" ++ field ++ "` is gated by unknown flag word `" ++ word ++ "`"
  | tooManyFlagWords limit => "more than " ++ toString limit ++ " flag words"
  | unfinished => "used before it was compiled"

/-- Why a wire cannot be read. -/
inductive Fault where
  /-- Fewer octets are left at `offset` than the `needed` ones. -/
  | truncated (offset needed : Nat)
  /-- The tag at `offset` stands for nothing that is expected. -/
  | unknownTag (tag : UInt32) (offset : Nat) (expected : String)
  /-- A length or count at `offset` that cannot be one. -/
  | malformedLength (offset : Nat) (value : Int)
  /-- A field of random octets at `offset` that is too short. -/
  | shortPadding (offset length : Nat)
  /-- Content that cannot be interpreted. -/
  | content (predicate : String) (cause : ContentCause)
  /-- The envelope at `offset` cannot be opened. -/
  | envelope (offset : Nat) (cause : Compression.InflateFault)
  /-- Values nest deeper than `limit` levels. -/
  | tooDeep (offset limit : Nat)
  /-- A type that is not known. -/
  | unknownType (name : String)
  /-- A constructor that cannot be read. -/
  | unsupported (predicate : String) (cause : UnsupportedCause)
  deriving DecidableEq, Repr

namespace Fault

/-- Whether the octets do not have the form of what is read, or nest too deeply. -/
def isFraming : Fault → Bool
  | truncated .. | unknownTag .. | malformedLength .. | shortPadding .. | envelope ..
  | tooDeep .. => true
  | content .. | unknownType .. | unsupported .. => false

/-- The wording of a fault.  A tag is shown octet by octet, as it stands on the wire. -/
def message : Fault → String
  | truncated offset needed =>
    "stream truncated: needed " ++ toString needed ++ " bytes at offset " ++ toString offset
  | unknownTag tag offset expected =>
    "unexpected id " ++ Text.hex (littleEndian 4 tag.toNat) ++ " at offset " ++ toString offset
      ++ " while decoding " ++ expected
  | malformedLength offset value =>
    "malformed length " ++ toString value ++ " at offset " ++ toString offset
  | shortPadding offset length =>
    "random_bytes is too small (" ++ toString length ++ " bytes) at offset " ++ toString offset
  | content predicate cause => "invalid " ++ predicate ++ " content: " ++ cause.message
  | envelope offset cause => "gzip_packed at offset " ++ toString offset ++ ": " ++ cause.message
  | tooDeep offset limit =>
    "nesting deeper than " ++ toString limit ++ " levels at offset " ++ toString offset
  | unknownType name => "unknown type `" ++ name ++ "`"
  | unsupported predicate cause => predicate ++ ": " ++ cause.message

end Fault

end TypeLang.Wire
