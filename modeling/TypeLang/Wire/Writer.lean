import TypeLang.Compression.Gzip
import TypeLang.Number.Double
import TypeLang.Text.Utf8
import TypeLang.Wire.Tag

/-!
# Writing primitive forms

The canonical form of each primitive: the short form of a length wherever it will do, and zeros for
filling up.
-/

namespace TypeLang.Wire.Write

/-- An unsigned number of four octets. -/
def uint32 (n : UInt32) : List UInt8 :=
  littleEndian 4 n.toNat

/-- A signed number of four octets. -/
def int32 (n : Int32) : List UInt8 :=
  littleEndian 4 n.toUInt32.toNat

/-- A signed number of eight octets. -/
def int64 (n : Int64) : List UInt8 :=
  littleEndian 8 n.toUInt64.toNat

/-- A double. -/
def double (d : Double) : List UInt8 :=
  littleEndian 8 d.bits.toNat

/-- A truth value. -/
def bool (b : Bool) : List UInt8 :=
  uint32 (if b then Tag.boolTrue else Tag.boolFalse)

/-- The longest content whose length is written in one octet. -/
def maxShort : Nat :=
  253

/-- The length of an octet string of less than 2²⁴ octets. -/
def lengthMark (length : Nat) : List UInt8 :=
  if length ≤ maxShort then littleEndian 1 length else 0xFE :: littleEndian 3 length

/-- The zeros that fill up octets to a multiple of four. -/
def filling (octets : Nat) : List UInt8 :=
  List.replicate ((4 - octets % 4) % 4) 0

/-- An octet string of less than 2²⁴ octets. -/
def bytes (content : List UInt8) : List UInt8 :=
  let marked := lengthMark content.length ++ content
  marked ++ filling marked.length

/-- A string of less than 2²⁴ octets. -/
def string (s : String) : List UInt8 :=
  bytes (Text.utf8 s.toList)

/-- A bare vector of less than 2³¹ elements that are already written. -/
def bareVector (elems : List (List UInt8)) : List UInt8 :=
  littleEndian 4 elems.length ++ elems.flatten

/-- A boxed vector of less than 2³¹ elements that are already written. -/
def boxedVector (elems : List (List UInt8)) : List UInt8 :=
  uint32 Tag.vector ++ bareVector elems

/-- An envelope around an object. -/
def envelope (object : List UInt8) : List UInt8 :=
  uint32 Tag.gzipPacked ++ bytes (Compression.gzip object)

end TypeLang.Wire.Write
