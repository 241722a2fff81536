import TypeLang.Wire.Primitive
import TypeLang.Wire.Writer

/-!
# Shapes

The forms on the wire that are known without a schema: the primitive ones, blobs of a fixed size,
and vectors of any shape.  A shape has a type of values, a reader and a writer.  Reading a shape
knows no limit of depth, and opens envelopes around boxed vectors up to a limit of its own.
-/

namespace TypeLang.Wire

/-- A form on the wire. -/
inductive Shape where
  /-- A signed number of four octets. -/
  | int32
  /-- An unsigned number of four octets. -/
  | uint32
  /-- A signed number of eight octets. -/
  | int64
  /-- A double. -/
  | double
  /-- A truth value. -/
  | bool
  /-- A string. -/
  | string
  /-- An octet string. -/
  | bytes
  /-- `size` octets. -/
  | fixed (size : Nat)
  /-- A vector after its tag. -/
  | boxedVector (elem : Shape)
  /-- A vector without a tag. -/
  | bareVector (elem : Shape)
  deriving DecidableEq, Repr, Inhabited

/-- The most octets that come out of an envelope, unless configured otherwise. -/
def defaultMaxInflated : Nat :=
  16 * 1024 * 1024

namespace Shape

/-- The values of a shape. -/
def Carrier : Shape → Type
  | int32 => Int32
  | uint32 => UInt32
  | int64 => Int64
  | double => Double
  | bool => Bool
  | string => String
  | bytes => List UInt8
  | fixed size => { octets : List UInt8 // octets.length = size }
  | boxedVector elem => List elem.Carrier
  | bareVector elem => List elem.Carrier

/-- Reads a value of a shape. -/
def read : (s : Shape) → Reader s.Carrier
  | int32 => Reader.int32
  | uint32 => Reader.uint32
  | int64 => Reader.int64
  | double => Reader.double
  | bool => Reader.bool
  | string => Reader.string
  | bytes => Reader.bytes
  | fixed size => Reader.takeExactly size
  | boxedVector elem => Reader.boxedVector defaultMaxInflated elem.read
  | bareVector elem => Reader.bareVector elem.read

/-- Writes a value of a shape. -/
def write : (s : Shape) → s.Carrier → List UInt8
  | int32, n => Write.int32 n
  | uint32, n => Write.uint32 n
  | int64, n => Write.int64 n
  | double, d => Write.double d
  | bool, b => Write.bool b
  | string, s => Write.string s
  | bytes, content => Write.bytes content
  | fixed _, octets => octets.val
  | boxedVector elem, elems => Write.boxedVector (List.map elem.write elems)
  | bareVector elem, elems => Write.bareVector (List.map elem.write elems)

end Shape

end TypeLang.Wire
