/-!
# Reading bits

A deflate stream is read bit by bit, each octet from its lowest bit on.  A source holds the bits
left of the octet that is being read and the octets after it.
-/

namespace TypeLang.Compression

/-- Why compressed octets cannot be read. -/
inductive StreamFault where
  /-- They end too early. -/
  | incomplete
  /-- They are not of the form that they should have. -/
  | corrupt
  deriving DecidableEq, Repr

/-- What is still to be read of a stream. -/
structure BitSource where
  /-- The bits left of the current octet, the next one first. -/
  pending : List Bool
  /-- The octets after it. -/
  octets : List UInt8

/-- A reader of bits. -/
abbrev BitReader := StateT BitSource (Except StreamFault)

namespace BitSource

/-- A source of whole octets. -/
def ofOctets (octets : List UInt8) : BitSource :=
  ⟨[], octets⟩

/-- The bits of an octet, the lowest first. -/
def octetBits (b : UInt8) : List Bool :=
  (List.range 8).map b.toNat.testBit

/-- The source at the next octet boundary. -/
def align (s : BitSource) : BitSource :=
  ⟨[], s.octets⟩

/-- The next bit and the source after it. -/
def next? (s : BitSource) : Option (Bool × BitSource) :=
  match s.pending, s.octets with
  | bit :: pending, octets => some (bit, ⟨pending, octets⟩)
  | [], b :: octets =>
    match octetBits b with
    | bit :: pending => some (bit, ⟨pending, octets⟩)
    | [] => none
  | [], [] => none

end BitSource

/-- Reads one bit. -/
def bit : BitReader Bool := fun s =>
  match s.next? with
  | some r => .ok r
  | none => .error .incomplete

/-- Reads a number of `n` bits, the lowest first. -/
def bits : Nat → BitReader Nat
  | 0 => pure 0
  | n + 1 => do
    let low ← bit
    let high ← bits n
    return low.toNat + 2 * high

end TypeLang.Compression
