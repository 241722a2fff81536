/-!
# Adler-32

The checksum that closes a zlib stream: the sum of the octets plus one, and the sum of all the
sums on the way, both modulo the largest prime below 2¹⁶.
-/

namespace TypeLang.Checksum

/-- The two running sums. -/
structure AdlerSums where
  /-- One more than the sum of the octets. -/
  plain : Nat
  /-- The sum of the values that `plain` took. -/
  nested : Nat

/-- One octet enters the sums. -/
def AdlerSums.add (s : AdlerSums) (b : UInt8) : AdlerSums :=
  let plain := (s.plain + b.toNat) % 65521
  ⟨plain, (s.nested + plain) % 65521⟩

/-- The Adler-32 of octets. -/
def adler32 (bytes : List UInt8) : UInt32 :=
  let s := bytes.foldl AdlerSums.add ⟨1, 0⟩
  UInt32.ofNat (s.nested * 65536 + s.plain)

end TypeLang.Checksum
