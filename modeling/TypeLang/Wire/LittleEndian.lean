/-!
# Little-endian numbers

Numbers of a fixed width as octets, the lowest first.  `ofLittleEndian` takes a list of octets of
any length; on lists of one width the two functions are inverse to each other.
-/

namespace TypeLang.Wire

/-- The lowest `width` octets of a number. -/
def littleEndian : (width : Nat) → Nat → List UInt8
  | 0, _ => []
  | width + 1, n => UInt8.ofNat n :: littleEndian width (n / 256)

/-- The number that octets write. -/
def ofLittleEndian : List UInt8 → Nat
  | [] => 0
  | b :: rest => b.toNat + 256 * ofLittleEndian rest

@[simp] theorem length_littleEndian (width n : Nat) : (littleEndian width n).length = width := by
  induction width generalizing n with
  | zero => rfl
  | succ width ih => simp [littleEndian, ih]

end TypeLang.Wire
