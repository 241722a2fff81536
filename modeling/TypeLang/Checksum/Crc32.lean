/-!
# CRC-32

The checksum of ISO 3309: reflected, with the polynomial `0xEDB88320`, all bits set before the
first octet and all bits turned after the last.  It numbers the constructors that are declared
without a number, and it closes a gzip member.
-/

namespace TypeLang.Checksum

/-- One bit leaves the remainder; if it was set, the polynomial is taken off. -/
def crcShift (crc : UInt32) : UInt32 :=
  if crc &&& 1 = 1 then (crc >>> 1) ^^^ 0xEDB88320 else crc >>> 1

/-- One octet enters the remainder. -/
def crcOctet (crc : UInt32) (b : UInt8) : UInt32 :=
  let crc := crc ^^^ b.toUInt32
  crcShift (crcShift (crcShift (crcShift (crcShift (crcShift (crcShift (crcShift crc)))))))

/-- The CRC-32 of octets. -/
def crc32 (bytes : List UInt8) : UInt32 :=
  ~~~(bytes.foldl crcOctet 0xFFFFFFFF)

end TypeLang.Checksum
