import TypeLang.Checksum.Adler32
import TypeLang.Compression.Expansion

/-!
# Zlib streams

A zlib stream is a deflate stream between a header of two octets and the Adler-32 of what the
stream stands for.  The checksum belongs to the stream: a wrong one is a corruption that lies where
the content ends.
-/

namespace TypeLang.Compression

/-- Whether two octets are the header of a zlib stream: the method is deflate with a window of at
most 2¹⁵ octets, the two octets as one number divide by 31, and no dictionary is preset. -/
def isZlibHeader (method flags : UInt8) : Bool :=
  method.toNat % 16 == 8 && method.toNat / 16 ≤ 7 &&
    (method.toNat * 256 + flags.toNat) % 31 == 0 && flags.toNat / 32 % 2 == 0

/-- The octets after the checksum of a stream, if it confirms the content. -/
def adlerClosing : Deflate.Closing := fun content after =>
  match after with
  | a :: b :: c :: d :: rest =>
    let written := ((a.toNat * 256 + b.toNat) * 256 + c.toNat) * 256 + d.toNat
    if (Checksum.adler32 content).toNat = written then .ok rest else .error .corrupt
  | _ => .error .incomplete

/-- The content of a zlib stream, up to `bound` octets of it. -/
def unzlib (bound : Nat) : List UInt8 → Except StreamFault (List UInt8)
  | method :: flags :: body =>
    if isZlibHeader method flags then
      match Deflate.inflate adlerClosing 2 bound body with
      | .error fault => .error fault
      | .ok (.full content) => .ok content
      | .ok (.whole content _) => .ok content
    else .error .corrupt
  | _ => .error .incomplete

end TypeLang.Compression
