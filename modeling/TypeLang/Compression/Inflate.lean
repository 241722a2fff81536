import TypeLang.Compression.Gzip
import TypeLang.Compression.Zlib

/-!
# Inflating packed octets

Packed octets are a gzip member, or else a zlib stream.  At most `limit` octets may come out of
them.  Both readers are bounded by one octet more than that, so that what exceeds the limit is
noticed without being expanded.  What is amiss behind the bound then shows only as far as the
readers look ahead.
-/

namespace TypeLang.Compression

/-- Why packed octets cannot be inflated. -/
inductive InflateFault where
  /-- They are neither a gzip member nor a zlib stream, and the latter for this cause. -/
  | unreadable (cause : StreamFault)
  /-- More octets come out of them than admitted. -/
  | tooLarge (limit : Nat)
  deriving DecidableEq, Repr

/-- The wording of a fault. -/
def InflateFault.message : InflateFault → String
  | .unreadable .incomplete => "decompression failed: incomplete deflate stream"
  | .unreadable .corrupt => "decompression failed: corrupt deflate stream"
  | .tooLarge limit => "inflated size exceeds " ++ toString limit ++ " bytes"

/-- The content of packed octets, up to `bound` octets of it. -/
def unpackUpTo (bound : Nat) (data : List UInt8) : Except StreamFault (List UInt8) :=
  match gunzip? bound data with
  | some content => .ok content
  | none => unzlib bound data

/-- The content of packed octets, if it has at most `limit` octets. -/
def inflate (limit : Nat) (data : List UInt8) : Except InflateFault (List UInt8) :=
  match unpackUpTo (limit + 1) data with
  | .error cause => .error (.unreadable cause)
  | .ok content => if limit < content.length then .error (.tooLarge limit) else .ok content

end TypeLang.Compression
