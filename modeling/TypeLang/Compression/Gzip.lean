import TypeLang.Checksum.Crc32
import TypeLang.Compression.Expansion
import TypeLang.Wire.LittleEndian

/-!
# Gzip members

A gzip member is a deflate stream between a header and a trailer that holds the CRC-32 and the
length of what the stream stands for.  `gunzip?` reads the first member of some octets; the trailer
is looked at only when the stream ends below the bound.  `gzip` writes a member without
compressing.
-/

namespace TypeLang.Compression

/-! ## Reading -/

/-- The longest name or comment of a header. -/
def maxHeaderText : Nat :=
  65535

/-- What follows a text that a zero octet ends. -/
def skipHeaderText? (data : List UInt8) : Option (List UInt8) :=
  let text := data.takeWhile (· ≠ 0)
  if maxHeaderText < text.length then none
  else
    match data.dropWhile (· ≠ 0) with
    | [] => none
    | _ :: rest => some rest

/-- What follows a field that begins with its length in two octets. -/
def skipHeaderExtra? : List UInt8 → Option (List UInt8)
  | a :: b :: rest =>
    let length := Deflate.word16 a b
    if length ≤ rest.length then some (rest.drop length) else none
  | _ => none

/-- What follows the checksum of a header: the lower half of the CRC-32 of the octets before it. -/
def skipHeaderChecksum? (whole : List UInt8) : List UInt8 → Option (List UInt8)
  | a :: b :: rest =>
    let before := whole.take (whole.length - (rest.length + 2))
    if Deflate.word16 a b = (Checksum.crc32 before).toNat % 65536 then some rest else none
  | _ => none

/-- Applies a step if a flag of the header asks for it. -/
def whenFlag (flags : UInt8) (mask : UInt8) (step : List UInt8 → Option (List UInt8))
    (data : List UInt8) : Option (List UInt8) :=
  if flags &&& mask = 0 then some data else step data

/-- What follows the header of a gzip member. -/
def skipGzipHeader? (data : List UInt8) : Option (List UInt8) :=
  match data with
  | 0x1F :: 0x8B :: 0x08 :: flags :: _ :: _ :: _ :: _ :: _ :: _ :: rest =>
    if flags &&& 0xE0 ≠ 0 then none
    else do
      let rest ← whenFlag flags 0x04 skipHeaderExtra? rest
      let rest ← whenFlag flags 0x08 skipHeaderText? rest
      let rest ← whenFlag flags 0x10 skipHeaderText? rest
      whenFlag flags 0x02 (skipHeaderChecksum? data) rest
  | _ => none

/-- The trailer of a gzip member with the given content. -/
def gzipTrailer (content : List UInt8) : List UInt8 :=
  Wire.littleEndian 4 (Checksum.crc32 content).toNat ++ Wire.littleEndian 4 content.length

/-- The content of the first gzip member, up to `bound` octets of it. -/
def gunzip? (bound : Nat) (data : List UInt8) : Option (List UInt8) := do
  let body ← skipGzipHeader? data
  match Deflate.inflate Deflate.noClosing (data.length - body.length) bound body with
  | .error _ => none
  | .ok (.full content) => some content
  | .ok (.whole content rest) => if rest.take 8 = gzipTrailer content then some content else none

/-! ## Writing -/

/-- The most octets that a stored block can hold. -/
def maxStored : Nat :=
  65535

/-- A stored block. -/
def storedBlock (last : Bool) (content : List UInt8) : List UInt8 :=
  (if last then 1 else 0) :: Wire.littleEndian 2 content.length
    ++ Wire.littleEndian 2 (0xFFFF - content.length) ++ content

/-- A deflate stream of stored blocks. -/
def storedBlocks (content : List UInt8) : List UInt8 :=
  if content.length ≤ maxStored then storedBlock true content
  else storedBlock false (content.take maxStored) ++ storedBlocks (content.drop maxStored)
termination_by content.length
decreasing_by simp only [List.length_drop]; have : maxStored = 65535 := rfl; omega

/-- A gzip header without time, name and comment. -/
def gzipHeader : List UInt8 :=
  [0x1F, 0x8B, 0x08, 0, 0, 0, 0, 0, 0, 0xFF]

/-- A gzip member with the given content. -/
def gzip (content : List UInt8) : List UInt8 :=
  gzipHeader ++ storedBlocks content ++ gzipTrailer content

end TypeLang.Compression
