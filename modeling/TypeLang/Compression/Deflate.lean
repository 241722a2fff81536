import TypeLang.Compression.Code

/-!
# Deflate

A deflate stream is a sequence of blocks, and each block a sequence of *tokens*: literal octets, and
copies of octets that came before.  Which tokens a stream holds does not depend on what they copy,
so `tokens` reads all of them, up to the end of the last block or to the first fault, before any is
carried out.
-/

namespace TypeLang.Compression.Deflate

/-! ## Tokens -/

/-- A piece of a deflate stream. -/
inductive Token where
  | literal (octet : UInt8)
  /-- `length` octets, each equal to the one `distance` before it. -/
  | copy (length distance : Nat)
  deriving Repr

/-- How many octets a token stands for. -/
def Token.size : Token → Nat
  | literal _ => 1
  | copy length _ => length

/-- The shortest copy and the number of extra bits for each length symbol, from 257 on. -/
def lengthSymbols : List (Nat × Nat) :=
  [(3, 0), (4, 0), (5, 0), (6, 0), (7, 0), (8, 0), (9, 0), (10, 0), (11, 1), (13, 1), (15, 1),
    (17, 1), (19, 2), (23, 2), (27, 2), (31, 2), (35, 3), (43, 3), (51, 3), (59, 3), (67, 4),
    (83, 4), (99, 4), (115, 4), (131, 5), (163, 5), (195, 5), (227, 5), (258, 0)]

/-- The smallest distance and the number of extra bits for each distance symbol. -/
def distanceSymbols : List (Nat × Nat) :=
  [(1, 0), (2, 0), (3, 0), (4, 0), (5, 1), (7, 1), (9, 2), (13, 2), (17, 3), (25, 3), (33, 4),
    (49, 4), (65, 5), (97, 5), (129, 6), (193, 6), (257, 7), (385, 7), (513, 8), (769, 8),
    (1025, 9), (1537, 9), (2049, 10), (3073, 10), (4097, 11), (6145, 11), (8193, 12), (12289, 12),
    (16385, 13), (24577, 13)]

/-- Reads the extra bits of a symbol and adds them to its base. -/
def withExtra (symbols : List (Nat × Nat)) (n : Nat) : BitReader Nat :=
  match symbols[n]? with
  | some (base, extra) => do return base + (← bits extra)
  | none => throw .corrupt

/-- Reads a token of a block; none at the end of the block. -/
def token (literals distances : Code) : BitReader (Option Token) := do
  let n ← literals.read
  if n < 256 then
    return some (.literal (UInt8.ofNat n))
  else if n = 256 then
    return none
  else
    let length ← withExtra lengthSymbols (n - 257)
    let distance ← withExtra distanceSymbols (← distances.read)
    return some (.copy length distance)

/-! ## Blocks -/

/-- The tokens that were read, the last one first, and how reading them ended. -/
abbrev Progress (α : Type) := List Token × Except StreamFault α

/-- Reads the tokens of a block onto those read before.  A token takes at least one bit, so `fuel`
may be any number above the bits of the stream. -/
def tokensOfBlock (literals distances : Code) :
    (fuel : Nat) → (read : List Token) → BitSource → Progress BitSource
  | 0, read, _ => (read, .error .corrupt)
  | fuel + 1, read, s =>
    match token literals distances s with
    | .error fault => (read, .error fault)
    | .ok (none, s) => (read, .ok s)
    | .ok (some t, s) => tokensOfBlock literals distances fuel (t :: read) s

/-- The number that two octets write, the lower one first. -/
def word16 (low high : UInt8) : Nat :=
  low.toNat + 256 * high.toNat

/-- Reads a block that is not compressed: from the next octet on its length, the complement of its
length, and the octets. -/
def stored (read : List Token) (s : BitSource) : Progress BitSource :=
  match s.align.octets with
  | a :: b :: c :: d :: rest =>
    let length := word16 a b
    if length + word16 c d = 0xFFFF then
      let body := rest.take length
      let read := (body.map Token.literal).reverse ++ read
      if body.length = length then (read, .ok (BitSource.ofOctets (rest.drop length)))
      else (read, .error .incomplete)
    else (read, .error .corrupt)
  | _ => (read, .error .incomplete)

/-- The word lengths of the fixed code of literals and lengths. -/
def fixedLiteralLengths : List Nat :=
  List.replicate 144 8 ++ List.replicate 112 9 ++ List.replicate 24 7 ++ List.replicate 8 8

/-- The word lengths of the fixed code of distances. -/
def fixedDistanceLengths : List Nat :=
  List.replicate 32 5

/-- The order in which the word lengths of the code of word lengths are written. -/
def lengthOrder : List Nat :=
  [16, 17, 18, 0, 8, 7, 9, 6, 10, 5, 11, 4, 12, 3, 13, 2, 14, 1, 15]

/-- Reads `total` word lengths after those `read` in reverse.  Symbols below 16 write a length;
the others repeat the last length or zero.  Each writes at least one length, so `fuel` may be any
bound on those still missing. -/
def wordLengths (code : Code) (total : Nat) : (fuel : Nat) → (read : List Nat) →
    BitReader (List Nat)
  | 0, read => if read.length = total then pure read.reverse else throw .corrupt
  | fuel + 1, read =>
    if total ≤ read.length then
      if read.length = total then pure read.reverse else throw .corrupt
    else do
      let n ← code.read
      if n < 16 then
        wordLengths code total fuel (n :: read)
      else if n = 16 then
        match read with
        | [] => throw .corrupt
        | last :: _ =>
          let count ← bits 2
          wordLengths code total fuel (List.replicate (3 + count) last ++ read)
      else
        let extra ← bits (if n = 17 then 3 else 7)
        let least := if n = 17 then 3 else 11
        wordLengths code total fuel (List.replicate (least + extra) 0 ++ read)

/-- Reads `count` word lengths of three bits each. -/
def shortLengths : (count : Nat) → BitReader (List Nat)
  | 0 => pure []
  | count + 1 => do
    let l ← bits 3
    return l :: (← shortLengths count)

/-- Reads the two codes of a block that brings its own. -/
def dynamicCodes : BitReader (Code × Code) := do
  let literals := (← bits 5) + 257
  let distances := (← bits 5) + 1
  let count := (← bits 4) + 4
  if 286 < literals ∨ 30 < distances then
    throw .corrupt
  let written ← shortLengths count
  let lengths := (List.range 19).map fun n =>
    (List.zip lengthOrder written).lookup n |>.getD 0
  if !Code.isComplete lengths then
    throw .corrupt
  let total := literals + distances
  let lengths ← wordLengths (Code.ofLengths lengths) total total []
  let literalCode ← Code.ofLengths? (lengths.take literals)
  let distanceCode ← Code.ofLengths? (lengths.drop literals)
  return (literalCode, distanceCode)

/-- The two codes that need not be written. -/
def fixedCodes : Code × Code :=
  (Code.ofLengths fixedLiteralLengths, Code.ofLengths fixedDistanceLengths)

/-- The mark of a block: whether it is the last one, and its type. -/
def blockMark : BitReader (Bool × Nat) := do
  let last ← bit
  let type ← bits 2
  return (last, type)

/-- Reads a block after its mark. -/
def block (fuel type : Nat) (read : List Token) (s : BitSource) : Progress BitSource :=
  if type = 0 then stored read s
  else if type = 1 then tokensOfBlock fixedCodes.1 fixedCodes.2 fuel read s
  else if type = 2 then
    match dynamicCodes s with
    | .error fault => (read, .error fault)
    | .ok (codes, s) => tokensOfBlock codes.1 codes.2 fuel read s
  else (read, .error .corrupt)

/-- Reads blocks up to the last one, onto the tokens read before.  Gives the octets after it.  A
block takes at least the bits of its mark, so `count` may be any number above the bits of the
stream. -/
def blocks (fuel : Nat) :
    (count : Nat) → (read : List Token) → BitSource → Progress (List UInt8)
  | 0, read, _ => (read, .error .corrupt)
  | count + 1, read, s =>
    match blockMark s with
    | .error fault => (read, .error fault)
    | .ok ((last, type), s) =>
      match block fuel type read s with
      | (read, .error fault) => (read, .error fault)
      | (read, .ok s) => if last then (read, .ok s.octets) else blocks fuel count read s

/-- The tokens of a stream in order, and the octets after it or the fault in which it ends. -/
def tokens (data : List UInt8) : List Token × Except StreamFault (List UInt8) :=
  let fuel := 8 * data.length + 1
  let (read, ending) := blocks fuel fuel [] (BitSource.ofOctets data)
  (read.reverse, ending)

end TypeLang.Compression.Deflate
