import TypeLang.Compression.Deflate

/-!
# Expansion

The tokens of a stream stand for a sequence of octets that ends properly or in a fault.  `inflate`
gives the beginning of this sequence up to a bound, and the end if the bound lies behind it.

A stream is expanded in *steps*.  A step goes on until it has filled a window of octets or used up a
portion of the packed ones, and it is taken when the first octet that it adds is asked for.  If it
meets a corruption, nothing of it is given out.  So a corruption shows as soon as the bound reaches
into the step in which it lies, although the octets before it may be more than the bound; a stream
that merely stops early shows this only to those who ask for more octets than there are.
-/

namespace TypeLang.Compression.Deflate

/-! ## Carrying out tokens -/

/-- The octet at a distance before the next one.  Before the first octet there are zeros. -/
def lookBack (distance : Nat) (out : Array UInt8) : UInt8 :=
  if distance ≤ out.size then out.getD (out.size - distance) 0 else 0

/-- Appends `count` octets, each equal to the one `distance` before it. -/
def copyBack (distance : Nat) : (count : Nat) → Array UInt8 → Array UInt8
  | 0, out => out
  | count + 1, out => copyBack distance count (out.push (lookBack distance out))

/-- Carries out tokens until there are `bound` octets. -/
def expandOnto (bound : Nat) (out : Array UInt8) : List Token → Array UInt8
  | [] => out
  | t :: rest =>
    if bound ≤ out.size then out
    else
      match t with
      | .literal octet => expandOnto bound (out.push octet) rest
      | .copy length distance =>
        expandOnto bound (copyBack distance (min length (bound - out.size)) out) rest

/-- The octets that tokens stand for, up to `bound` of them. -/
def expand (bound : Nat) (tokens : List Token) : List UInt8 :=
  (expandOnto bound #[] tokens).toList

/-- How many octets tokens stand for. -/
def expandedSize (tokens : List Token) : Nat :=
  tokens.foldl (fun n token => n + token.size) 0

/-! ## Steps -/

/-- The octets that a window holds. -/
def windowSize : Nat :=
  32768

/-- The packed octets that a portion holds. -/
def portionSize : Nat :=
  32768

/-- Where the window begins in which a sequence of `size` octets ends. -/
def windowStart (size : Nat) : Nat :=
  (size - 1) / windowSize * windowSize

/-- What a format puts after the last block: from the content and the octets after that block, the
octets after the whole stream. -/
abbrev Closing :=
  List UInt8 → List UInt8 → Except StreamFault (List UInt8)

/-- The end of a stream that holds nothing after its last block. -/
def noClosing : Closing :=
  fun _ rest => .ok rest

/-- The end of a stream with the given content, its blocks having the given end. -/
def close (closing : Closing) (content : List UInt8) :
    Except StreamFault (List UInt8) → Except StreamFault (List UInt8)
  | .error fault => .error fault
  | .ok rest => closing content rest

/-- How many octets a stream stands for if it stops early. -/
def unfinishedSize? (closing : Closing) (data : List UInt8) : Option Nat :=
  let (tokens, ending) := tokens data
  let size := expandedSize tokens
  match close closing (expand size tokens) ending with
  | .error .incomplete => some size
  | _ => none

/-- How many octets come out of the portions before the one in which a stream ends.  Portions are
counted from `before` octets before the stream. -/
def portionStart (closing : Closing) (before : Nat) (data : List UInt8) : Nat :=
  let boundaries := (List.range ((before + data.length) / portionSize)).map fun k =>
    portionSize * (k + 1) - before
  (boundaries.reverse.findSome? fun n => unfinishedSize? closing (data.take n)).getD 0

/-! ## Bounded expansion -/

/-- What comes out of a stream under a bound. -/
inductive Expansion where
  /-- The bound is reached. -/
  | full (octets : List UInt8)
  /-- The stream ends below the bound, before the octets `rest`. -/
  | whole (octets rest : List UInt8)

/-- The octets that a stream stands for, up to `bound` of them.  The stream begins after `before`
octets of packed data. -/
def inflate (closing : Closing) (before bound : Nat) (data : List UInt8) :
    Except StreamFault Expansion :=
  let (tokens, ending) := tokens data
  let size := expandedSize tokens
  if size < bound then do
    let content := expand size tokens
    return .whole content (← close closing content ending)
  else if windowStart size < bound then
    match close closing (expand size tokens) ending with
    | .error .corrupt =>
      if portionStart closing before data < bound then .error .corrupt
      else .ok (.full (expand bound tokens))
    | _ => .ok (.full (expand bound tokens))
  else .ok (.full (expand bound tokens))

end TypeLang.Compression.Deflate
