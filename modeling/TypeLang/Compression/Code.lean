import TypeLang.Compression.Bits

/-!
# Prefix codes

A code is a binary tree with symbols at its leaves, walked from the root by the bits of a stream.
Deflate describes a code by the lengths of its words alone: words of one length follow each other
in the order of their symbols, and each length goes on where the one before stopped
(`Code.ofLengths`).

A code begins with a fork even if it has no words, so that reading from it takes a bit before the
lack of a word shows.
-/

namespace TypeLang.Compression

/-- A prefix code. -/
inductive Code where
  /-- No word begins like this. -/
  | absent
  /-- The word of a symbol ends here. -/
  | symbol (n : Nat)
  /-- Words go on with either bit. -/
  | fork (zero one : Code)
  deriving Repr, Inhabited

namespace Code

/-- Reads a word and gives its symbol. -/
def read : Code → BitReader Nat
  | absent => throw .corrupt
  | symbol n => pure n
  | fork zero one => do
    if ← bit then one.read else zero.read

/-- The code after a word for `n` is put in. -/
def insert (n : Nat) : List Bool → Code → Code
  | [], _ => symbol n
  | bit :: rest, fork zero one =>
    if bit then fork zero (insert n rest one) else fork (insert n rest zero) one
  | bit :: rest, _ =>
    if bit then fork absent (insert n rest absent) else fork (insert n rest absent) absent

/-- The number `word` as `length` bits, the highest first. -/
def wordBits (length word : Nat) : List Bool :=
  (List.range length).reverse.map word.testBit

/-- The longest word that a length can describe. -/
def maxLength : Nat :=
  15

/-- The symbols whose words have a length. -/
def symbolsOfLength (lengths : List Nat) (length : Nat) : List Nat :=
  lengths.zipIdx.filterMap fun (l, n) => if l = length then some n else none

/-- A code under construction and the next word of the current length. -/
structure Partial where
  /-- The words that are in. -/
  code : Code
  /-- The next word. -/
  word : Nat

/-- Puts in the words of one length, the next word being that of the length before with a zero
appended. -/
def Partial.addLength (lengths : List Nat) (p : Partial) (length : Nat) : Partial :=
  (symbolsOfLength lengths length).foldl
    (fun p n => ⟨insert n (wordBits length p.word) p.code, p.word + 1⟩)
    ⟨p.code, 2 * p.word⟩

/-- The code without words. -/
def empty : Code :=
  fork absent absent

/-- The code whose words have the given lengths, symbol by symbol; symbols of length zero have no
word. -/
def ofLengths (lengths : List Nat) : Code :=
  ((List.range maxLength).map (· + 1)).foldl (Partial.addLength lengths) ⟨empty, 0⟩ |>.code

/-- The share of all words of `maxLength` bits that begin with a word of the given lengths, in
words. -/
def coverage (lengths : List Nat) : Nat :=
  lengths.foldl (fun n l => if l = 0 then n else n + Nat.pow 2 (maxLength - l)) 0

/-- Whether every sequence of bits begins with exactly one word. -/
def isComplete (lengths : List Nat) : Bool :=
  coverage lengths == Nat.pow 2 maxLength

/-- Whether there is no word, or a single one, of one bit. -/
def isTrivial (lengths : List Nat) : Bool :=
  match lengths.filter (· ≠ 0) with
  | [] | [1] => true
  | _ => false

/-- The code of literals or of distances: complete or trivial. -/
def ofLengths? (lengths : List Nat) : Except StreamFault Code :=
  if isComplete lengths || isTrivial lengths then .ok (ofLengths lengths) else .error .corrupt

end Code

end TypeLang.Compression
