/-!
# Blank characters, words and lines

A character is *blank* when Unicode gives it the property `White_Space`.  Everything in a schema
text that is cut at blanks, trimmed of blanks or read line by line goes through this module, on
lists of characters.

* `trim` takes the blanks off both ends;
* `words` is the list of maximal blank-free runs;
* `lines` cuts at line feeds, a carriage return right before one belonging to the break.
-/

namespace TypeLang.Text

/-! ## The blank characters -/

/-- The characters with the Unicode property `White_Space`. -/
def isBlank (c : Char) : Bool :=
  let n := c.toNat
  (0x09 ≤ n && n ≤ 0x0D) || n == 0x20 || n == 0x85 || n == 0xA0 || n == 0x1680 ||
    (0x2000 ≤ n && n ≤ 0x200A) || n == 0x2028 || n == 0x2029 || n == 0x202F || n == 0x205F ||
    n == 0x3000

/-- The five characters that ASCII alone counts as blank: space, tab, line feed, form feed and
carriage return. -/
def isAsciiBlankOctet (b : UInt8) : Bool :=
  b == 0x20 || b == 0x09 || b == 0x0A || b == 0x0C || b == 0x0D

/-! ## Trimming -/

/-- Removes the characters satisfying `p` from the end. -/
def dropEndWhile (p : Char → Bool) (s : List Char) : List Char :=
  s.reverse.dropWhile p |>.reverse

/-- Removes the blanks from the start. -/
def trimStart (s : List Char) : List Char :=
  s.dropWhile isBlank

/-- Removes the blanks from both ends. -/
def trim (s : List Char) : List Char :=
  dropEndWhile isBlank (trimStart s)

theorem length_dropEndWhile_le (p : Char → Bool) (s : List Char) :
    (dropEndWhile p s).length ≤ s.length := by
  simpa [dropEndWhile] using (List.dropWhile_sublist p (l := s.reverse)).length_le

theorem length_trim_le (s : List Char) : (trim s).length ≤ s.length :=
  Nat.le_trans (length_dropEndWhile_le _ _) (List.dropWhile_sublist isBlank).length_le

/-! ## Words -/

/-- The words of `s` when `run`, reversed, is the word still being read. -/
def wordsFrom (run : List Char) : List Char → List (List Char)
  | [] => if run.isEmpty then [] else [run.reverse]
  | c :: rest =>
    if isBlank c then
      if run.isEmpty then wordsFrom [] rest else run.reverse :: wordsFrom [] rest
    else wordsFrom (c :: run) rest

/-- The maximal blank-free runs of a text, in order. -/
def words (s : List Char) : List (List Char) :=
  wordsFrom [] s

/-- The words of a text with one space between each two of them. -/
def squeeze (s : List Char) : List Char :=
  List.intercalate [' '] (words s)

/-! ## Lines -/

/-- The lines of `s` when `line`, reversed, is the line still being read. -/
def linesFrom (line : List Char) : List Char → List (List Char)
  | [] => if line.isEmpty then [] else [line.reverse]
  | c :: rest =>
    if c = '\n' then
      (match line with
        | '\r' :: before => before.reverse
        | _ => line.reverse) :: linesFrom [] rest
    else linesFrom (c :: line) rest

/-- The lines of a text.  A line feed ends a line, together with a carriage return right before
it; the last line needs none, and a text that ends in one has no empty line after it. -/
def lines (s : List Char) : List (List Char) :=
  linesFrom [] s

end TypeLang.Text
