import Mathlib.Data.List.DropRight
import TypeLang.Declaration.File

/-!
# Where declarations end

What a file declares is told line by line, each line with all the lines above it in view and with
nothing carried over from them.  A declaration ends on a line that ends in a semicolon.  Its text is
what stands on that line and on the lines above it back to the last one on which a declaration ends,
without comments, blank lines and section marks, and it belongs to the section of the last mark
above it.

To read a file with a section and an open text carried from line to line is to ask every line for
the declaration that ends on it (`items_eq`).
-/

namespace TypeLang.Declaration

variable (before : List (List Char)) (raw : List Char)

/-- Whether a line ends in a semicolon, but for blanks and a comment. -/
def closes : Bool :=
  (uncomment raw).getLast? == some ';'

/-- What a line adds to the text of a declaration: its own text behind a space, if it has one and is
no section mark. -/
def added : List Char :=
  if uncomment raw = [] ∨ (sectionMark? (uncomment raw)).isSome then [] else ' ' :: uncomment raw

/-- The section behind some lines: that of the last mark, and types if there is none. -/
def placeAfter : Section :=
  (before.filterMap fun raw => sectionMark? (uncomment raw)).getLastD .types

/-- The text that some lines leave open: what follows the last line on which one ends. -/
def openedBy : List Char :=
  (before.rtakeWhile (!closes ·)).flatMap added

/-- What the declaration that ends on a line is read as, if one ends there, the lines above being
`before`. -/
def ending? : Option (Except CombinatorFault Combinator) :=
  let declaration := Combinator.strip (openedBy before ++ added raw)
  if closes raw && !declaration.isEmpty then
    some ((Combinator.read declaration).map ({ · with place := placeAfter before }))
  else none

/-- What the declarations that end on some lines are read as, the lines above being `before`. -/
def endingsBelow (before : List (List Char)) :
    List (List Char) → List (Except CombinatorFault Combinator)
  | [] => []
  | raw :: rest => (ending? before raw).toList ++ endingsBelow (before ++ [raw]) rest

/-- What the declarations that end on some lines are read as, these lines being the first ones. -/
def endings (lines : List (List Char)) : List (Except CombinatorFault Combinator) :=
  endingsBelow [] lines

/-- The declaration that ends on a line, with the number of the line. -/
def endingItem? : Option Item :=
  (ending? before raw).map (⟨before.length + 1, ·⟩)

/-- The items that end on some lines, the lines above being `before`. -/
def itemsBelow (before : List (List Char)) : List (List Char) → List Item
  | [] => []
  | raw :: rest => (endingItem? before raw).toList ++ itemsBelow (before ++ [raw]) rest

/-! ## One more line above -/

section

variable {raw}

lemma not_closes_of_sectionMark? {place : Section}
    (h : sectionMark? (uncomment raw) = some place) : closes raw = false := by
  rw [sectionMark?] at h
  split_ifs at h with hfunctions htypes
  · rw [closes, hfunctions]
    decide
  · rw [closes, htypes]
    decide

lemma placeAfter_concat_of_mark {place : Section}
    (h : sectionMark? (uncomment raw) = some place) : placeAfter (before ++ [raw]) = place := by
  simp [placeAfter, h]

lemma placeAfter_concat (h : sectionMark? (uncomment raw) = none) :
    placeAfter (before ++ [raw]) = placeAfter before := by
  simp [placeAfter, h]

lemma openedBy_concat_of_closes (h : closes raw = true) : openedBy (before ++ [raw]) = [] := by
  simp [openedBy, h]

lemma openedBy_concat (h : closes raw = false) :
    openedBy (before ++ [raw]) = openedBy before ++ added raw := by
  simp [openedBy, h]

lemma ending?_of_not_closes (h : closes raw = false) : ending? before raw = none := by
  simp [ending?, h]

end

/-! ## Line by line -/

/-- A line is read as the declaration that ends on it, and the next one behind one line more. -/
lemma itemsFrom_cons (rest : List (List Char)) :
    itemsFrom (before.length + 1) (placeAfter before) (openedBy before) (raw :: rest) =
      (endingItem? before raw).toList ++
        itemsFrom ((before ++ [raw]).length + 1) (placeAfter (before ++ [raw]))
          (openedBy (before ++ [raw])) rest := by
  rw [List.length_append, List.length_singleton]
  by_cases hempty : uncomment raw = []
  · have hopen : closes raw = false := by simp [closes, hempty]
    have hmark : sectionMark? (uncomment raw) = none := by rw [hempty]; decide
    have hadded : added raw = [] := by simp [added, hempty]
    rw [placeAfter_concat before hmark, openedBy_concat before hopen, hadded, endingItem?,
      ending?_of_not_closes before hopen]
    simp [itemsFrom, hempty]
  have hnonempty : (uncomment raw).isEmpty = false := by simpa using hempty
  cases hmark : sectionMark? (uncomment raw) with
  | some place =>
      have hopen := not_closes_of_sectionMark? hmark
      have hadded : added raw = [] := by simp [added, hmark]
      rw [placeAfter_concat_of_mark before hmark, openedBy_concat before hopen, hadded, endingItem?,
        ending?_of_not_closes before hopen]
      simp [itemsFrom, hnonempty, hmark]
  | none =>
      have hadded : added raw = ' ' :: uncomment raw := by simp [added, hempty, hmark]
      rw [placeAfter_concat before hmark]
      cases hcloses : closes raw with
      | false =>
          have hlast : (uncomment raw).getLast? ≠ some ';' := by simpa [closes] using hcloses
          rw [openedBy_concat before hcloses, endingItem?, ending?_of_not_closes before hcloses,
            hadded]
          simp [itemsFrom, hnonempty, hmark, hlast]
      | true =>
          have hlast : (uncomment raw).getLast? = some ';' := by simpa [closes] using hcloses
          rw [openedBy_concat_of_closes before hcloses, endingItem?, ending?, hadded, hcloses]
          cases hdeclaration :
              (Combinator.strip (openedBy before ++ ' ' :: uncomment raw)).isEmpty <;>
            simp [itemsFrom, hnonempty, hmark, hlast, hdeclaration]

/-- What is carried from line to line tells no more than the lines above. -/
lemma itemsFrom_eq (ls : List (List Char)) :
    itemsFrom (before.length + 1) (placeAfter before) (openedBy before) ls =
      itemsBelow before ls := by
  induction ls generalizing before with
  | nil => rfl
  | cons raw rest ih => rw [itemsFrom_cons, ih, itemsBelow]

/-- **A file is read as the declarations that end on its lines**, each with the number of its
line. -/
lemma items_eq (file : List Char) : items file = itemsBelow [] (Text.lines file) :=
  itemsFrom_eq [] (Text.lines file)

/-! ## Some lines and the lines below them -/

lemma itemsBelow_append (ls rest : List (List Char)) :
    itemsBelow before (ls ++ rest) = itemsBelow before ls ++ itemsBelow (before ++ ls) rest := by
  induction ls generalizing before with
  | nil => simp [itemsBelow]
  | cons raw ls ih => simp [itemsBelow, ih]

lemma outcomes_itemsBelow (ls : List (List Char)) :
    (itemsBelow before ls).map (·.outcome) = endingsBelow before ls := by
  induction ls generalizing before with
  | nil => rfl
  | cons raw rest ih =>
      rw [itemsBelow, endingsBelow, List.map_append, ih, endingItem?]
      cases ending? before raw <;> rfl

end TypeLang.Declaration
