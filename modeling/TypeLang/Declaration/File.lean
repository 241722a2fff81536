import TypeLang.Declaration.Combinator

/-!
# Schema files

A schema file is read line by line.  What follows two slashes is a comment.  A line that is a
section mark switches the section of the declarations after it; any other text is collected until a
line ends in a semicolon, and is then read as one declaration.  Text after the last semicolon is
not read.

A comment line `// LAYER N` states the layer that the file describes.
-/

namespace TypeLang.Declaration

/-- A declaration read from a file, or what is wrong with it. -/
structure Item where
  /-- The number, counted from one, of the line whose semicolon ends the declaration. -/
  line : Nat
  /-- What was read there. -/
  outcome : Except CombinatorFault Combinator

/-- The section that a line switches to, if it is a section mark. -/
def sectionMark? (line : List Char) : Option Section :=
  if line = "---functions---".toList then some .functions
  else if line = "---types---".toList then some .types
  else none

/-- A line without its comment and the blanks around the rest. -/
def uncomment (line : List Char) : List Char :=
  Text.trim (Text.beforeSlashes line)

/-- Reads the lines from line `number` on, in section `place`, after the text `pending` of a
declaration whose semicolon is still to come. -/
def itemsFrom (number : Nat) (place : Section) (pending : List Char) :
    List (List Char) → List Item
  | [] => []
  | raw :: rest =>
    let line := uncomment raw
    if line.isEmpty then itemsFrom (number + 1) place pending rest
    else
      match sectionMark? line with
      | some place => itemsFrom (number + 1) place pending rest
      | none =>
        let pending := pending ++ ' ' :: line
        if line.getLast? = some ';' then
          let declaration := Combinator.strip pending
          if declaration.isEmpty then itemsFrom (number + 1) place [] rest
          else
            ⟨number, (Combinator.read declaration).map ({ · with place })⟩
              :: itemsFrom (number + 1) place [] rest
        else itemsFrom (number + 1) place pending rest

/-- The declarations of a file, in order. -/
def items (file : List Char) : List Item :=
  itemsFrom 1 .types [] (Text.lines file)

/-- The layer that a line states. -/
def layerMark? (line : List Char) : Option Int := do
  let comment ← Text.afterHead? ['/', '/'] (Text.trim line)
  let number ← Text.afterHead? ['L', 'A', 'Y', 'E', 'R'] (Text.trim comment)
  Text.int32? (Text.trim number)

/-- The highest layer that a file states. -/
def layer? (file : List Char) : Option Int :=
  (Text.lines file).filterMap layerMark? |>.max?

end TypeLang.Declaration
