import TypeLang.Declaration.Fault
import TypeLang.Declaration.Name
import TypeLang.Text.Blank

/-!
# Type terms

The types that a declaration writes: a head such as `storage.FileType`, `%Message` or `!X`, applied
to at most one further type term in angle brackets.  `TypeTerm.read` reads a term and
`TypeTerm.chars` writes one.

A head is *bare* when its name begins with a small letter or `%` stands before it, and *generic*
when `!` stands before both.
-/

namespace TypeLang.Declaration

/-- A name at the head of a type term, with its sigils. -/
structure TypeHead where
  /-- The name without sigils. -/
  name : QualifiedName
  /-- Nothing on the wire tells which constructor follows. -/
  bare : Bool
  /-- The name is a type variable. -/
  generic : Bool
  deriving DecidableEq, Repr, Inhabited

/-- A type as written. -/
inductive TypeTerm where
  | plain (head : TypeHead)
  /-- A head with an argument in angle brackets. -/
  | applied (head : TypeHead) (arg : TypeTerm)
  deriving DecidableEq, Repr, Inhabited

namespace TypeHead

/-- A head as text.  The sigil `%` is written only where the name does not show bareness itself. -/
def chars (h : TypeHead) : List Char :=
  (if h.generic then ['!'] else []) ++ (if h.bare && h.name.isCapitalised then ['%'] else [])
    ++ h.name.chars

/-- Reads a head whose sigils have been taken off. -/
def read (generic percent : Bool) (s : List Char) : Except ArgFault TypeHead :=
  match QualifiedName.read? s with
  | none => .error .empty
  | some name => .ok ⟨name, percent || name.isSmall, generic⟩

/-- Whether the name is one of the two spellings of the vector type. -/
def isVector (h : TypeHead) : Bool :=
  h.name.path.isEmpty && (h.name.last == "Vector" || h.name.last == "vector")

end TypeHead

namespace TypeTerm

/-- The head of a term. -/
def head : TypeTerm → TypeHead
  | plain head => head
  | applied head _ => head

/-- The same term with its head marked as a type variable. -/
def markGeneric : TypeTerm → TypeTerm
  | plain head => plain { head with generic := true }
  | applied head arg => applied { head with generic := true } arg

/-- A term as characters. -/
def chars : TypeTerm → List Char
  | plain head => head.chars
  | applied head arg => head.chars ++ '<' :: (arg.chars ++ ['>'])

/-- A term as text. -/
def text (t : TypeTerm) : String :=
  String.ofList t.chars

/-- The names of the type variables in a term, from the outside in. -/
def typeVars : TypeTerm → List String
  | plain head => if head.generic then [head.name.last] else []
  | applied head arg => (if head.generic then [head.name.last] else []) ++ arg.typeVars

/-! ## Reading -/

/-- The text after a leading `c`, or all of it. -/
def afterSigil (c : Char) : List Char → List Char
  | [] => []
  | d :: rest => if d = c then rest else d :: rest

theorem length_afterSigil_le (c : Char) (s : List Char) : (afterSigil c s).length ≤ s.length := by
  cases s with
  | nil => simp [afterSigil]
  | cons d rest => simp only [afterSigil]; split <;> simp

/-- Reads a term.  What stands in the brackets is read first, so its faults come first. -/
def read (s : List Char) : Except ArgFault TypeTerm :=
  let marked := Text.trim s
  let unmarked := afterSigil '!' marked
  let bare := afterSigil '%' unmarked
  let generic := marked.head? == some '!'
  let percent := unmarked.head? == some '%'
  match _open : Text.cutAtChar '<' bare with
  | none => (TypeHead.read generic percent bare).map plain
  | some (name, rest) =>
    match _closed : Text.beforeTail? ['>'] rest with
    | none => .error .unclosed
    | some inner =>
      match read inner with
      | .error fault => .error fault
      | .ok arg => (TypeHead.read generic percent name).map (applied · arg)
termination_by s.length
decreasing_by
  have h₁ := Text.length_of_cutAt _open
  have h₂ := Text.length_of_beforeTail? _closed
  have h₃ := length_afterSigil_le '%' (afterSigil '!' (Text.trim s))
  have h₄ := length_afterSigil_le '!' (Text.trim s)
  have h₅ := Text.length_trim_le s
  simp only [List.length_cons, List.length_nil] at h₂
  simp only [bare, unmarked, marked] at h₁
  omega

end TypeTerm

end TypeLang.Declaration
