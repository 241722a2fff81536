import TypeLang.Declaration.TypeTerm

/-!
# Type expressions

What a type term means on the wire: a named type, or a vector of a type expression.  The two
spellings of the vector type differ in whether a tag precedes the elements.

A type term that is applied to an argument but is no vector means its head alone.
-/

namespace TypeLang

open Declaration

/-- A reference to a named type. -/
structure TypeRef where
  /-- The dotted name without sigils. -/
  name : String
  /-- No tag on the wire tells which constructor follows. -/
  bare : Bool
  /-- The name is a type variable: any object may follow. -/
  generic : Bool
  deriving DecidableEq, Repr, Inhabited

/-- The shape of a value on the wire, up to the meaning of names. -/
inductive TypeExpr where
  /-- One value of a named type. -/
  | named (ref : TypeRef)
  /-- A count and as many elements; if `boxed`, after the tag of vectors. -/
  | vector (boxed : Bool) (elem : TypeExpr)
  deriving DecidableEq, Repr, Inhabited

namespace TypeRef

/-- The names that need no schema. -/
def builtins : List String :=
  ["int", "long", "double", "string", "bytes", "int128", "int256", "int512", "strlong",
    "Bool", "true", "True", "Object", "Type", "#"]

/-- Whether the reference needs no schema: a type variable, or one of the built-in names. -/
def isBuiltin (r : TypeRef) : Bool :=
  r.generic || builtins.contains r.name

/-- The reference that the head of a type term makes. -/
def ofHead (head : TypeHead) : TypeRef :=
  ⟨head.name.full, head.bare, head.generic⟩

/-- Whether the part of the name after its last point begins with a capital ASCII letter. -/
def isCapitalised (r : TypeRef) : Bool :=
  ((Text.pieces '.' r.name.toList).getLast?.bind List.head?).any Char.isUpper

/-- A reference as characters.  A type variable is written with `!` alone. -/
def chars (r : TypeRef) : List Char :=
  if r.generic then '!' :: r.name.toList
  else if r.bare && r.isCapitalised then '%' :: r.name.toList
  else r.name.toList

end TypeRef

namespace TypeExpr

/-- The meaning of a type term.  A vector without an element type has none. -/
def ofTerm : TypeTerm → Except ArgFault TypeExpr
  | .plain head => if head.isVector then .error .unclosed else .ok (named (TypeRef.ofHead head))
  | .applied head arg =>
    if head.isVector then (ofTerm arg).map (vector (head.name.last == "Vector"))
    else .ok (named (TypeRef.ofHead head))

/-- Reads a type term for its meaning. -/
def read (s : List Char) : Except ArgFault TypeExpr :=
  TypeTerm.read s >>= ofTerm

/-- The named type inside all vectors. -/
def leaf : TypeExpr → TypeRef
  | named ref => ref
  | vector _ elem => elem.leaf

/-- A type expression as characters. -/
def chars : TypeExpr → List Char
  | named ref => ref.chars
  | vector boxed elem =>
    (if boxed then 'V' else 'v') :: 'e' :: 'c' :: 't' :: 'o' :: 'r' :: '<' :: (elem.chars ++ ['>'])

/-- A type expression as text. -/
def text (e : TypeExpr) : String :=
  String.ofList e.chars

end TypeExpr

end TypeLang
