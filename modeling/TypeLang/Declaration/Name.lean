import TypeLang.Text.Cut

/-!
# Qualified names

The name of a constructor or of a type: parts joined by points, such as `storage.fileType`.  The
parts before the last point are its `path`.  Two names with the same dotted text are told apart by
nothing but their parts, and a name that was read has no empty part.
-/

namespace TypeLang.Declaration

/-- A name with the path of namespaces that leads to it. -/
structure QualifiedName where
  /-- The parts before the last point. -/
  path : List String
  /-- The part after the last point. -/
  last : String
  deriving DecidableEq, Repr, Inhabited

namespace QualifiedName

/-- The dotted text, as characters. -/
def chars (n : QualifiedName) : List Char :=
  n.path.flatMap (fun part => part.toList ++ ['.']) ++ n.last.toList

/-- The dotted text. -/
def full (n : QualifiedName) : String :=
  String.ofList n.chars

/-- The name with the given parts, unless there is none or an empty one among them. -/
def ofParts? (parts : List (List Char)) : Option QualifiedName :=
  if parts.any List.isEmpty then none
  else
    match parts.map String.ofList |>.reverse with
    | [] => none
    | last :: path => some ⟨path.reverse, last⟩

/-- Reads a dotted text. -/
def read? (s : List Char) : Option QualifiedName :=
  ofParts? (Text.pieces '.' s)

/-- Whether the last part begins with a capital ASCII letter, as the names of boxed types do. -/
def isCapitalised (n : QualifiedName) : Bool :=
  n.last.toList.head?.any Char.isUpper

/-- Whether the last part begins with a small ASCII letter, as the names of bare types do. -/
def isSmall (n : QualifiedName) : Bool :=
  n.last.toList.head?.any Char.isLower

end QualifiedName

end TypeLang.Declaration
