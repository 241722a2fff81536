import TypeLang.Number.Double

/-!
# JSON trees

Numbers are whole numbers or doubles, according to how they are written.  The entries of an object
are sorted by key, each key once.
-/

namespace TypeLang

/-- A JSON tree. -/
inductive Json where
  | null
  | bool (b : Bool)
  /-- A whole number written without point and exponent. -/
  | integer (n : Int)
  /-- Any other number. -/
  | double (d : Double)
  | string (s : String)
  | array (items : List Json)
  | object (entries : List (String × Json))
  deriving Repr, Inhabited

end TypeLang
