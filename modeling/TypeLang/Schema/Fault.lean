import TypeLang.Declaration.Fault

/-!
# What can be wrong with a schema

A declaration of a source cannot be read, a field cannot be represented, or a reference leads
nowhere.
-/

namespace TypeLang

open Declaration

/-- Why no schema results. -/
inductive SchemaFault where
  /-- The declaration that ends on a line of a source is faulty. -/
  | parse (line : Nat) (cause : CombinatorFault)
  /-- A field refers to a type or constructor that no source declares. -/
  | unresolved (predicate field name : String)
  /-- A field has a type without a meaning on the wire. -/
  | invalidField (predicate : String) (cause : ArgFault)
  /-- A bare reference goes to a type that has not exactly one constructor. -/
  | ambiguous (predicate name : String)
  deriving DecidableEq, Repr

namespace SchemaFault

/-- The wording of a fault. -/
def message : SchemaFault → String
  | parse line cause => "line " ++ toString line ++ ": " ++ cause.message
  | unresolved predicate field name =>
    predicate ++ "." ++ field ++ " refers to unknown type `" ++ name ++ "`"
  | invalidField predicate cause => predicate ++ ": " ++ cause.message
  | ambiguous predicate name =>
    predicate ++ " uses %" ++ name ++ ", which needs exactly one constructor"

/-- The wording of the fault that a fault wraps, if it wraps one. -/
def cause? : SchemaFault → Option String
  | parse _ cause => some cause.message
  | invalidField _ cause => some cause.message
  | _ => none

end SchemaFault

end TypeLang
