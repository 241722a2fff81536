import TypeLang.Text.Numeral

/-!
# What can be wrong with a declaration

A fault of one argument (`ArgFault`) and a fault of a whole declaration (`CombinatorFault`), which
may wrap the former.  Each has one wording.
-/

namespace TypeLang.Declaration

/-- Why a token is not an argument, or a text not a type term. -/
inductive ArgFault where
  /-- A name or a type is empty. -/
  | empty
  /-- The token is `{X:Type}`: it declares the type variable `X` and is no argument. -/
  | declaresVariable (name : String)
  /-- A token in braces that is not `{X:Type}`, or a reference to a type variable or flag word
  that nothing before declares. -/
  | undeclared
  /-- A `?` whose left side is not a flag word, a point and a bit. -/
  | invalidFlag
  /-- A `<` whose `>` is missing. -/
  | unclosed
  /-- A token with no `:` in it. -/
  | noType
  deriving DecidableEq, Repr

/-- The wording of an argument's fault. -/
def ArgFault.message : ArgFault → String
  | .empty => "empty token"
  | .declaresVariable name => "generic type definition: " ++ name
  | .undeclared => "reference to an undeclared generic or flag word"
  | .invalidFlag => "invalid flag expression"
  | .unclosed => "unclosed `<` in generic argument"
  | .noType => "parameter without `:type`"

/-- Why a text is not a declaration. -/
inductive CombinatorFault where
  /-- There is nothing but blanks and semicolons. -/
  | empty
  /-- There is no `=`, or no type term right of it. -/
  | missingType
  /-- The name, or a part of it, is empty. -/
  | missingName
  /-- What follows the `#` is no number. -/
  | invalidId (cause : Text.NumeralFault)
  /-- An argument is faulty. -/
  | invalidArg (cause : ArgFault)
  /-- The declaration is of a form that is not modelled, such as `int ? = Int`. -/
  | unsupported
  deriving DecidableEq, Repr

/-- The wording of a declaration's fault. -/
def CombinatorFault.message : CombinatorFault → String
  | .empty => "empty definition"
  | .missingType => "missing `= Type`"
  | .missingName => "missing or malformed name"
  | .invalidId cause => "invalid constructor id: " ++ cause.message
  | .invalidArg cause => "invalid parameter: " ++ cause.message
  | .unsupported => "unsupported TL syntax"

/-- The wording of the fault that a fault wraps, if it wraps one. -/
def CombinatorFault.cause? : CombinatorFault → Option String
  | .invalidId cause => some cause.message
  | .invalidArg cause => some cause.message
  | _ => none

end TypeLang.Declaration
