import TypeLang.Declaration.Combinator
import TypeLang.Schema.TypeExpr

/-!
# Constructors

A declaration as the wire sees it.  An argument becomes a field of one of three kinds: a flag word,
a mere presence (`true`), or a value.  An argument is a flag word when it is written `#` or when a
later argument names it in its gate.
-/

namespace TypeLang

open Declaration

/-- The schema file from which a constructor comes. -/
inductive Origin where
  /-- The service schema, whose constructors may arrive unencrypted. -/
  | mtproto
  /-- The schema of the client interface. -/
  | api
  /-- The schema of secret chats. -/
  | secret
  deriving DecidableEq, Repr, Inhabited

/-- Whether constructors of this origin travel encrypted only. -/
def Origin.isEncrypted : Origin → Bool
  | mtproto => false
  | api | secret => true

/-- How a field occupies the wire. -/
inductive FieldKind where
  /-- A 32-bit word whose bits gate later fields. -/
  | flagWord
  /-- Nothing: the field is there when its gate is open. -/
  | presence
  | value (type : TypeExpr)
  deriving DecidableEq, Repr, Inhabited

/-- A field of a constructor. -/
structure Field where
  name : String
  /-- What stands on the wire. -/
  kind : FieldKind
  /-- The bit that must be set for the field to be on the wire. -/
  gate : Option FlagBit
  deriving DecidableEq, Repr, Inhabited

/-- A constructor of a type. -/
structure Constructor where
  /-- The dotted name. -/
  predicate : String
  /-- The tag on the wire. -/
  id : UInt32
  /-- The dotted name of the type that it belongs to. -/
  type : String
  /-- The fields in wire order. -/
  fields : List Field
  /-- It travels encrypted only. -/
  encrypted : Bool
  deriving DecidableEq, Repr, Inhabited

namespace Constructor

/-- The kind of an argument of type `type` that is no flag word. -/
def valueKind (type : TypeTerm) : Except ArgFault FieldKind :=
  if type.head.name.path.isEmpty && type.head.name.last == "true" then .ok .presence
  else (TypeExpr.ofTerm type).map .value

/-- The field that an argument becomes, before the arguments `later`. -/
def fieldOf (arg : Arg) (later : List Arg) : Except ArgFault Field :=
  match arg.type with
  | .flagWord => .ok ⟨arg.name, .flagWord, none⟩
  | .value type gate =>
    if later.any fun a => a.type.gate?.any fun bit => bit.word == arg.name then
      .ok ⟨arg.name, .flagWord, gate⟩
    else (valueKind type).map fun kind => ⟨arg.name, kind, gate⟩

/-- The fields that arguments become. -/
def fieldsOf : List Arg → Except ArgFault (List Field)
  | [] => .ok []
  | arg :: later => do
    let field ← fieldOf arg later
    let fields ← fieldsOf later
    return field :: fields

/-- The constructor that a declaration of some origin makes. -/
def ofCombinator (d : Combinator) (origin : Origin) : Except ArgFault Constructor :=
  (fieldsOf d.args).map fun fields =>
    ⟨d.name.full, d.id, d.result.head.name.full, fields, origin.isEncrypted⟩

/-- The gates of the constructor with the field behind each, in field order. -/
def gated (c : Constructor) : List (FlagBit × String) :=
  c.fields.filterMap fun f => f.gate.map fun bit => (bit, f.name)

/-- The names of the flag words, in field order. -/
def flagWords (c : Constructor) : List String :=
  (c.fields.filter fun f => f.kind = .flagWord).map (·.name)

end Constructor

end TypeLang
