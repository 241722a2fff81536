import TypeLang.Schema.Constructor
import TypeLang.Schema.Fault

/-!
# Schemas

A schema holds constructors in the order in which their numbers first came, and types in the order
in which their names first came, each with the numbers of its members.  `Schema.add` puts in one
constructor; one whose number is already taken replaces the earlier holder of the number, which
leaves its type and gives up its predicate.

A predicate is held by the constructor that claimed it last, even when several numbers share it.

Look-ups go through the lists.  Tables of places are not part of a schema: a number and the name of
a type stand in one place only, so they find what a table would give, and a predicate is held by a
number instead of a place.
-/

namespace TypeLang

open Declaration

/-- A type with the numbers of its constructors. -/
structure TypeDef where
  /-- The dotted name. -/
  name : String
  /-- The members in the order in which they joined. -/
  members : List UInt32
  deriving DecidableEq, Repr, Inhabited

/-- Constructors and the types that group them. -/
structure Schema where
  constructors : List Constructor
  types : List TypeDef
  /-- Each claimed predicate with the number of the constructor that holds it. -/
  holders : List (String × UInt32)
  /-- The layer that the sources state. -/
  layer : Option Int
  deriving Repr, Inhabited

namespace Schema

/-- The schema without constructors. -/
def empty : Schema :=
  ⟨[], [], [], none⟩

/-! ## Looking up -/

/-- The constructor with a number. -/
def byId? (s : Schema) (id : UInt32) : Option Constructor :=
  s.constructors.find? (·.id == id)

/-- The constructor that holds a predicate. -/
def byPredicate? (s : Schema) (predicate : String) : Option Constructor :=
  (s.holders.lookup predicate).bind s.byId?

/-- The type with a name. -/
def typeDef? (s : Schema) (name : String) : Option TypeDef :=
  s.types.find? (·.name == name)

/-- The constructor that a bare reference means: the one that holds the name as its predicate, or
else the only member of the type of that name. -/
def bare? (s : Schema) (name : String) : Option Constructor :=
  match s.byPredicate? name with
  | some c => some c
  | none =>
    match s.typeDef? name with
    | some ⟨_, [only]⟩ => s.byId? only
    | _ => none

/-- A constructor of a schema. -/
abbrev Member (s : Schema) : Type :=
  { c : Constructor // c ∈ s.constructors }

theorem mem_of_byId? {s : Schema} {id : UInt32} {c : Constructor} (h : s.byId? id = some c) :
    c ∈ s.constructors :=
  List.mem_of_find?_eq_some h

theorem mem_of_bare? {s : Schema} {name : String} {c : Constructor} (h : s.bare? name = some c) :
    c ∈ s.constructors := by
  unfold bare? at h
  split at h
  case h_1 held heq =>
    obtain ⟨id, -, hid⟩ := Option.bind_eq_some_iff.1 heq
    exact mem_of_byId? (hid.trans h)
  case h_2 =>
    split at h
    · exact mem_of_byId? h
    · cases h

/-- The constructor with a number, as a member of the schema. -/
def member? (s : Schema) (id : UInt32) : Option s.Member :=
  (s.byId? id).attach.map fun c => ⟨c.val, mem_of_byId? c.property⟩

/-- The constructor that a bare reference means, as a member of the schema. -/
def bareMember? (s : Schema) (name : String) : Option s.Member :=
  (s.bare? name).attach.map fun c => ⟨c.val, mem_of_bare? c.property⟩

@[simp] theorem map_val_member? (s : Schema) (id : UInt32) :
    (s.member? id).map Subtype.val = s.byId? id := by
  simp [member?, Function.comp_def]

@[simp] theorem map_val_bareMember? (s : Schema) (name : String) :
    (s.bareMember? name).map Subtype.val = s.bare? name := by
  simp [bareMember?, Function.comp_def]

/-- The constructors of a type. -/
def members (s : Schema) (t : TypeDef) : List s.Member :=
  t.members.filterMap s.member?

/-! ## Putting in -/

/-- The predicates after `predicate` is claimed for `id`. -/
def claim (predicate : String) (id : UInt32) (holders : List (String × UInt32)) :
    List (String × UInt32) :=
  (predicate, id) :: holders.filter (·.1 != predicate)

/-- The predicates after `id` gives up `predicate`; nothing changes if another constructor holds
it. -/
def release (predicate : String) (id : UInt32) (holders : List (String × UInt32)) :
    List (String × UInt32) :=
  holders.filter fun held => !(held.1 == predicate && held.2 == id)

/-- The types after `id` leaves the type `name`. -/
def leave (name : String) (id : UInt32) (types : List TypeDef) : List TypeDef :=
  types.map fun t => if t.name == name then { t with members := t.members.filter (· != id) } else t

/-- The types after `id` joins the type `name`, which comes last if it is new. -/
def join (name : String) (id : UInt32) (types : List TypeDef) : List TypeDef :=
  if types.any (·.name == name) then
    types.map fun t => if t.name == name then { t with members := t.members ++ [id] } else t
  else types ++ [⟨name, [id]⟩]

/-- The schema after a constructor is put in. -/
def add (s : Schema) (c : Constructor) : Schema :=
  match s.byId? c.id with
  | some old =>
    { s with
      constructors := s.constructors.map fun k => if k.id == c.id then c else k
      types := join c.type c.id (leave old.type c.id s.types)
      holders := claim c.predicate c.id (release old.predicate c.id s.holders) }
  | none =>
    { s with
      constructors := s.constructors ++ [c]
      types := join c.type c.id s.types
      holders := claim c.predicate c.id s.holders }

/-! ## Checking references -/

/-- What is wrong with a reference that a field of a constructor makes. -/
def refFault? (s : Schema) (predicate field : String) (r : TypeRef) : Option SchemaFault :=
  if r.isBuiltin then none
  else if r.bare then
    if (s.byPredicate? r.name).isSome then none
    else
      match s.typeDef? r.name with
      | some t => if t.members.length = 1 then none else some (.ambiguous predicate r.name)
      | none => some (.unresolved predicate field r.name)
  else if (s.typeDef? r.name).isSome then none
  else some (.unresolved predicate field r.name)

/-- What is wrong with a field of a constructor. -/
def fieldFault? (s : Schema) (predicate : String) (f : Field) : Option SchemaFault :=
  match f.kind with
  | .value type => s.refFault? predicate f.name type.leaf
  | _ => none

/-- The first thing that is wrong with the fields of a schema. -/
def fault? (s : Schema) : Option SchemaFault :=
  s.constructors.findSome? fun c => c.fields.findSome? (s.fieldFault? c.predicate)

end Schema

end TypeLang
