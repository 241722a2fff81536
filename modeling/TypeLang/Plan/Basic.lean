import TypeLang.Content.Peer

/-!
# Reading plans

A plan is a schema made ready for reading.  Every type becomes a *dispatch*, which reads a tag and
goes on with the body that belongs to it, and every constructor a *body*, which reads its fields in
wire order.  Dispatches and bodies are routines, and refer to each other by number, so that types
may refer to themselves.

A plan also knows which number belongs to which type and constructor.  While it is being made, a
number may be taken whose routine is still to come.
-/

namespace TypeLang

/-- How to read one value. -/
inductive Step where
  | int
  | long
  | double
  | bool
  | bytes
  | string
  /-- An octet string of five-bit samples. -/
  | waveform
  /-- `size` octets. -/
  | fixed (size : Nat)
  | vector (boxed : Bool) (elem : Step)
  /-- A vector of the entries of a JSON object. -/
  | entries (boxed : Bool) (elem : Step)
  /-- Whatever the routine of a number reads. -/
  | call (routine : Nat)
  deriving DecidableEq, Repr, Inhabited

/-- How to read a field. -/
inductive FieldOp where
  /-- A flag word, kept in a slot and not shown. -/
  | flagWord (slot : Nat)
  /-- Nothing is read, and `true` shown. -/
  | presence
  /-- Random octets, checked for their number and not shown. -/
  | randomBytes
  /-- A stripped thumbnail, shown as it was before. -/
  | thumbnail
  | read (step : Step)
  deriving DecidableEq, Repr, Inhabited

/-- The bits of a flag word of which one must be set. -/
structure Gate where
  /-- The slot that keeps the word. -/
  slot : Nat
  mask : UInt32
  deriving DecidableEq, Repr, Inhabited

/-- A field of a body. -/
structure FieldStep where
  /-- The name under which the field is shown. -/
  name : String
  op : FieldOp
  gate : Option Gate
  deriving DecidableEq, Repr, Inhabited

/-- What becomes of the fields of a body. -/
inductive Form where
  | record
  /-- The JSON tree that the first field writes. -/
  | jsonText
  /-- The first field alone; nothing if there is none. -/
  | content
  /-- The first field as the common number of a peer. -/
  | peer (kind : Content.PeerKind)
  deriving DecidableEq, Repr, Inhabited

/-- How to read the fields of a constructor. -/
structure Body where
  predicate : String
  /-- What becomes of the fields. -/
  form : Form
  /-- The fields in wire order. -/
  fields : List FieldStep
  deriving DecidableEq, Repr, Inhabited

/-- How to go on after a tag. -/
structure Dispatch where
  /-- What is said to be expected when the tag is none of these. -/
  expected : String
  /-- Each tag with the number of the body that it announces. -/
  arms : List (UInt32 × Nat)
  deriving DecidableEq, Repr, Inhabited

/-- A piece of a plan. -/
inductive Routine where
  /-- Nothing yet: the number is taken, and the routine still to come. -/
  | reserved
  /-- Reads a tag and then a body. -/
  | dispatch (d : Dispatch)
  | body (b : Body)
  deriving DecidableEq, Repr, Inhabited

/-- What a routine is made for. -/
inductive Subject where
  /-- The type of a name. -/
  | type (name : String)
  /-- The constructor with a number on the wire. -/
  | constructor (id : UInt32)
  deriving DecidableEq, Repr, Inhabited

/-- A plan. -/
structure Plan where
  /-- The routines, by number. -/
  routines : Array Routine
  /-- The number of the routine that each subject has. -/
  numbers : List (Subject × Nat)
  deriving Repr, Inhabited

namespace Plan

/-- The routine of a number. -/
def routine (p : Plan) (n : Nat) : Routine :=
  p.routines.getD n .reserved

/-- The number of the routine that a subject has. -/
def number? (p : Plan) (x : Subject) : Option Nat :=
  p.numbers.lookup x

/-- Takes the next number for a subject. -/
def reserve (p : Plan) (x : Subject) : Plan :=
  ⟨p.routines.push .reserved, (x, p.routines.size) :: p.numbers⟩

/-- Puts in the routine of a number. -/
def fill (p : Plan) (n : Nat) (r : Routine) : Plan :=
  { p with routines := p.routines.setIfInBounds n r }

end Plan

end TypeLang
