import TypeLang.Declaration.File
import TypeLang.Schema.Basic

/-!
# Building schemas

A builder queues declarations of one or more sources, and the highest layer that they state.  It
builds a schema by putting in the constructors in queue order, so that sources can be laid over
each other, the oldest first.
-/

namespace TypeLang

open Declaration

/-- Declarations waiting to become a schema. -/
structure Builder where
  /-- The declarations with their origins, the oldest first. -/
  queue : List (Combinator × Origin)
  /-- The highest layer of the sources. -/
  layer : Option Int
  deriving Repr, Inhabited

namespace Builder

/-- The builder without declarations. -/
def empty : Builder :=
  ⟨[], none⟩

/-- Queues a declaration.  Functions are not kept. -/
def add (b : Builder) (d : Combinator) (origin : Origin) : Builder :=
  match d.place with
  | .types => { b with queue := b.queue ++ [(d, origin)] }
  | .functions => b

/-- Queues the declarations of a file up to the first faulty one, and tells what is wrong with it.
Declarations of a form that is not modelled are passed over. -/
def addItems (b : Builder) (origin : Origin) : List Item → Builder × Option SchemaFault
  | [] => (b, none)
  | ⟨line, outcome⟩ :: rest =>
    match outcome with
    | .ok d => (b.add d origin).addItems origin rest
    | .error .unsupported => b.addItems origin rest
    | .error fault => (b, some (.parse line fault))

/-- The higher of two layers. -/
def higherLayer (a b : Option Int) : Option Int :=
  match a, b with
  | some a, some b => some (max a b)
  | none, b => b
  | a, none => a

/-- Queues the declarations of a file.  After a fault, the declarations before it stay queued and
the layer that the file states is not taken. -/
def addSource (b : Builder) (file : List Char) (origin : Origin) : Builder × Option SchemaFault :=
  match b.addItems origin (items file) with
  | (b, some fault) => (b, some fault)
  | (b, none) => ({ b with layer := higherLayer b.layer (layer? file) }, none)

/-- The constructor that a queued declaration makes. -/
def constructorOf (entry : Combinator × Origin) : Except SchemaFault Constructor :=
  (Constructor.ofCombinator entry.1 entry.2).mapError (.invalidField entry.1.name.full)

/-- The schema of the queued declarations, unless one has no meaning or a reference leads
nowhere. -/
def build (b : Builder) : Except SchemaFault Schema := do
  let constructors ← b.queue.mapM constructorOf
  let schema := constructors.foldl Schema.add { Schema.empty with layer := b.layer }
  match schema.fault? with
  | some fault => throw fault
  | none => return schema

end Builder

end TypeLang
