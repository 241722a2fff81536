import Mathlib.Data.List.TakeWhile
import TypeLang.Proofs.Schema.Building

/-!
# What a builder queues

A builder is given sources and single declarations in any order.  From a source it takes the
constructors up to the first faulty declaration, and the layer only if there is none.  Its queue is
then what the additions bring, one after another, and its layer the highest that any of them brings.
-/

namespace TypeLang

open Declaration

/-- What a builder may be given. -/
inductive Addition where
  /-- A source, as text. -/
  | source (file : List Char) (origin : Origin)
  /-- A declaration that has been read elsewhere. -/
  | declaration (d : Combinator) (origin : Origin)

namespace Addition

/-- Whether a source is given up at an item. -/
def isFaulty (item : Item) : Bool :=
  match item.outcome with
  | .ok _ | .error .unsupported => false
  | .error _ => true

/-- What a declaration brings: nothing if it is a function. -/
def entriesOf (origin : Origin) (d : Combinator) : List Entry :=
  match d.place with
  | .types => [(d, origin)]
  | .functions => []

/-- What an item of a source brings. -/
def entriesOfItem (origin : Origin) (item : Item) : List Entry :=
  item.outcome.toOption.elim [] (entriesOf origin)

/-- The queued declarations that an addition brings. -/
def entries : Addition → List Entry
  | source file origin =>
    ((items file).takeWhile (!isFaulty ·)).flatMap (entriesOfItem origin)
  | declaration d origin => entriesOf origin d

/-- The queued declarations that some additions bring. -/
def queued (additions : List Addition) : List Entry :=
  additions.flatMap entries

lemma queued_append (first second : List Addition) :
    queued (first ++ second) = queued first ++ queued second :=
  List.flatMap_append

/-- The layer that an addition brings. -/
def layer? : Addition → Option Int
  | source file _ => if (items file).any isFaulty then none else Declaration.layer? file
  | declaration _ _ => none

end Addition

namespace Builder

/-- The builder after an addition. -/
def take (b : Builder) : Addition → Builder
  | .source file origin => (b.addSource file origin).1
  | .declaration d origin => b.add d origin

/-- The builder that was given some additions, the first one first. -/
def given (additions : List Addition) : Builder :=
  additions.foldl take empty

/-! ## The higher of two layers -/

lemma higherLayer_comm (a b : Option Int) : higherLayer a b = higherLayer b a := by
  cases a <;> cases b <;> simp [higherLayer, max_comm]

instance : Std.Associative higherLayer where
  assoc a b c := by
    cases a <;> cases b <;> cases c <;> simp [higherLayer, max_assoc]

@[simp] lemma higherLayer_none (layer : Option Int) : higherLayer layer none = layer := by
  cases layer <;> rfl

lemma foldl_higherLayer (layer : Option Int) (layers : List (Option Int)) :
    layers.foldl higherLayer layer = higherLayer layer (layers.foldl higherLayer none) :=
  calc layers.foldl higherLayer layer
    _ = layers.foldl higherLayer (higherLayer layer none) := by rw [higherLayer_none]
    _ = higherLayer layer (layers.foldl higherLayer none) := List.foldl_assoc

/-! ## One addition -/

lemma add_eq (b : Builder) (d : Combinator) (origin : Origin) :
    b.add d origin = { b with queue := b.queue ++ Addition.entriesOf origin d } := by
  unfold add Addition.entriesOf
  cases d.place <;> simp

/-- Items without a fault are taken one after another. -/
lemma addItems_append (b : Builder) (origin : Origin) {first : List Item} (second : List Item)
    (h : ∀ item ∈ first, Addition.isFaulty item = false) :
    b.addItems origin (first ++ second) =
      addItems ⟨b.queue ++ first.flatMap (Addition.entriesOfItem origin), b.layer⟩ origin
        second := by
  induction first generalizing b with
  | nil => simp
  | cons item rest ih =>
      obtain ⟨hitem, hrest⟩ := List.forall_mem_cons.1 h
      obtain ⟨line, outcome⟩ := item
      cases outcome with
      | ok d =>
          rw [List.cons_append, addItems, ih _ hrest, add_eq]
          simp [Addition.entriesOfItem, Except.toOption]
      | error fault =>
          cases fault with
          | unsupported =>
              rw [List.cons_append, addItems, ih _ hrest]
              simp [Addition.entriesOfItem, Except.toOption]
          | _ => cases hitem

/-- A faulty item is reported, and nothing behind it is taken. -/
lemma addItems_cons_faulty (b : Builder) (origin : Origin) {line : Nat} {cause : CombinatorFault}
    (rest : List Item) (h : Addition.isFaulty ⟨line, .error cause⟩ = true) :
    b.addItems origin (⟨line, .error cause⟩ :: rest) = (b, some (.parse line cause)) := by
  cases cause with
  | unsupported => cases h
  | _ => rfl

/-- The items of a source are taken up to the first faulty one, which is reported. -/
lemma addItems_eq (b : Builder) (origin : Origin) (is : List Item) :
    (b.addItems origin is).1 = { b with
        queue := b.queue ++ (is.takeWhile (!Addition.isFaulty ·)).flatMap
          (Addition.entriesOfItem origin) } ∧
      (b.addItems origin is).2.isSome = is.any Addition.isFaulty := by
  have hfirst : ∀ item ∈ is.takeWhile (!Addition.isFaulty ·), Addition.isFaulty item = false :=
    fun item hitem => by simpa using List.mem_takeWhile_imp hitem
  have hsplit := List.takeWhile_append_dropWhile (p := (!Addition.isFaulty ·)) (l := is)
  have hadd := b.addItems_append origin (is.dropWhile (!Addition.isFaulty ·)) hfirst
  rw [hsplit] at hadd
  cases hrest : is.dropWhile (!Addition.isFaulty ·) with
  | nil =>
      have hclean : is.any Addition.isFaulty = false := by
        simpa using List.dropWhile_eq_nil_iff.1 hrest
      rw [hadd, hrest, hclean]
      exact ⟨rfl, rfl⟩
  | cons item rest =>
      have hitem : Addition.isFaulty item = true := by
        simpa [hrest] using List.head?_dropWhile_not (!Addition.isFaulty ·) is
      have hmem : item ∈ is := List.dropWhile_subset _ (hrest ▸ List.mem_cons_self)
      rw [hadd, hrest, List.any_eq_true.2 ⟨item, hmem, hitem⟩]
      obtain ⟨line, outcome⟩ := item
      cases outcome with
      | ok d => cases hitem
      | error cause =>
          rw [addItems_cons_faulty _ origin rest hitem]
          exact ⟨rfl, rfl⟩

lemma take_eq (b : Builder) (a : Addition) :
    b.take a = ⟨b.queue ++ a.entries, higherLayer b.layer a.layer?⟩ := by
  cases a with
  | declaration d origin =>
      rw [take, add_eq, Addition.entries, Addition.layer?, higherLayer_none]
  | source file origin =>
      obtain ⟨hqueue, hfault⟩ := addItems_eq b origin (items file)
      rw [take, addSource, Addition.entries, Addition.layer?, ← hfault]
      split
      case h_1 after fault hitems =>
        rw [hitems] at hqueue ⊢
        simpa using hqueue
      case h_2 after hitems =>
        rw [hitems] at hqueue ⊢
        obtain rfl := hqueue
        simp

/-! ## Many additions -/

lemma foldl_take (b : Builder) (additions : List Addition) :
    additions.foldl take b =
      ⟨b.queue ++ additions.flatMap Addition.entries,
        (additions.map Addition.layer?).foldl higherLayer b.layer⟩ := by
  induction additions generalizing b with
  | nil => simp
  | cons a rest ih =>
      rw [List.foldl_cons, ih, take_eq]
      simp

/-- **The queue of a builder is what its additions bring**, one after another. -/
lemma queue_given (additions : List Addition) :
    (given additions).queue = Addition.queued additions := by
  rw [given, foldl_take]
  rfl

lemma layer_given_append (first second : List Addition) :
    (given (first ++ second)).layer =
      higherLayer (given first).layer (given second).layer := by
  simp only [given, foldl_take, List.foldl_append]
  exact foldl_higherLayer _ _

end Builder

end TypeLang
