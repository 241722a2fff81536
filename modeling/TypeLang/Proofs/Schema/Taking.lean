import TypeLang.Proofs.Declaration.Endings
import TypeLang.Proofs.Schema.Queue

/-!
# What is taken from a source

A source is taken up to the first declaration that cannot be read, other than one of a form that is
not modelled.  The constructors declared on the lines above the one where it ends are queued, that
line is reported, and the layer that the source states is not taken.  If there is no such
declaration, all constructors of the source are queued, and the layer is the highest of those stated
before and in the source.

The layer of a builder is therefore the highest that is stated in the sources which were taken
without a fault, whatever sources failed between them.
-/

namespace TypeLang

open Declaration

namespace Declaration

/-- Whether all that is wrong with some declarations is that their form is not modelled. -/
def Passable (outcomes : List (Except CombinatorFault Combinator)) : Prop :=
  ∀ cause, .error cause ∈ outcomes → cause = .unsupported

/-- The constructors among the declarations that were read. -/
def constructorsOf (outcomes : List (Except CombinatorFault Combinator)) : List Combinator :=
  (outcomes.filterMap Except.toOption).filter (·.place == .types)

variable {outcomes : List (Except CombinatorFault Combinator)}

lemma passable_append {more : List (Except CombinatorFault Combinator)} :
    Passable (outcomes ++ more) ↔ Passable outcomes ∧ Passable more := by
  simp only [Passable, List.mem_append, or_imp, forall_and]

/-- Some lines can be passed, or there is a first one that cannot. -/
lemma passable_or_fault (before ls : List (List Char)) :
    Passable (endingsBelow before ls) ∨
      ∃ first raw rest cause, ls = first ++ raw :: rest ∧ Passable (endingsBelow before first) ∧
        ending? (before ++ first) raw = some (.error cause) ∧ cause ≠ .unsupported := by
  induction ls generalizing before with
  | nil => exact .inl (by simp [Passable, endingsBelow])
  | cons raw rest ih =>
      by_cases hraw : Passable (ending? before raw).toList
      · rcases ih (before ++ [raw]) with hrest | ⟨first, last, rest, cause, rfl, hfirst, hlast⟩
        · exact .inl (passable_append.2 ⟨hraw, hrest⟩)
        · refine .inr ⟨raw :: first, last, rest, cause, rfl, passable_append.2 ⟨hraw, hfirst⟩, ?_⟩
          simpa using hlast
      · obtain ⟨cause, hcause, hne⟩ : ∃ cause, .error cause ∈ (ending? before raw).toList ∧
            cause ≠ .unsupported := by simpa [Passable] using hraw
        refine .inr ⟨[], raw, rest, cause, rfl, by simp [Passable, endingsBelow], ?_, hne⟩
        simpa using hcause

lemma constructorsOf_cons_error (cause : CombinatorFault) :
    constructorsOf (.error cause :: outcomes) = constructorsOf outcomes := by
  rw [constructorsOf, List.filterMap_cons_none rfl, constructorsOf]

lemma constructorsOf_cons_ok (d : Combinator) :
    constructorsOf (.ok d :: outcomes) =
      [d].filter (·.place == .types) ++ constructorsOf outcomes := by
  rw [constructorsOf, List.filterMap_cons_some (f := Except.toOption) rfl,
    ← List.singleton_append, List.filter_append, constructorsOf]

end Declaration

namespace Addition

lemma isFaulty_iff {item : Item} :
    isFaulty item = true ↔ ∃ cause, item.outcome = .error cause ∧ cause ≠ .unsupported := by
  unfold isFaulty
  split <;> simp_all

lemma isFaulty_of_passable {is : List Item} (h : Passable (is.map (·.outcome))) :
    ∀ item ∈ is, isFaulty item = false := by
  intro item hitem
  rw [← Bool.not_eq_true, isFaulty_iff]
  rintro ⟨cause, houtcome, hne⟩
  exact hne (h cause (List.mem_map.2 ⟨item, hitem, houtcome⟩))

/-- What items bring is the constructors among what was read. -/
lemma flatMap_entriesOfItem (origin : Origin) (is : List Item) :
    is.flatMap (entriesOfItem origin) =
      (constructorsOf (is.map (·.outcome))).map (·, origin) := by
  induction is with
  | nil => rfl
  | cons item rest ih =>
      obtain ⟨line, outcome⟩ := item
      rw [List.flatMap_cons, List.map_cons, ih]
      cases outcome with
      | error cause => rw [constructorsOf_cons_error]; rfl
      | ok d =>
          rw [constructorsOf_cons_ok, List.map_append]
          cases hplace : d.place <;>
            simp [entriesOfItem, Except.toOption, entriesOf, hplace]

end Addition

namespace Builder

variable (b : Builder)

/-! ## The highest layer -/

lemma max?_append (marks more : List Int) :
    (marks ++ more).max? = higherLayer marks.max? more.max? := by
  induction marks with
  | nil => rw [higherLayer_comm, List.max?_nil, higherLayer_none, List.nil_append]
  | cons mark rest ih =>
      rw [List.cons_append, List.max?_cons, List.max?_cons, ih]
      cases rest.max? <;> cases more.max? <;> simp [higherLayer, max_assoc]

lemma max?_toList (layer : Option Int) : layer.toList.max? = layer := by
  cases layer <;> rfl

/-- The layers that some files state. -/
def layersOf (files : List (List Char)) : List Int :=
  files.flatMap fun file => (Text.lines file).filterMap layerMark?

lemma higherLayer_layer? (layer : Option Int) (file : List Char) :
    higherLayer layer (Declaration.layer? file) = (layer.toList ++ layersOf [file]).max? := by
  rw [max?_append, max?_toList, layersOf, List.flatMap_singleton, Declaration.layer?]

/-! ## One source -/

/-- **A source is taken up to its first fault.** -/
lemma addSource_cases (file : List Char) (origin : Origin) :
    (∃ above raw below cause, Text.lines file = above ++ raw :: below ∧
      Passable (endings above) ∧ ending? above raw = some (.error cause) ∧ cause ≠ .unsupported ∧
      b.addSource file origin =
        (⟨b.queue ++ (constructorsOf (endings above)).map (·, origin), b.layer⟩,
          some (.parse (above.length + 1) cause))) ∨
    Passable (endings (Text.lines file)) ∧
      b.addSource file origin =
        (⟨b.queue ++ (constructorsOf (endings (Text.lines file))).map (·, origin),
          (b.layer.toList ++ layersOf [file]).max?⟩, none) := by
  have houtcomes : ∀ ls, (itemsBelow [] ls).map (·.outcome) = endings ls := outcomes_itemsBelow []
  rcases passable_or_fault [] (Text.lines file) with hall | hfault
  · right
    have hpassable : Passable ((items file).map (·.outcome)) := by rwa [items_eq, houtcomes]
    have hadded := b.addItems_append origin [] (Addition.isFaulty_of_passable hpassable)
    rw [List.append_nil, addItems, Addition.flatMap_entriesOfItem] at hadded
    refine ⟨hall, ?_⟩
    rw [addSource, hadded, items_eq, houtcomes]
    simp only [higherLayer_layer?]
  · left
    obtain ⟨above, raw, below, cause, hlines, habove, hending, hne⟩ := hfault
    rw [List.nil_append] at hending
    refine ⟨above, raw, below, cause, hlines, habove, hending, hne, ?_⟩
    have hitems : items file = itemsBelow [] above ++
        ⟨above.length + 1, .error cause⟩ :: itemsBelow (above ++ [raw]) below := by
      rw [items_eq, hlines, itemsBelow_append, itemsBelow, List.nil_append, endingItem?, hending]
      rfl
    have hpassable : Passable ((itemsBelow [] above).map (·.outcome)) := by rwa [houtcomes]
    have hfaulty : Addition.isFaulty ⟨above.length + 1, .error cause⟩ = true :=
      Addition.isFaulty_iff.2 ⟨cause, rfl, hne⟩
    rw [addSource, hitems, addItems_append _ _ _ (Addition.isFaulty_of_passable hpassable),
      addItems_cons_faulty _ _ _ hfaulty, Addition.flatMap_entriesOfItem, houtcomes]

/-! ## Many sources -/

/-- The files of the sources that are taken without a fault, when a builder is given some additions
one after another. -/
def takenFiles (b : Builder) : List Addition → List (List Char)
  | [] => []
  | .source file origin :: rest =>
    (if (b.addSource file origin).2.isNone then [file] else []) ++
      takenFiles (b.take (.source file origin)) rest
  | .declaration d origin :: rest => takenFiles (b.take (.declaration d origin)) rest

/-- **The highest layer is that of the sources taken without a fault.** -/
lemma layer_foldl_take (additions : List Addition) :
    (additions.foldl take b).layer =
      (b.layer.toList ++ layersOf (b.takenFiles additions)).max? := by
  induction additions generalizing b with
  | nil => cases hlayer : b.layer <;> simp [takenFiles, layersOf, hlayer]
  | cons a rest ih =>
      rw [List.foldl_cons, ih]
      cases a with
      | declaration d origin => rw [takenFiles, take, add_eq]
      | source file origin =>
          rw [takenFiles, take]
          rcases b.addSource_cases file origin with hfault | ⟨_, htaken⟩
          · obtain ⟨above, raw, below, cause, -, -, -, -, hfault⟩ := hfault
            rw [hfault]
            rfl
          · rw [htaken, max?_append, max?_toList, ← max?_append, List.append_assoc]
            simp [layersOf]

/-- **A source that fails leaves what stood before its first fault.** -/
theorem addSource_upToFault (file : List Char) (origin : Origin) :
    ((∃ above raw below cause, Text.lines file = above ++ raw :: below ∧
        Passable (endings above) ∧ ending? above raw = some (.error cause) ∧
        cause ≠ .unsupported ∧
        b.addSource file origin =
          (⟨b.queue ++ (constructorsOf (endings above)).map (·, origin), b.layer⟩,
            some (.parse (above.length + 1) cause))) ∨
      Passable (endings (Text.lines file)) ∧
        b.addSource file origin =
          (⟨b.queue ++ (constructorsOf (endings (Text.lines file))).map (·, origin),
            (b.layer.toList ++ layersOf [file]).max?⟩, none)) ∧
    ∀ additions : List Addition, (additions.foldl take b).layer =
      (b.layer.toList ++ layersOf (b.takenFiles additions)).max? :=
  ⟨b.addSource_cases file origin, b.layer_foldl_take⟩

end Builder

end TypeLang
