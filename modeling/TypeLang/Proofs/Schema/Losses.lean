import TypeLang.Proofs.Declaration.Pieces
import TypeLang.Proofs.Schema.Gates

/-!
# What a source loses

A source that is taken without a fault adds what its pieces declare, in their order, as long as it
is tidy: semicolons end their lines, and a semicolon closes the last piece.  Passed over are only
pieces of a form that is not modelled.

In other sources declarations are lost, and no fault tells.  Where a declaration begins behind the
semicolon of another one, the two are read as one; and a declaration without a semicolon at the end
of the file is not read.
-/

namespace TypeLang

open Declaration

namespace Declaration

/-- A file whose semicolons end their lines, and that has nothing to read behind the last one. -/
structure Tidy (file : List Char) : Prop where
  lines : ∀ raw ∈ Text.lines file, endsAtSemicolons raw = true
  closed : (pieces file).getLast?.all (·.isBlank) = true

instance (file : List Char) : Decidable (Tidy file) :=
  decidable_of_iff
    ((∀ raw ∈ Text.lines file, endsAtSemicolons raw = true) ∧
      (pieces file).getLast?.all (·.isBlank) = true)
    ⟨fun ⟨hlines, hclosed⟩ => ⟨hlines, hclosed⟩, fun ⟨hlines, hclosed⟩ => ⟨hlines, hclosed⟩⟩

/-- A tidy file is read piece by piece. -/
lemma outcomes_items {file : List Char} (h : Tidy file) :
    (items file).map (·.outcome) = ((pieces file).filter (!·.isBlank)).map Piece.outcome := by
  have hstart : Together [] [] := ⟨List.not_mem_nil, List.not_mem_nil, rfl⟩
  have hne : pieces file ≠ [] := piecesFrom_ne_nil _ _ _
  have hlast : ((pieces file).getLast hne).isBlank = true := by
    simpa [List.getLast?_eq_getLast_of_ne_nil hne] using h.closed
  have hclosed : (pieces file).filter (!·.isBlank) =
      (pieces file).dropLast.filter (!·.isBlank) := by
    conv_lhs => rw [← List.dropLast_append_getLast hne]
    simp [hlast]
  rw [hclosed]
  exact outcomes_itemsFrom 1 .types hstart h.lines

end Declaration

namespace Addition

variable {file : List Char}

/-- What a piece brings, read on its own: a constructor, if it is in a section of types. -/
lemma entries_of_outcome (origin : Origin) (p : Piece) :
    p.outcome.toOption.elim [] (entriesOf origin) =
      (if p.place == .types then (Combinator.read p.text).toOption.map (·, origin)
        else none).toList := by
  cases hread : Combinator.read p.text with
  | error fault => simp [Piece.outcome, hread, Except.map, Except.toOption]
  | ok d =>
      obtain ⟨_, _, hfrom⟩ := Combinator.exists_readFrom hread
      have hplace := hfrom.place
      cases hp : p.place with
      | types =>
          have hd : { d with place := .types } = d := by rw [← hplace]
          simp [Piece.outcome, hread, Except.map, Except.toOption, entriesOf, hp, hd, hplace]
      | functions => simp [Piece.outcome, hread, Except.map, Except.toOption, entriesOf, hp]

/-- A tidy source without faults brings what its pieces bring. -/
lemma entries_of_tidy (origin : Origin) (htidy : Tidy file)
    (hclean : ∀ item ∈ items file, isFaulty item = false) :
    entries (.source file origin) =
      ((pieces file).filter fun p => p.place == .types && !p.isBlank).filterMap
        fun p => (Combinator.read p.text).toOption.map (·, origin) :=
  calc entries (.source file origin)
    _ = (items file).flatMap (entriesOfItem origin) := by
        rw [entries, List.takeWhile_eq_self_iff.2 (by simpa using hclean)]
    _ = ((items file).map (·.outcome)).flatMap (·.toOption.elim [] (entriesOf origin)) := by
        rw [List.flatMap_map]
        rfl
    _ = ((pieces file).filter (!·.isBlank)).flatMap
          (fun p => p.outcome.toOption.elim [] (entriesOf origin)) := by
        rw [outcomes_items htidy, List.flatMap_map]
    _ = _ := by
        rw [← List.filter_filter, List.filterMap_filter, List.filterMap_eq_flatMap_toList]
        simp only [entries_of_outcome]

/-- A piece of a tidy source without faults is read, unless it is of a form that is not modelled. -/
lemma read_of_tidy {p : Piece} (htidy : Tidy file)
    (hclean : ∀ item ∈ items file, isFaulty item = false) (hp : p ∈ pieces file)
    (hblank : p.isBlank = false) :
    (∃ d, Combinator.read p.text = .ok d) ∨ Combinator.read p.text = .error .unsupported := by
  have hmem : p.outcome ∈ (items file).map (·.outcome) := by
    rw [outcomes_items htidy]
    exact List.mem_map_of_mem (List.mem_filter.2 ⟨hp, by simp [hblank]⟩)
  obtain ⟨item, hitem, houtcome⟩ := List.mem_map.1 hmem
  have hfine := hclean item hitem
  rw [isFaulty, houtcome, Piece.outcome] at hfine
  cases hread : Combinator.read p.text with
  | ok d => exact .inl ⟨d, rfl⟩
  | error fault =>
      rw [hread] at hfine
      cases fault with
      | unsupported => exact .inr rfl
      | _ => cases hfine

end Addition

namespace Builder

/-- Whether a source is taken without a fault. -/
lemma isSome_addSource (b : Builder) (file : List Char) (origin : Origin) :
    (b.addSource file origin).2.isSome = (items file).any Addition.isFaulty := by
  rw [← (addItems_eq b origin (items file)).2, addSource]
  split
  case h_1 after fault hitems => rw [hitems]
  case h_2 after hitems => rw [hitems]

/-- **Nothing that a tidy source declares is lost.**  If it is taken without a fault, each piece in
a section of types that can be read on its own is queued, once and in order; and each piece that is
not blank can be read, or is of a form that is not modelled. -/
theorem addSource_loses_nothing (b : Builder) {file : List Char} (origin : Origin)
    (htidy : Tidy file) (htaken : (b.addSource file origin).2 = none) :
    (b.addSource file origin).1.queue = b.queue ++
        ((pieces file).filter fun p => p.place == .types && !p.isBlank).filterMap
          (fun p => (Combinator.read p.text).toOption.map (·, origin)) ∧
      ∀ p ∈ pieces file, p.isBlank = false →
        (∃ d, Combinator.read p.text = .ok d) ∨ Combinator.read p.text = .error .unsupported := by
  have hclean : ∀ item ∈ items file, Addition.isFaulty item = false := by
    simpa [htaken] using isSome_addSource b file origin
  constructor
  · have htake := congrArg Builder.queue (take_eq b (.source file origin))
    rwa [Addition.entries_of_tidy origin htidy hclean] at htake
  · intro p hp hblank
    exact Addition.read_of_tidy htidy hclean hp hblank

/-- Declarations over several lines, sections, comments, and a form that is not modelled. -/
def tidyText : List Char :=
  ("// LAYER 5\na#00000001 = A; // one\n---functions---\nf#00000003 = A;\n---types---\n" ++
    "vector {t:Type} # [ t ] = Vector t;\nb#00000002\n  = B;;\n").toList

theorem tidyText_kept : (empty.addSource tidyText .api).2 = none ∧
    (empty.addSource tidyText .api).1.queue =
      [(⟨⟨[], "a"⟩, 1, [], .plain ⟨⟨[], "A"⟩, false, false⟩, .types⟩, .api),
        (⟨⟨[], "b"⟩, 2, [], .plain ⟨⟨[], "B"⟩, false, false⟩, .types⟩, .api)] ∧
    ∀ p ∈ pieces tidyText, p.isBlank = false →
      (∃ d, Combinator.read p.text = .ok d) ∨ Combinator.read p.text = .error .unsupported := by
  have htidy : Tidy tidyText := by decide +kernel
  have htaken : (empty.addSource tidyText .api).2 = none := by decide +kernel
  obtain ⟨hqueue, hpieces⟩ := addSource_loses_nothing empty .api htidy htaken
  refine ⟨htaken, ?_, hpieces⟩
  rw [hqueue]
  decide +kernel

/-- Two declarations on one line, and one that no semicolon closes. -/
def untidyText : List Char :=
  "a#00000001 = A; b#00000002 = B;\nc#00000003 = C".toList

/-- The source is taken without a fault, and none of the three declarations is queued. -/
theorem untidyText_lost : (empty.addSource untidyText .api).2 = none ∧
    (empty.addSource untidyText .api).1.queue = [] ∧
    (pieces untidyText).map (fun p => (p.place, (Combinator.read p.text).toOption.map (·.id))) =
      [(.types, some 1), (.types, some 2), (.types, some 3)] := by
  decide +kernel

end Builder

end TypeLang
