import TypeLang.Decoder.Direct
import TypeLang.Proofs.Decoder.Congruence

/-!
# Relations that go through a reading by the schema

Reading by the schema is put together from the same parts as reading by a plan, in ways of its own.
A relation that holds of the parts goes through it as well, with no plan at hand and also where the
schema refers to types that it does not have.

Fields are taken one by one here: a field gives what is shown of it and the flag words up to it.
-/

namespace TypeLang

open Wire

namespace Direct

/-! ## Field by field -/

section

variable (minRandom : ℕ) (value : TypeExpr → Reader Value) (c : Constructor)

/-- Reads one field behind some words: what is shown of it, and the words up to it. -/
def field (f : Field) (words : Words) : Reader (List (String × Value) × Words) :=
  if isOpen words f then
    match f.kind with
    | .flagWord => do
      let word ← Reader.uint32
      return ([], words ++ [(f.name, word)])
    | .presence => return ([(f.name, .bool true)], words)
    | .value type => do
      let kept? ← shown minRandom value c f.name type
      return (kept?.toList, words)
  else
    match f.kind with
    | .flagWord => return ([], words ++ [(f.name, 0)])
    | _ => return ([], words)

lemma fields_cons (f : Field) (rest : List Field) (words : Words) :
    fields minRandom value c (f :: rest) words = do
      let (kept, words) ← field minRandom value c f words
      return kept ++ (← fields minRandom value c rest words) := by
  rw [fields, field]
  split_ifs with hopen
  · cases f.kind with
    | flagWord => simp
    | presence => simp
    | value type => simp
  · cases f.kind <;> simp

end

end Direct

/-! ## Relations -/

namespace Compositional

variable {R : ∀ ⦃α : Type⦄, Reader α → Reader α → Prop} {limits limits' : Limits}
  (h : Compositional R limits limits')

include h

/-! ## Named types and values -/

lemma directPrimitive {name : String} {read : Reader Value}
    (hread : Direct.primitive? name = some read) : R read read := by
  unfold Direct.primitive? at hread
  split at hread <;> cases hread
  · exact h.bind_pure (h.primitive .int32) _
  · exact h.bind_pure (h.primitive .int32) _
  · exact h.bind_pure (h.primitive .int64) _
  · exact h.bind_pure (h.primitive .double) _
  · exact h.bind_pure (h.primitive .bool) _
  · exact h.bind_pure (h.primitive .string) _
  · exact h.bind_pure (h.primitive .bytes) _
  all_goals exact h.bind_pure (h.primitive (.take _)) _

section

variable (s : Schema) {boxed boxed' : Direct.Choice → Reader Value}
  (hboxed : ∀ choice, R (boxed choice) (boxed' choice))
  {bare bare' : Constructor → Reader Value} (hbare : ∀ c, R (bare c) (bare' c))

include hboxed hbare

lemma directNamed (r : TypeRef) :
    R (Direct.named s boxed bare r) (Direct.named s boxed' bare' r) := by
  unfold Direct.named
  refine ite (hboxed _) ?_
  cases hprimitive : Direct.primitive? r.name with
  | some read => exact h.directPrimitive hprimitive
  | none =>
      refine ite (hboxed _) (ite ?_ (hboxed _))
      cases s.bare? r.name with
      | some c => exact hbare c
      | none => exact h.primitive (.fail _)

lemma directValue {vector vector' : Bool → TypeExpr → Reader (List Value)}
    (hvector : ∀ b elem, R (vector b elem) (vector' b elem)) (e : TypeExpr) :
    R (Direct.valueWith s boxed bare vector e) (Direct.valueWith s boxed' bare' vector' e) := by
  cases e with
  | named r => exact h.directNamed s hboxed hbare r
  | vector b elem =>
      unfold Direct.valueWith
      exact ite (h.bind (hvector b elem) fun _ => h.ofExcept _) (h.bind_pure (hvector b elem) _)

omit hboxed in
lemma directAnnounced {again again' : Reader Value} (hagain : R again again')
    (choice : Direct.Choice) :
    R (Direct.announced s limits.maxInflated choice bare again)
      (Direct.announced s limits'.maxInflated choice bare' again') := by
  refine h.bind (h.primitive .uint32) fun tag => ite ?_ ?_
  · exact h.bind h.opened fun octets => h.within octets hagain
  · cases choice.candidate? s tag with
    | some c => exact hbare c
    | none => exact h.primitive (.unknownTag _)

end

/-! ## Fields and constructors -/

section

variable {value value' : TypeExpr → Reader Value} (hvalue : ∀ e, R (value e) (value' e))
  (c : Constructor)

include hvalue

lemma directShown (name : String) (type : TypeExpr) :
    R (Direct.shown limits.minRandom value c name type)
      (Direct.shown limits'.minRandom value' c name type) := by
  refine ite (h.bind_pure h.randomBytes _) (ite ?_ (ite ?_ (h.bind_pure (hvalue type) _)))
  · exact h.bind (h.primitive .bytes) fun _ => h.primitive (.pure _)
  · exact h.bind (h.primitive .bytes) fun _ => h.primitive (.pure _)

lemma directField (f : Field) (words : Direct.Words) :
    R (Direct.field limits.minRandom value c f words)
      (Direct.field limits'.minRandom value' c f words) := by
  unfold Direct.field
  refine ite ?_ ?_
  · cases f.kind with
    | flagWord => exact h.bind_pure (h.primitive .uint32) _
    | presence => exact h.primitive (.pure _)
    | value type => exact h.bind_pure (h.directShown hvalue c f.name type) _
  · cases f.kind <;> exact h.primitive (.pure _)

lemma directFields (fs : List Field) (words : Direct.Words) :
    R (Direct.fields limits.minRandom value c fs words)
      (Direct.fields limits'.minRandom value' c fs words) := by
  induction fs generalizing words with
  | nil => exact h.primitive (.pure _)
  | cons f rest ih =>
      rw [Direct.fields_cons, Direct.fields_cons]
      exact h.bind (h.directField hvalue c f words) fun _ => h.bind_pure (ih _) _

lemma directConstruct : R (Direct.construct limits.minRandom value c)
    (Direct.construct limits'.minRandom value' c) :=
  h.bind (h.directFields hvalue c c.fields []) fun _ => h.ofExcept _

end

end Compositional

/-! ## Levels -/

namespace Congruence

variable {R : ∀ ⦃α : Type⦄, Reader α → Reader α → Prop} {limits limits' : Limits}
  (h : Congruence R limits limits')

include h

/-- By induction on the levels of the first reading, each of which the second one has too. -/
lemma directLevels (s : Schema) {levels levels' : ℕ} (hle : levels ≤ levels') :
    (∀ choice, R (Direct.boxed s limits levels choice) (Direct.boxed s limits' levels' choice)) ∧
      (∀ c, R (Direct.bare s limits levels c) (Direct.bare s limits' levels' c)) ∧
        ∀ b elem, R (Direct.vector s limits levels b elem)
          (Direct.vector s limits' levels' b elem) := by
  induction levels generalizing levels' with
  | zero => exact ⟨fun _ => h.tooDeep _, fun _ => h.tooDeep _, fun _ _ => h.tooDeep _⟩
  | succ levels ih =>
      obtain ⟨more, rfl⟩ : ∃ more, levels' = more + 1 :=
        Nat.exists_eq_succ_of_ne_zero (Nat.ne_zero_of_lt hle)
      obtain ⟨hboxed, hbare, hvector⟩ := ih (Nat.le_of_succ_le_succ hle)
      have hvalue := h.directValue s hboxed hbare hvector
      refine ⟨fun choice => ?_, fun c => ?_, fun b elem => ?_⟩
      · unfold Direct.boxed
        exact h.directAnnounced s hbare (hboxed choice) choice
      · unfold Direct.bare
        exact h.directConstruct hvalue c
      · unfold Direct.vector Direct.vectorOf
        exact Compositional.ite (h.boxedVector (hvalue elem)) (h.bareVector (hvalue elem))

/-- A value is read alike, up to the relation, on as many levels or more. -/
lemma directValueOn (s : Schema) {levels levels' : ℕ} (hle : levels ≤ levels') (e : TypeExpr) :
    R (Direct.value s limits levels e) (Direct.value s limits' levels' e) := by
  obtain ⟨hboxed, hbare, hvector⟩ := h.directLevels s hle
  exact h.directValue s hboxed hbare hvector e

end Congruence

end TypeLang
