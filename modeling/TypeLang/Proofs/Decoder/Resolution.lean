import TypeLang.Proofs.Decoder.Acceptance
import TypeLang.Proofs.Schema.Indexes
import TypeLang.Proofs.Schema.Queue

/-!
# References that pass and references that resolve

A schema is built only if every reference of its fields passes a check, and a step is made of a
reference only if it resolves.  The two go by one order, from the built-in names over predicates to
types, but each has a table of built-in names of its own.  The names `true`, `True` and `Type` stand
in the table of the check alone: no value is read by them, unless the schema gives them a meaning
like to any other name.  A reference that passes by its name and means nothing is *hollow*.

A hollow reference is the only difference: in a schema that was built all others resolve exactly if
they pass.  So an unknown type is found by the compiler only where a field makes a hollow reference.
-/

namespace TypeLang

open Wire

/-! ## Names without a value -/

namespace TypeRef

/-- The built-in names that no value is read by. -/
def valueless : List String :=
  ["true", "True", "Type"]

/-- What the table of the check holds beyond the names that values are read by. -/
lemma mem_builtins_iff {name : String} : name ∈ builtins ↔
    (Direct.primitive? name).isSome ∨ name = Plan.objectName ∨ name ∈ valueless := by
  constructor
  · intro h
    fin_cases h <;> decide
  · rintro (hprimitive | rfl | hvalueless)
    · unfold Direct.primitive? at hprimitive
      split at hprimitive <;> first | decide | cases hprimitive
    · decide
    · fin_cases hvalueless <;> decide

end TypeRef

/-! ## Passing -/

namespace Schema

variable {s : Schema} {r : TypeRef}

/-- A reference that passes by a built-in name, and that the schema has no meaning for. -/
def Hollow (s : Schema) (r : TypeRef) : Prop :=
  r.name ∈ TypeRef.valueless ∧ Direct.isKnown s r = false

/-- The references that the fields of a schema make. -/
def references (s : Schema) : List TypeRef :=
  s.constructors.flatMap fun c => c.fields.filterMap fun f =>
    match f.kind with
    | .value type => some type.leaf
    | _ => none

lemma mem_references : r ∈ s.references ↔
    ∃ c ∈ s.constructors, ∃ f ∈ c.fields, ∃ type, f.kind = .value type ∧ type.leaf = r := by
  simp only [references, List.mem_flatMap, List.mem_filterMap]
  refine exists_congr fun c => and_congr_right fun _ => exists_congr fun f =>
    and_congr_right fun _ => ?_
  cases f.kind <;> simp

/-- A bare name means the holder of the predicate, or else the only member of a type: the member
that a type lists is always there. -/
lemma isSome_bare?_iff (hs : s.Indexed) {name : String} : (s.bare? name).isSome ↔
    (s.byPredicate? name).isSome ∨ ∃ t, s.typeDef? name = some t ∧ t.members.length = 1 := by
  unfold bare?
  cases hheld : s.byPredicate? name with
  | some c => simp
  | none =>
      simp only [Option.isSome_none, Bool.false_eq_true, false_or]
      cases ht : s.typeDef? name with
      | none => simp
      | some t =>
          obtain ⟨title, members⟩ := t
          match members with
          | [] => simp
          | [only] =>
              have hlisted : only ∈ s.idsOf name := by simp [idsOf, ht]
              obtain ⟨c, hc, -⟩ := hs.member.1 hlisted
              simp [hc]
          | _ :: _ :: _ => simp

/-- A built-in reference is known, unless it is hollow. -/
lemma isKnown_or_hollow_of_isBuiltin (h : r.isBuiltin = true) :
    Direct.isKnown s r = true ∨ s.Hollow r := by
  by_cases hknown : Direct.isKnown s r = true
  · exact .inl hknown
  · refine .inr ⟨?_, by simpa using hknown⟩
    simp only [Direct.isKnown, Bool.or_eq_true, not_or, beq_iff_eq] at hknown
    obtain ⟨⟨⟨hgeneric, hprimitive⟩, hobject⟩, -⟩ := hknown
    simp only [TypeRef.isBuiltin, hgeneric, Bool.false_or, List.contains_iff_mem] at h
    exact ((TypeRef.mem_builtins_iff.1 h).resolve_left hprimitive).resolve_left hobject

/-- What passes is known or hollow, whatever field makes the reference. -/
lemma refFault?_eq_none_iff (hs : s.Indexed) {predicate field : String} :
    s.refFault? predicate field r = none ↔ Direct.isKnown s r = true ∨ s.Hollow r := by
  by_cases hbuiltin : r.isBuiltin = true
  · refine iff_of_true ?_ (isKnown_or_hollow_of_isBuiltin hbuiltin)
    rw [refFault?, if_pos hbuiltin]
  · have hname := hbuiltin
    simp only [TypeRef.isBuiltin, Bool.or_eq_true, List.contains_iff_mem,
      TypeRef.mem_builtins_iff, not_or] at hname
    obtain ⟨hgeneric, hprimitive, hobject, hvalueless⟩ := hname
    have hnot : ¬s.Hollow r := fun hhollow => hvalueless hhollow.1
    simp only [refFault?, hbuiltin, or_iff_left hnot, Direct.isKnown, hgeneric, hprimitive,
      beq_false_of_ne hobject, Bool.or_self, Bool.false_or, Bool.false_eq_true, if_false]
    by_cases hbare : r.bare = true
    · simp only [hbare, if_true, isSome_bare?_iff hs]
      cases s.byPredicate? r.name with
      | some c => simp
      | none => cases s.typeDef? r.name <;> simp
    · simp only [hbare, Bool.false_eq_true, if_false]
      cases s.typeDef? r.name <;> simp

/-- The references of a schema that was built have passed. -/
lemma isKnown_or_hollow_of_references {b : Builder} (hb : b.build = .ok s) (hr : r ∈ s.references) :
    Direct.isKnown s r = true ∨ s.Hollow r := by
  obtain ⟨cs, -, hfault, rfl⟩ := Builder.build_eq_ok.1 hb
  obtain ⟨c, hc, f, hf, type, hkind, rfl⟩ := mem_references.1 hr
  have hfields := List.findSome?_eq_none_iff.1 hfault c hc
  have hpasses := List.findSome?_eq_none_iff.1 hfields f hf
  rw [fieldFault?, hkind] at hpasses
  exact (refFault?_eq_none_iff (indexed_laid b.layer cs)).1 hpasses

end Schema

/-! ## Resolving -/

namespace Plan

variable {s : Schema} {e : TypeExpr}

/-- A type expression has a step, by the finished plan of the schema and on the way to it, unless
one of the constructors that are met on the way is at fault. -/
structure Resolves (s : Schema) (e : TypeExpr) : Prop where
  found : ∀ {p}, compile s = .ok p → ∃ step, exprStep (found s p) e = .ok step
  made : ∀ {bound} (draft : Draft s bound),
    (∃ step draft', exprStep (making s bound) e draft = .ok (step, draft')) ∨
      ∃ fault, exprStep (making s bound) e draft = .error fault ∧ Faulty s fault

/-- A type expression is an unknown type, by the finished plan of the schema and on the way to
it. -/
structure Rejects (s : Schema) (e : TypeExpr) : Prop where
  found : ∀ {p}, compile s = .ok p →
    exprStep (found s p) e = .error (.unknownType e.leaf.name)
  made : ∀ {bound} (draft : Draft s bound),
    exprStep (making s bound) e draft = .error (.unknownType e.leaf.name)

lemma resolves_of_isKnown (hs : s.HasDistinctIds) (h : Direct.isKnown s e.leaf = true) :
    Resolves s e where
  found hp := (Decoder.exprStep_found (finished_of_compile hs hp) e).1 h
  made {bound} draft := by
    cases hrun : exprStep (making s bound) e draft with
    | ok made => exact .inl ⟨made.1, made.2, rfl⟩
    | error fault =>
        have honly : FailsOnly (Faulty s) (exprStep (making s bound) e) :=
          failsOnly_exprStep (numbersFailOnly_making s bound) fun hunknown => by simp_all
        exact .inr ⟨fault, rfl, honly.of_run hrun⟩

/-- While a plan is made, a reference without a meaning is reported at once. -/
lemma refStep_making_of_unknown {r : TypeRef} (h : Direct.isKnown s r = false) {bound : ℕ}
    (draft : Draft s bound) :
    refStep (making s bound) r draft = .error (.unknownType r.name) := by
  simp only [Direct.isKnown, Bool.or_eq_false_iff, beq_eq_false_iff_ne] at h
  obtain ⟨⟨⟨hgeneric, hprimitive⟩, hobject⟩, hmeaning⟩ := h
  have hbuiltin : builtinStep? r.name = none := by
    by_contra hsome
    obtain ⟨step, hstep⟩ := Option.ne_none_iff_exists'.1 hsome
    rcases Decoder.builtinStep?_eq_some hstep (fun _ => .fail (.unknownType ""))
      (fun _ _ => .fail (.unknownType "")) with ⟨hname, -⟩ | hread
    · exact hobject hname
    · simp [hread] at hprimitive
  simp only [refStep, hgeneric, hbuiltin, Bool.false_eq_true, if_false]
  cases bound with
  | zero => exact absurd draft.property (Nat.not_lt_zero _)
  | succ bound =>
      by_cases hbare : r.bare = true
      · simp only [hbare, if_true, ← Schema.map_val_bareMember?, Option.isSome_map,
          Option.isSome_eq_false_iff, Option.isNone_iff_eq_none] at hmeaning
        simp only [hbare, hmeaning, if_true]
        rfl
      · simp only [hbare, Bool.false_eq_true, if_false, Option.isSome_eq_false_iff,
          Option.isNone_iff_eq_none] at hmeaning
        simp only [hbare, Bool.false_eq_true, if_false, making, hobject]
        split
        case h_1 t ht => simp [hmeaning] at ht
        case h_2 => rfl

lemma exprStep_making_of_unknown (h : Direct.isKnown s e.leaf = false) {bound : ℕ}
    (draft : Draft s bound) :
    exprStep (making s bound) e draft = .error (.unknownType e.leaf.name) := by
  induction e with
  | named r => exact refStep_making_of_unknown h draft
  | vector boxed elem ih =>
      show (exprStep (making s bound) elem draft >>= _) = _
      rw [ih h]
      rfl

lemma rejects_of_unknown (hs : s.HasDistinctIds) (h : Direct.isKnown s e.leaf = false) :
    Rejects s e where
  found hp := (Decoder.exprStep_found (finished_of_compile hs hp) e).2 h
  made := exprStep_making_of_unknown h

/-! ## Unknown types of fields -/

lemma obstructed_of_mem {c : Constructor} {f : Field} {type : TypeExpr}
    (hkind : f.kind = .value type) (hunknown : Direct.isKnown s type.leaf = false)
    {names : List String} {fs : List Field} (hf : f ∈ fs) :
    Obstructed s c names fs (.unknownType type.leaf.name) := by
  induction fs generalizing names with
  | nil => cases hf
  | cons g rest ih =>
      rcases List.mem_cons.1 hf with rfl | hlater
      · exact .type hkind hunknown
      · exact .later (ih hlater)

lemma exists_of_obstructed {c : Constructor} {names : List String} {fs : List Field}
    {name : String} (h : Obstructed s c names fs (.unknownType name)) :
    ∃ f ∈ fs, ∃ type, f.kind = .value type ∧ Direct.isKnown s type.leaf = false ∧
      type.leaf.name = name := by
  generalize hfault : Fault.unknownType name = fault at h
  induction h with
  | @type names f rest type hkind hunknown =>
      cases hfault
      exact ⟨f, List.mem_cons_self .., type, hkind, hunknown, rfl⟩
  | gate => cases hfault
  | words => cases hfault
  | later _ ih =>
      obtain ⟨f, hf, htype⟩ := ih hfault
      exact ⟨f, List.mem_cons_of_mem _ hf, htype⟩

/-- A constructor is at fault for an unknown type exactly if it refers to one. -/
lemma faulty_unknownType_iff {name : String} : Faulty s (.unknownType name) ↔
    ∃ r ∈ s.references, Direct.isKnown s r = false ∧ r.name = name := by
  constructor
  · rintro ⟨c, hc, hobstructed⟩
    obtain ⟨f, hf, type, hkind, hunknown, hname⟩ := exists_of_obstructed hobstructed
    have hr := Schema.mem_references.2 ⟨c, hc, f, hf, type, hkind, rfl⟩
    exact ⟨type.leaf, hr, hunknown, hname⟩
  · rintro ⟨r, hr, hunknown, rfl⟩
    obtain ⟨c, hc, f, hf, type, hkind, rfl⟩ := Schema.mem_references.1 hr
    exact ⟨c, hc, obstructed_of_mem hkind hunknown hf⟩

end Plan

/-! ## Passing and resolving -/

open Plan

variable {s : Schema}

/-- How the check of references and their resolution compare in a schema. -/
structure Schema.ResolvesAsChecked (s : Schema) : Prop where
  resolves : ∀ {e predicate field}, s.refFault? predicate field e.leaf = none →
    ¬s.Hollow e.leaf → Plan.Resolves s e
  rejects : ∀ {e predicate field},
    s.refFault? predicate field e.leaf ≠ none ∨ s.Hollow e.leaf → Plan.Rejects s e
  /-- Only a hollow reference makes a constructor refer to an unknown type, -/
  faulty : ∀ {name}, Faulty s (.unknownType name) ↔ ∃ r ∈ s.references, s.Hollow r ∧ r.name = name
  /-- and so keeps the schema from being compiled. -/
  compile : ∀ {name}, Plan.compile s = .error (.unknownType name) →
    ∃ r ∈ s.references, s.Hollow r ∧ r.name = name
  /-- A type that a decoder reads by its text would have passed in any field. -/
  asked : ∀ {limits d text step}, Decoder.ofSchema s limits = .ok d →
    Decoder.stepOf d text = .ok step →
      ∃ e, TypeExpr.read text.toList = .ok e ∧ ∀ predicate field,
        s.refFault? predicate field e.leaf = none

/-- **References resolve as they are checked, unless they are hollow.** -/
theorem Schema.resolvesAsChecked_of_build {b : Builder} (hb : b.build = .ok s) :
    s.ResolvesAsChecked := by
  have hs := hasDistinctIds_of_build hb
  have hpasses : ∀ {r predicate field},
      s.refFault? predicate field r = none ↔ Direct.isKnown s r = true ∨ s.Hollow r := by
    obtain ⟨cs, -, -, rfl⟩ := Builder.build_eq_ok.1 hb
    exact refFault?_eq_none_iff (indexed_laid b.layer cs)
  have hfaulty : ∀ {name}, Faulty s (.unknownType name) ↔
      ∃ r ∈ s.references, s.Hollow r ∧ r.name = name := by
    intro name
    rw [faulty_unknownType_iff]
    refine exists_congr fun r => and_congr_right fun hr => and_congr_left fun _ => ?_
    refine ⟨fun hunknown => ?_, And.right⟩
    exact (isKnown_or_hollow_of_references hb hr).resolve_left (by simp [hunknown])
  constructor
  case resolves =>
    intro e predicate field hpass hfull
    exact resolves_of_isKnown hs ((hpasses.1 hpass).resolve_right hfull)
  case rejects =>
    intro e predicate field hreason
    refine rejects_of_unknown hs ?_
    rcases hreason with hfails | hhollow
    · rw [ne_eq, hpasses, not_or] at hfails
      simpa using hfails.1
    · exact hhollow.2
  case faulty => exact hfaulty
  case compile => exact fun hcompile => hfaulty.1 (faulty_of_compile hcompile)
  case asked =>
    intro limits d text step hd hstep
    obtain ⟨p, hp, rfl⟩ := Decoder.ofSchema_eq_ok hd
    unfold Decoder.stepOf at hstep
    cases hread : TypeExpr.read text.toList with
    | error fault => simp [hread] at hstep
    | ok e =>
        refine ⟨e, rfl, fun predicate field => hpasses.2 (.inl ?_)⟩
        by_contra hunknown
        simp only [hread, (rejects_of_unknown hs (by simpa using hunknown)).found hp] at hstep
        cases hstep

/-! ### A field of a type that no value has -/

namespace Schema

/-- A field that is always there and is not written as a mere presence. -/
def hollowMark : Builder :=
  Builder.given [.source "a#00000001 x:True = A;".toList .api]

/-- The reference of that field. -/
def markRef : TypeRef :=
  ⟨"True", false, false⟩

lemma exists_hollowMark : ∃ s, hollowMark.build = .ok s ∧
    s.constructors = [⟨"a", 1, "A", [⟨"x", .value (.named markRef), none⟩], true⟩] ∧
      s.refFault? "a" "x" markRef = none ∧ Direct.isKnown s markRef = false ∧
        s.refFault? "a" "x" ⟨"A", false, false⟩ = none ∧
          compile s = .error (.unknownType "True") := by
  have hparts : (hollowMark.build.toOption.map fun s =>
      (s.constructors, s.refFault? "a" "x" markRef, Direct.isKnown s markRef,
        s.refFault? "a" "x" ⟨"A", false, false⟩,
          match compile s with
          | .ok _ => none
          | .error fault => some fault)) =
            some ([⟨"a", 1, "A", [⟨"x", .value (.named markRef), none⟩], true⟩], none, false, none,
              some (.unknownType "True")) := by
    decide +kernel
  obtain ⟨s, hs, hparts⟩ := Option.map_eq_some_iff.1 hparts
  simp only [Prod.mk.injEq] at hparts
  obtain ⟨hconstructors, hpass, hunknown, hother, hcompile⟩ := hparts
  refine ⟨s, eq_ok_of_toOption hs, hconstructors, hpass, hunknown, hother, ?_⟩
  cases hrun : compile s with
  | ok p => simp [hrun] at hcompile
  | error fault => simpa [hrun] using hcompile

theorem hollowMark_resolvesAsChecked : ∃ s, hollowMark.build = .ok s ∧
    Plan.Rejects s (.vector true (.named markRef)) ∧
      Plan.Resolves s (.vector true (.named ⟨"A", false, false⟩)) := by
  obtain ⟨s, hs, -, hpass, hunknown, hother, -⟩ := exists_hollowMark
  have hhollow : s.refFault? "a" "x" markRef ≠ none ∨ s.Hollow markRef :=
    .inr ⟨by decide, hunknown⟩
  have hfull : ¬s.Hollow ⟨"A", false, false⟩ := fun h => absurd h.1 (by decide)
  exact ⟨s, hs, (resolvesAsChecked_of_build hs).rejects hhollow,
    (resolvesAsChecked_of_build hs).resolves hother hfull⟩

/-- The reference of the field passes, and then keeps its schema from being compiled. -/
theorem hollowMark_passes_unresolved : ∃ s, hollowMark.build = .ok s ∧
    markRef ∈ s.references ∧ s.refFault? "a" "x" markRef = none ∧
      compile s = .error (.unknownType "True") := by
  obtain ⟨s, hs, hconstructors, hpass, -, -, hcompile⟩ := exists_hollowMark
  have hrefers : markRef ∈ s.references := by simp [references, hconstructors, TypeExpr.leaf]
  exact ⟨s, hs, hrefers, hpass, hcompile⟩

end Schema

end TypeLang
