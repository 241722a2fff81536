import TypeLang.Proofs.Decoder.Acceptance
import TypeLang.Proofs.Schema.Independence

/-!
# The order of independent additions

Reading asks a schema by number and by name only, and a type for whether a tag is among its members.
So alike schemas are read alike: neither the order of constructors nor that of the members of a type
shows in a value, a fault or a cursor.  Compiling asks no more than reading does.

Independent additions build alike schemas in either order, and so may be exchanged.
-/

namespace TypeLang

open Wire

namespace Schema.Alike

variable {s s' : Schema} (h : s.Alike s')

include h

/-! ## Candidates and names -/

lemma admits_eq (choice : Direct.Choice) (c : Constructor) :
    choice.admits s c = choice.admits s' c := by
  cases choice with
  | object => rfl
  | standalone => rfl
  | type name =>
      rcases cases_of_rel (h.typeDef name) with ⟨ht, ht'⟩ | ⟨t, t', ht, ht', -, hperm⟩
      · simp only [Direct.Choice.admits, ht, ht']
      · simp only [Direct.Choice.admits, ht, ht', Option.any_some]
        exact hperm.contains_eq

lemma candidate?_eq (choice : Direct.Choice) (tag : UInt32) :
    choice.candidate? s tag = choice.candidate? s' tag := by
  unfold Direct.Choice.candidate?
  rw [h.byId, show choice.admits s = choice.admits s' from funext (h.admits_eq choice)]

lemma isKnown_eq (r : TypeRef) : Direct.isKnown s r = Direct.isKnown s' r := by
  unfold Direct.isKnown
  rw [h.bare?_eq, h.isSome_typeDef?_eq]

/-! ## Compiling -/

lemma obstructed {c : Constructor} {names : List String} {fs : List Field} {fault : Fault}
    (hs : Plan.Obstructed s c names fs fault) : Plan.Obstructed s' c names fs fault := by
  induction hs with
  | type hkind hunknown => exact .type hkind (by rwa [← h.isKnown_eq])
  | gate hgate hword => exact .gate hgate hword
  | words hkind hfull => exact .words hkind hfull
  | later _ ih => exact .later ih

lemma faulty {fault : Fault} (hs : Plan.Faulty s fault) : Plan.Faulty s' fault := by
  obtain ⟨c, hc, hobstructed⟩ := hs
  exact ⟨c, h.constructors.mem_iff.1 hc, h.obstructed hobstructed⟩

/-! ## Reading -/

section

variable (boxed : Direct.Choice → Reader Value) (bare : Constructor → Reader Value)

lemma named_eq (r : TypeRef) : Direct.named s boxed bare r = Direct.named s' boxed bare r := by
  unfold Direct.named
  rw [h.bare?_eq]

lemma valueWith_eq (vector : Bool → TypeExpr → Reader (List Value)) (e : TypeExpr) :
    Direct.valueWith s boxed bare vector e = Direct.valueWith s' boxed bare vector e := by
  cases e with
  | named r => exact h.named_eq boxed bare r
  | vector boxedVector elem => rfl

lemma announced_eq (maxInflated : ℕ) (choice : Direct.Choice) (again : Reader Value) :
    Direct.announced s maxInflated choice bare again =
      Direct.announced s' maxInflated choice bare again := by
  unfold Direct.announced
  simp only [h.candidate?_eq]

end

/-- At every level, by induction on the levels that are left. -/
lemma levels_eq (limits : Limits) (levels : ℕ) :
    Direct.boxed s limits levels = Direct.boxed s' limits levels ∧
      Direct.bare s limits levels = Direct.bare s' limits levels ∧
        Direct.vector s limits levels = Direct.vector s' limits levels := by
  induction levels with
  | zero => exact ⟨rfl, rfl, rfl⟩
  | succ levels ih =>
      obtain ⟨hboxed, hbare, hvector⟩ := ih
      refine ⟨funext fun choice => ?_, funext fun c => ?_, funext₂ fun boxedVector elem => ?_⟩
      · simp only [Direct.boxed, hboxed, hbare, h.announced_eq]
      · simp only [Direct.bare, hboxed, hbare, hvector]
        congr 1
        exact funext fun e => h.valueWith_eq _ _ _ e
      · simp only [Direct.vector, hboxed, hbare, hvector, h.valueWith_eq]

lemma readObject_eq (limits : Limits) : Direct.readObject s limits = Direct.readObject s' limits :=
  congrFun (h.levels_eq limits _).1 .standalone

lemma readType_eq (limits : Limits) (type : String) :
    Direct.readType s limits type = Direct.readType s' limits type := by
  obtain ⟨hboxed, hbare, hvector⟩ := h.levels_eq limits limits.maxDepth
  unfold Direct.readType
  cases TypeExpr.read type.toList with
  | error fault => rfl
  | ok e => simp only [Direct.value, hboxed, hbare, hvector, h.isKnown_eq, h.valueWith_eq]

end Schema.Alike

/-! ## Decoders -/

/-- Whichever of the two schemas a decoder is made of, it reads the same. -/
structure Decoder.Interchangeable (s s' : Schema) : Prop where
  accepted : ∀ limits, (∃ d, ofSchema s limits = .ok d) ↔ ∃ d', ofSchema s' limits = .ok d'
  answer : ∀ {limits d d'}, ofSchema s limits = .ok d → ofSchema s' limits = .ok d' →
    ∀ request c, d.answer request c = d'.answer request c

namespace Decoder

variable {s s' : Schema} {b b' : Builder} {limits : Limits}

lemma exists_ofSchema_iff :
    (∃ d, ofSchema s limits = .ok d) ↔ ∃ p, Plan.compile s = .ok p := by
  constructor
  · rintro ⟨d, hd⟩
    obtain ⟨p, hp, -⟩ := ofSchema_eq_ok hd
    exact ⟨p, hp⟩
  · rintro ⟨p, hp⟩
    exact ⟨_, ofSchema_of_compile hp limits⟩

lemma accepted_of_alike (h : s.Alike s') (hb : b.build = .ok s) (hb' : b'.build = .ok s') :
    (∃ d, ofSchema s limits = .ok d) ↔ ∃ d', ofSchema s' limits = .ok d' := by
  rw [exists_ofSchema_iff, exists_ofSchema_iff,
    Plan.exists_compile_iff (Schema.hasDistinctIds_of_build hb),
    Plan.exists_compile_iff (Schema.hasDistinctIds_of_build hb')]
  constructor
  · intro hnone fault hfaulty
    exact hnone fault (h.symm.faulty hfaulty)
  · intro hnone fault hfaulty
    exact hnone fault (h.faulty hfaulty)

lemma interchangeable_of_alike (h : s.Alike s') (hb : b.build = .ok s) (hb' : b'.build = .ok s') :
    Interchangeable s s' where
  accepted _ := accepted_of_alike h hb hb'
  answer {limits d d'} hd hd' request c := by
    obtain ⟨hobject, htype⟩ := eq_direct_of_build hb hd
    obtain ⟨hobject', htype'⟩ := eq_direct_of_build hb' hd'
    cases request with
    | object =>
        show d.readObject c = d'.readObject c
        rw [hobject, hobject', h.readObject_eq]
    | type text =>
        show d.readType text c = d'.readType text c
        rw [htype, htype', h.readType_eq]

end Decoder

/-- **Independent additions may be exchanged.**  One order builds exactly when the other does, and
then to schemas that answer every question alike and are read alike. -/
theorem Builder.exchange_independent {first second : List Addition}
    (h : Independent first second) :
    ((∃ s, (given (first ++ second)).build = .ok s) ↔
        ∃ s', (given (second ++ first)).build = .ok s') ∧
      ∀ {s s'}, (given (first ++ second)).build = .ok s →
        (given (second ++ first)).build = .ok s' →
          s.Alike s' ∧ s.constructors.length = s'.constructors.length ∧
            Decoder.Interchangeable s s' := by
  refine ⟨⟨?forth, ?back⟩, ?alike⟩
  case forth =>
    rintro ⟨s, hs⟩
    obtain ⟨s', hs', -⟩ := exists_build_swapped h hs
    exact ⟨s', hs'⟩
  case back =>
    rintro ⟨s', hs'⟩
    obtain ⟨s, hs, -⟩ := exists_build_swapped h.symm hs'
    exact ⟨s, hs⟩
  case alike =>
    intro s s' hs hs'
    obtain ⟨t, ht, halike⟩ := exists_build_swapped h hs
    obtain rfl : t = s' := Except.ok.inj (ht.symm.trans hs')
    exact ⟨halike, halike.constructors.length_eq, Decoder.interchangeable_of_alike halike hs hs'⟩

/-! ### Two sources that extend one type -/

namespace Builder

/-- A source of plain texts. -/
def plainTexts : List Addition :=
  [.source "// LAYER 3\ntextPlain#744694e0 text:string = RichText;".toList .mtproto]

/-- A source of texts around others. -/
def boldTexts : List Addition :=
  [.source "// LAYER 5\ntextBold#6724abc4 text:RichText = RichText;".toList .api]

lemma exists_texts : ∃ s s' d d', (given (plainTexts ++ boldTexts)).build = .ok s ∧
    (given (boldTexts ++ plainTexts)).build = .ok s' ∧
      s.typeDef? "RichText" = some ⟨"RichText", [0x744694E0, 0x6724ABC4]⟩ ∧
        s'.typeDef? "RichText" = some ⟨"RichText", [0x6724ABC4, 0x744694E0]⟩ ∧
          Decoder.ofSchema s {} = .ok d ∧ Decoder.ofSchema s' {} = .ok d' := by
  have hforth : ((given (plainTexts ++ boldTexts)).build.toOption.bind fun s =>
      (Decoder.ofSchema s {}).toOption.map fun _ => s.typeDef? "RichText") =
        some (some ⟨"RichText", [0x744694E0, 0x6724ABC4]⟩) := by
    decide +kernel
  have hback : ((given (boldTexts ++ plainTexts)).build.toOption.bind fun s =>
      (Decoder.ofSchema s {}).toOption.map fun _ => s.typeDef? "RichText") =
        some (some ⟨"RichText", [0x6724ABC4, 0x744694E0]⟩) := by
    decide +kernel
  obtain ⟨s, hs, hd⟩ := Option.bind_eq_some_iff.1 hforth
  obtain ⟨d, hd, htype⟩ := Option.map_eq_some_iff.1 hd
  obtain ⟨s', hs', hd'⟩ := Option.bind_eq_some_iff.1 hback
  obtain ⟨d', hd', htype'⟩ := Option.map_eq_some_iff.1 hd'
  exact ⟨s, s', d, d', eq_ok_of_toOption hs, eq_ok_of_toOption hs', htype, htype',
    eq_ok_of_toOption hd, eq_ok_of_toOption hd'⟩

theorem texts_exchanged : ∃ s s' d d', (given (plainTexts ++ boldTexts)).build = .ok s ∧
    (given (boldTexts ++ plainTexts)).build = .ok s' ∧
      s.layer = s'.layer ∧ (s.typeDef? "RichText").isSome ∧
        s.typeDef? "RichText" ≠ s'.typeDef? "RichText" ∧
          Decoder.ofSchema s {} = .ok d ∧ Decoder.ofSchema s' {} = .ok d' ∧
            ∀ request c, d.answer request c = d'.answer request c := by
  obtain ⟨s, s', d, d', hs, hs', htype, htype', hd, hd'⟩ := exists_texts
  have hindependent : Independent plainTexts boldTexts := by decide +kernel
  obtain ⟨halike, -, hinterchangeable⟩ := (exchange_independent hindependent).2 hs hs'
  refine ⟨s, s', d, d', hs, hs', halike.layer, by simp [htype], ?_, hd, hd',
    hinterchangeable.answer hd hd'⟩
  rw [htype, htype']
  decide

end Builder

end TypeLang
