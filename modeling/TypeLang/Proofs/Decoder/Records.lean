import TypeLang.Json.Text
import TypeLang.Proofs.Decoder.Enclosing
import TypeLang.Proofs.Decoder.Soundness
import TypeLang.Proofs.Value.Lookup

/-!
# Records in what is read

Every record that stands anywhere in a value that has been read is one of a constructor of the
schema, with names that the constructor shows, in their order.  A schema may give several fields of
a constructor one name, and nothing on the way to the record makes its names different.  So what is
found in a record by name is what its JSON shows under that key where the constructor shows the name
once; otherwise the first field is found and the last one shown.
-/

namespace TypeLang.Direct

open Wire

variable {s : Schema} {limits : Limits}

/-! ## Constructors of records -/

/-- The names that a constructor shows when all its fields are there. -/
def shownNames (c : Constructor) : List String :=
  (c.fields.filter isShown).map (shownName c)

/-- A record of a constructor with these names. -/
def IsOf (c : Constructor) (predicate : String) (fields : List (String × Value)) : Prop :=
  c.predicate = predicate ∧ (fields.map (·.1)).Sublist (shownNames c)

/-- Each record in a value is one of a constructor of the schema. -/
def Described (s : Schema) (v : Value) : Prop :=
  ∀ predicate fields, v.Holds (.record predicate fields) →
    ∃ c ∈ s.constructors, IsOf c predicate fields

lemma described_of_primitive {name : String} {w : List UInt8} {v : Value}
    (h : HoldsPrimitive name w v) : Described s v := by
  intro predicate fields hholds
  cases h <;> cases hholds

lemma described_of_treated {minRandom : ℕ} {c : Constructor} {name : String} {w : List UInt8}
    {kept : String × Value} (h : Treated minRandom c name w (some kept)) :
    Described s kept.2 := by
  intro predicate fields hholds
  cases h with
  | waveform h =>
      cases hholds with
      | item hv hholds =>
          obtain ⟨n, -, rfl⟩ := List.mem_map.1 hv
          cases hholds
  | picture hpicture h => cases hholds

/-- An object holds what the fields of its entries hold. -/
lemma described_of_entries {items : List Value} {entries : List (String × Value)}
    (hentries : items.mapM Decoder.entryOf? = some entries) (h : ∀ v ∈ items, Described s v) :
    Described s (.map (insertKeys [] entries)) := by
  intro predicate fields hholds
  cases hholds with
  | entry he hholds =>
      rcases mem_insertKeys he with he | he
      · obtain ⟨v, hv, hentry⟩ := exists_of_mapM_entryOf? hentries he
        obtain ⟨p, fs, rfl, hvalue⟩ := value_of_entryOf? hentry
        exact h _ hv _ _ (.field hvalue hholds)
      · cases he

lemma sublist_shownNames {c : Constructor} {words : String → UInt32} {w : List UInt8}
    {entries : List (String × Value)} (h : Fields s limits c words [] c.fields w entries) :
    (entries.map (·.1)).Sublist (shownNames c) := by
  rw [h.names_eq]
  refine List.Sublist.map _ (List.monotone_filter_right _ fun f hf => ?_)
  exact (Bool.and_eq_true _ _ ▸ hf).1

/-- What is no record itself is one of its fields, or holds no records. -/
lemma described_of_assemble {c : Constructor} {entries : List (String × Value)} {v : Value}
    (hform : Plan.formOf c ≠ .record)
    (hv : Decoder.assemble c.predicate (Plan.formOf c) entries = .ok v)
    (h : ∀ e ∈ entries, Described s e.2) : Described s v := by
  unfold Decoder.assemble at hv
  cases hkind : Plan.formOf c with
  | record => exact absurd hkind hform
  | content =>
      simp only [hkind] at hv
      cases hv
      cases entries with
      | nil =>
          intro predicate fields hholds
          cases hholds
      | cons e rest => exact h e List.mem_cons_self
  | peer kind =>
      simp only [hkind] at hv
      split at hv <;> cases hv
      intro predicate fields hholds
      cases hholds
  | jsonText =>
      simp only [hkind] at hv
      split at hv
      · cases hv
      · split at hv <;> cases hv
        exact fun predicate fields hholds => absurd hholds (Value.not_holds_ofJson _ _ _)

mutual

lemma Conforms.described {e : TypeExpr} {w : List UInt8} {v : Value} :
    Conforms s limits e w v → Described s v
  | .primitive _ hv => described_of_primitive hv
  | .tagged _ hv => hv.described
  | .bare hr hv => hv.described (mem_of_meaning_bare hr)
  | .vector _ hrow => by
      intro predicate fields hholds
      cases hholds with
      | item hv hholds => exact hrow.described _ hv _ _ hholds
  | .entries _ hrow hentries => described_of_entries hentries hrow.described

lemma Row.described {b : Bool} {elem : TypeExpr} {w : List UInt8} {items : List Value} :
    Row s limits b elem w items → ∀ v ∈ items, Described s v
  | .bare _ helems => helems.described
  | .boxed hrow => hrow.described
  | .envelope _ _ hrow => hrow.described

lemma Elements.described {elem : TypeExpr} {w : List UInt8} {items : List Value} :
    Elements s limits elem w items → ∀ v ∈ items, Described s v
  | .nil => fun _ h => absurd h List.not_mem_nil
  | .cons hv helems => List.forall_mem_cons.2 ⟨hv.described, helems.described⟩

lemma Announced.described {choice : Choice} {w : List UInt8} {v : Value} :
    Announced s limits choice w v → Described s v
  | .constructor hc _ _ hv => hv.described hc
  | .envelope _ _ hv => hv.described

lemma Built.described {c : Constructor} {w : List UInt8} {v : Value} :
    Built s limits c w v → c ∈ s.constructors → Described s v
  | .record hform hfields, hc => by
      intro predicate fields hholds
      cases hholds with
      | self => exact ⟨c, hc, rfl, sublist_shownNames hfields⟩
      | field he hholds => exact hfields.described _ he _ _ hholds
  | .shaped hform hfields hv, _ => described_of_assemble hform hv hfields.described

lemma Fields.described {c : Constructor} {words : String → UInt32} {names : List String}
    {fs : List Field} {w : List UInt8} {entries : List (String × Value)} :
    Fields s limits c words names fs w entries → ∀ e ∈ entries, Described s e.2
  | .nil => fun _ h => absurd h List.not_mem_nil
  | .absent _ _ hrest => hrest.described
  | .flagWord _ _ _ hrest => hrest.described
  | .presence _ _ hrest => by
      refine List.forall_mem_cons.2 ⟨fun predicate fields hholds => ?_, hrest.described⟩
      cases hholds
  | .treated _ _ _ hentry hrest => by
      intro e he
      rcases List.mem_append.1 he with he | he
      · obtain rfl := Option.mem_toList.1 he
        exact described_of_treated hentry
      · exact hrest.described e he
  | .value _ _ _ hv hrest => List.forall_mem_cons.2 ⟨hv.described, hrest.described⟩

end

lemma Answers.described {w : List UInt8} {v : Value} {request : Decoder.Request}
    (h : Answers s limits w v request) : Described s v := by
  cases request with
  | object => exact Announced.described h
  | type text =>
      obtain ⟨e, -, hv⟩ := h
      exact hv.described

/-! ## What is found in them -/

/-- **A record and its JSON have the same names, and under each the JSON shows the last field of
that name.**  It is the field that is found by the name wherever the constructor of the record shows
the name once. -/
theorem answer_records_foundAlike {b : Builder} {d : Decoder} (hb : b.build = .ok s)
    (hd : Decoder.ofSchema s limits = .ok d) {request : Decoder.Request} {c after : Cursor}
    {v : Value} (h : d.answer request c = .done v after) {predicate : String}
    {fields : List (String × Value)} (hrecord : v.Holds (.record predicate fields)) :
    Value.FoundAlike predicate fields ∧ ∃ k ∈ s.constructors, IsOf k predicate fields ∧
      ∀ name, name ≠ Value.predicateKey → (shownNames k).count name ≤ 1 →
        (Value.recordEntries predicate fields).lookup name =
          ((Value.record predicate fields).field? name).map Value.toJson := by
  have hfound := Value.foundAlike predicate fields
  obtain ⟨n, hn, -, hanswers⟩ := yields_answer hb hd request c after v h
  obtain ⟨k, hk, hof⟩ := hanswers.described predicate fields hrecord
  exact ⟨hfound, k, hk, hof, fun name hname hcount =>
    hfound.once name hname ((hof.2.count_le name).trans hcount)⟩

/-! ### Two fields of one name -/

section

/-- A constructor with two fields `x`. -/
def doubledBuilder : Builder :=
  .given [.source "a#00000001 x:int x:long = A;".toList .api]

/-- The constructor with 5 and 7 in these fields. -/
def doubledWire : Cursor :=
  .start [1, 0, 0, 0, 5, 0, 0, 0, 7, 0, 0, 0, 0, 0, 0, 0]

lemma exists_doubled : ∃ s d predicate fields after, doubledBuilder.build = .ok s ∧
    Decoder.ofSchema s {} = .ok d ∧
      d.answer (.type "A") doubledWire = .done (.record predicate fields) after ∧
        (((Value.record predicate fields).field? "x").map Value.toJson).map Json.compact =
            some "5" ∧
          ((Value.recordEntries predicate fields).lookup "x").map Json.compact = some "7" := by
  have hparts : (doubledBuilder.build.toOption.bind fun s =>
      (Decoder.ofSchema s {}).toOption.bind fun d =>
        (d.answer (.type "A") doubledWire).done?.bind fun o => o.1.asRecord?.map fun r =>
          ((((Value.record r.1 r.2).field? "x").map Value.toJson).map Json.compact,
            ((Value.recordEntries r.1 r.2).lookup "x").map Json.compact)) =
              some (some "5", some "7") := by
    decide +kernel
  obtain ⟨s, hs, hparts⟩ := Option.bind_eq_some_iff.1 hparts
  obtain ⟨d, hd, hparts⟩ := Option.bind_eq_some_iff.1 hparts
  obtain ⟨⟨v, after⟩, hread, hparts⟩ := Option.bind_eq_some_iff.1 hparts
  obtain ⟨⟨predicate, fields⟩, hrecord, hparts⟩ := Option.map_eq_some_iff.1 hparts
  obtain ⟨hfound, hshown⟩ := Prod.mk.inj hparts
  obtain rfl : v = .record predicate fields := by
    cases v <;> cases hrecord
    rfl
  exact ⟨s, d, predicate, fields, after, eq_ok_of_toOption hs, eq_ok_of_toOption hd,
    Outcome.done?_eq_some.1 hread, hfound, hshown⟩

theorem doubled_foundAlike : ∃ s d v after predicate fields, doubledBuilder.build = .ok s ∧
    Decoder.ofSchema s {} = .ok d ∧ d.answer (.type "A") doubledWire = .done v after ∧
      v.Holds (.record predicate fields) ∧ Value.FoundAlike predicate fields := by
  obtain ⟨s, d, predicate, fields, after, hs, hd, hread, -⟩ := exists_doubled
  exact ⟨s, d, _, after, predicate, fields, hs, hd, hread, .self _,
    (answer_records_foundAlike hs hd hread (.self _)).1⟩

/-- By its name the first field is found, but under its key the second one is shown. -/
theorem doubled_found_otherwise : ∃ s d predicate fields after, doubledBuilder.build = .ok s ∧
    Decoder.ofSchema s {} = .ok d ∧
      d.answer (.type "A") doubledWire = .done (.record predicate fields) after ∧
        (Value.record predicate fields).toJson =
            .object (Value.recordEntries predicate fields) ∧
          (Value.recordEntries predicate fields).lookup "x" ≠
            ((Value.record predicate fields).field? "x").map Value.toJson := by
  obtain ⟨s, d, predicate, fields, after, hs, hd, hread, hfound, hshown⟩ := exists_doubled
  refine ⟨s, d, predicate, fields, after, hs, hd, hread, rfl, fun heq => ?_⟩
  rw [← heq, hshown] at hfound
  exact absurd hfound (by decide)

end

end TypeLang.Direct
