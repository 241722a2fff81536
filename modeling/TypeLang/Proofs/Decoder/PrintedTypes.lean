import TypeLang.Proofs.Decoder.Sessions
import TypeLang.Proofs.Decoder.StatedLimits
import TypeLang.Proofs.Schema.Gates
import TypeLang.Proofs.Schema.TypeText

/-!
# Asking for the type of a field by its text

The type of a field can be written as text, and a decoder can be asked for it by the text.  It then
reads what the body reads in which the field stands, with as many levels: the text is read for the
type again, and the step that is looked up for it in the plan is the one in the body.  What the
decoder was asked before makes no difference, since what it keeps is what it would make again.

There is one exception.  The sigil of bareness is not written before a type variable, and a vector
whose elements are a type variable of the name `JSONObjectValue` is a JSON object if the sigil is
not there.
-/

namespace TypeLang

open Wire Declaration

/-! ## Types that were read -/

/-- Every type in a declaration was read from a text. -/
def Declaration.Combinator.TypesFromText (d : Combinator) : Prop :=
  ∀ a ∈ d.args, ∀ type gate, a.type = .value type gate → ∃ text, TypeTerm.read text = .ok type

/-- The types in what a builder is given were read from texts, those of single declarations too. -/
def Addition.FromText : Addition → Prop
  | source _ _ => True
  | declaration d _ => d.TypesFromText

lemma Declaration.ArgType.exists_read_term {s : List Char} {type : TypeTerm}
    {gate : Option FlagBit} (h : ArgType.read s = .ok (.value type gate)) :
    ∃ text, TypeTerm.read text = .ok type := by
  unfold ArgType.read at h
  split_ifs at h
  · cases h
  · split at h
    case h_1 =>
      obtain ⟨term, hterm, hvalue⟩ := map_eq_ok.1 h
      cases hvalue
      exact ⟨s, hterm⟩
    case h_2 before after _ =>
      split at h
      case h_1 => cases h
      case h_2 =>
        split_ifs at h
        obtain ⟨term, hterm, hvalue⟩ := map_eq_ok.1 h
        cases hvalue
        exact ⟨after, hterm⟩

lemma Declaration.Combinator.typesFromText_of_read {text : List Char} {d : Combinator}
    (h : Combinator.read text = .ok d) : d.TypesFromText := by
  obtain ⟨tokens, term, hfrom⟩ := exists_readFrom h
  obtain ⟨more, hmore, hread, -⟩ := readArgs_again hfrom.args
  obtain rfl : d.args = more := hmore
  intro a ha type gate htype
  obtain ⟨token, htoken⟩ := hread a ha
  obtain ⟨s, hs⟩ := Arg.exists_read_type htoken
  exact ArgType.exists_read_term (htype ▸ hs)

/-- Whatever a builder has queued has types that were read, if what it was given has. -/
lemma Builder.typesFromText_of_mem_queue {additions : List Addition}
    (hread : ∀ a ∈ additions, a.FromText) {e : Entry} (he : e ∈ (given additions).queue) :
    e.1.TypesFromText := by
  rw [queue_given, Addition.queued, List.mem_flatMap] at he
  obtain ⟨a, ha, he⟩ := he
  cases a with
  | source file origin =>
      obtain ⟨text, d, htext, hargs⟩ := Addition.exists_read_of_mem_source he
      have htypes := Combinator.typesFromText_of_read htext
      unfold Combinator.TypesFromText at htypes ⊢
      rwa [hargs] at htypes
  | declaration d origin =>
      have hd : e.1 = d := by
        simp only [Addition.entries, Addition.entriesOf] at he
        cases hplace : d.place <;> simp_all
      exact hd ▸ hread _ ha

/-- A field that holds a value has the type of its argument. -/
lemma Constructor.exists_ofTerm_of_fieldOf {arg : Arg} {later : List Arg} {f : Field}
    (h : fieldOf arg later = .ok f) {e : TypeExpr} (hkind : f.kind = .value e) :
    ∃ type gate, arg.type = .value type gate ∧ TypeExpr.ofTerm type = .ok e := by
  obtain ⟨name, type⟩ := arg
  cases type with
  | flagWord =>
      cases h
      cases hkind
  | value type gate =>
      simp only [fieldOf] at h
      split_ifs at h
      · cases h
        cases hkind
      · obtain ⟨kind, hvalue, rfl⟩ := map_eq_ok.1 h
        unfold valueKind at hvalue
        split_ifs at hvalue
        · cases hvalue
          cases hkind
        · obtain ⟨made, hterm, rfl⟩ := map_eq_ok.1 hvalue
          cases hkind
          exact ⟨type, gate, rfl, hterm⟩

lemma Constructor.exists_ofTerm {args : List Arg} {fields : List Field}
    (h : fieldsOf args = .ok fields) {f : Field} (hf : f ∈ fields) {e : TypeExpr}
    (hkind : f.kind = .value e) :
    ∃ a ∈ args, ∃ type gate, a.type = .value type gate ∧ TypeExpr.ofTerm type = .ok e := by
  induction args generalizing fields with
  | nil =>
      cases h
      cases hf
  | cons arg later ih =>
      obtain ⟨first, hfirst, h⟩ := bind_eq_ok.1 h
      obtain ⟨rest, hrest, h⟩ := bind_eq_ok.1 h
      cases h
      rcases List.mem_cons.1 hf with rfl | hf
      · exact ⟨arg, List.mem_cons_self, exists_ofTerm_of_fieldOf hfirst hkind⟩
      · obtain ⟨a, ha, hterm⟩ := ih hrest hf
        exact ⟨a, List.mem_cons_of_mem _ ha, hterm⟩

/-- In a schema of types that were read, a field refers to a proper reference, if its name is made
of identifiers. -/
lemma isProper_leaf_of_build {additions : List Addition} (hread : ∀ a ∈ additions, a.FromText)
    {s : Schema} (hb : (Builder.given additions).build = .ok s) {c : Constructor}
    (hc : c ∈ s.constructors) {f : Field} (hf : f ∈ c.fields) {e : TypeExpr}
    (hkind : f.kind = .value e) (hnames : e.leaf.HasIdentifiers) : e.leaf.IsProper := by
  obtain ⟨cs, hcs, -, rfl⟩ := Builder.build_eq_ok.1 hb
  obtain ⟨entry, hentry, hmakes⟩ := Builder.exists_makes_of_mem hcs (Schema.mem_of_mem_laid _ cs hc)
  obtain ⟨a, ha, type, gate, htype, hterm⟩ :=
    Constructor.exists_ofTerm (Builder.fieldsOf_of_makes hmakes) hf hkind
  obtain ⟨text, htext⟩ := Builder.typesFromText_of_mem_queue hread hentry a ha type gate htype
  exact TypeExpr.isProper_leaf htext e hterm hnames

/-! ## The step of a text -/

/-- Whether a type holds a vector of a type variable that would be one of JSON entries, but for a
sigil of bareness that is not written. -/
def TypeExpr.hidesEntries : TypeExpr → Bool
  | named _ => false
  | vector _ elem => elem.leaf.generic && elem.leaf.bare && elem.leaf.name == Plan.entryType

namespace Plan

section

variable {s : Schema} {M : Type → Type} [Monad M] [MonadExceptOf Fault M]
  (numbers : Numbering s M)

lemma refStep_reread (r : TypeRef) : refStep numbers r.reread = refStep numbers r := by
  unfold TypeRef.reread
  split_ifs with hgeneric
  · simp [refStep, hgeneric]
  · rfl

lemma isEntry_reread {elem : TypeExpr} {boxed : Bool}
    (h : (TypeExpr.vector boxed elem).hidesEntries = false) :
    isEntry elem.reread = isEntry elem := by
  cases elem with
  | vector b e => rfl
  | named r =>
      simp only [TypeExpr.hidesEntries, TypeExpr.leaf] at h
      simp only [TypeExpr.reread, TypeRef.reread]
      split_ifs with hgeneric
      · cases hname : r.name == entryType with
        | false => simp [isEntry, hname]
        | true =>
            have hbare : r.bare = false := by simpa [hgeneric, hname] using h
            have hcapital : r.isCapitalised = true := by
              rw [TypeRef.isCapitalised, eq_of_beq hname]
              decide
            simp [isEntry, hbare, hcapital]
      · rfl

/-- A type that is read again from its text has the same step. -/
lemma exprStep_reread {e : TypeExpr} (h : e.hidesEntries = false) :
    exprStep numbers e.reread = exprStep numbers e := by
  induction e with
  | named r => exact refStep_reread numbers r
  | vector boxed elem ih =>
      have helem : elem.hidesEntries = false := by
        cases elem with
        | named r => rfl
        | vector b e => exact h
      simp only [TypeExpr.reread, exprStep, ih helem, isEntry_reread h]

end

end Plan

namespace Decoder

variable {s : Schema} {limits : Limits} {d : Decoder}

lemma stepOf_text {e : TypeExpr} (hleaf : e.leaf.IsProper) (hhides : e.hidesEntries = false) :
    d.stepOf e.text = Plan.exprStep (Plan.found d.schema d.plan) e := by
  have hread : TypeExpr.read e.text.toList = .ok e.reread := by
    rw [TypeExpr.text, String.toList_ofList]
    exact TypeExpr.read_chars hleaf
  rw [stepOf, hread]
  exact Plan.exprStep_reread _ hhides

/-! ## The steps of fields -/

/-- How the body of a constructor reads the field at a place. -/
def fieldStep? (d : Decoder) (c : Constructor) (i : ℕ) : Option FieldStep :=
  (d.plan.number? (.constructor c.id)).bind fun n =>
    match d.plan.routine n with
    | .body b => b.fields[i]?
    | _ => none

lemma exists_of_fieldSteps {p : Plan} {c : Constructor} {names : List String} {fs : List Field}
    {steps : List FieldStep} (h : Plan.fieldSteps (Plan.found s p) c names fs = .ok steps) {i : ℕ}
    {f : Field} (hf : fs[i]? = some f) :
    ∃ names st names', Plan.fieldStep (Plan.found s p) c names f = .ok (st, names') ∧
      steps[i]? = some st := by
  induction fs generalizing names steps i with
  | nil => cases hf
  | cons first rest ih =>
      obtain ⟨⟨st, names'⟩, hst, h⟩ := bind_eq_ok.1 h
      obtain ⟨more, hmore, h⟩ := bind_eq_ok.1 h
      cases h
      cases i with
      | zero =>
          cases hf
          exact ⟨names, st, names', hst, rfl⟩
      | succ i => exact ih hmore hf

lemma exists_of_valueField {p : Plan} {c : Constructor} {name : String} {type : TypeExpr}
    {gate : Option Gate} {st : FieldStep} (huntreated : Direct.isTreated c name type = false)
    (h : Plan.valueField (Plan.found s p) c name type gate = .ok st) :
    ∃ step, Plan.exprStep (Plan.found s p) type = .ok step ∧ st = ⟨name, .read step, gate⟩ := by
  unfold Plan.valueField at h
  unfold Direct.isTreated at huntreated
  split_ifs at h
  · simp_all
  · simp_all
  · simp_all
  · obtain ⟨step, hstep, h⟩ := bind_eq_ok.1 h
    cases h
    exact ⟨step, hstep, rfl⟩

/-- A field that holds a value is read by the step of its type, unless it is treated otherwise. -/
lemma exists_fieldStep (hs : s.HasDistinctIds) (hd : ofSchema s limits = .ok d) {c : Constructor}
    (hc : c ∈ s.constructors) {i : ℕ} {f : Field} (hf : c.fields[i]? = some f) {e : TypeExpr}
    (hkind : f.kind = .value e) (huntreated : Direct.isTreated c f.name e = false) :
    ∃ st gate, Plan.exprStep (Plan.found s d.plan) e = .ok st ∧
      d.fieldStep? c i = some ⟨f.name, .read st, gate⟩ := by
  obtain ⟨p, hp, rfl⟩ := ofSchema_eq_ok hd
  obtain ⟨n, b, hn, hbody, hroutine⟩ := (Plan.finished_of_compile hs hp).member ⟨c, hc⟩
  obtain ⟨steps, hsteps, hb⟩ := bind_eq_ok.1 hbody
  cases hb
  obtain ⟨names, fst, names', hfst, hi⟩ := exists_of_fieldSteps hsteps hf
  obtain ⟨gate, -, hcases⟩ := fieldStep_eq_ok hfst
  rcases hcases with ⟨hk, -⟩ | ⟨hk, -⟩ | ⟨type, hk, hvalue, -⟩
  · cases hk.symm.trans hkind
  · cases hk.symm.trans hkind
  · cases hk.symm.trans hkind
    obtain ⟨st, hst, rfl⟩ := exists_of_valueField huntreated hvalue
    refine ⟨st, gate, hst, ?_⟩
    simp only [fieldStep?, hn, Option.bind_some, hroutine]
    exact hi

/-! ## Asking by the text -/

/-- What is asked for by the text of a type is read as a field of the type is. -/
structure ReadsByText (s : Schema) (limits : Limits) (d : Decoder) : Prop where
  /-- A field at some depth is read as by a decoder with the levels that are left there, whatever
  that was asked before.  The limit that is stated may differ. -/
  field : ∀ {c i f e}, c ∈ s.constructors → c.fields[i]? = some f → f.kind = .value e →
    Direct.isTreated c f.name e = false → e.leaf.HasIdentifiers → e.hidesEntries = false →
      ∃ st gate, d.fieldStep? c i = some ⟨f.name, .read st, gate⟩ ∧
        ∀ depth, ∃ d', ofSchema s { limits with maxDepth := limits.maxDepth - depth } = .ok d' ∧
          ∀ calls cursor, Outcome.EqUpToLimit
            (((Session.start d').after calls).answer (.type e.text) cursor).1
            (step d.plan limits (limits.maxDepth - depth) st cursor)
  /-- What is kept never changes what comes of a call. -/
  kept : ∀ calls request cursor,
    (((Session.start d).after calls).answer request cursor).1 = d.answer request cursor
  /-- A call for an unknown type leaves the cursor and what is kept as they are. -/
  unknown : ∀ calls request cursor name stop,
    (((Session.start d).after calls).answer request cursor).1 =
        .failed (.unknownType name) stop →
      stop = cursor ∧ (((Session.start d).after calls).answer request cursor).2 =
        (Session.start d).after calls

/-- **What is asked for by the text of a type is read as a field of the type is.** -/
theorem readsByText_of_build {additions : List Addition} (hread : ∀ a ∈ additions, a.FromText)
    (hb : (Builder.given additions).build = .ok s) (hd : ofSchema s limits = .ok d) :
    ReadsByText s limits d where
  field := by
    intro c i f e hc hf hkind huntreated hnames hhides
    have hs := Schema.hasDistinctIds_of_build hb
    obtain ⟨st, gate, hst, hfield⟩ := exists_fieldStep hs hd hc hf hkind huntreated
    refine ⟨st, gate, hfield, fun depth => ?_⟩
    obtain ⟨p, hp, rfl⟩ := ofSchema_eq_ok hd
    refine ⟨_, ofSchema_of_compile hp _, fun calls cursor => ?_⟩
    have hleaf := isProper_leaf_of_build hread hb hc (List.mem_of_getElem? hf) hkind hnames
    have hasked : ∀ limits, (⟨s, p, limits⟩ : Decoder).readType e.text =
        step p limits limits.maxDepth st := by
      intro limits
      have hstep : (⟨s, p, limits⟩ : Decoder).stepOf e.text = .ok st :=
        (stepOf_text hleaf hhides).trans hst
      rw [readType, hstep]
      rfl
    have hsame : Reader.EqUpToLimit
        (step p { limits with maxDepth := limits.maxDepth - depth } (limits.maxDepth - depth) st)
        (step p limits (limits.maxDepth - depth) st) := by
      refine eqUpToLimit_step ?_ ?_ p _ st
      · rfl
      · rfl
    rw [Session.answer_after, answer, hasked]
    exact hsame cursor
  kept := Session.answer_after d
  unknown calls request cursor name stop h := by
    obtain ⟨hdecoder, hsound⟩ := Session.sound_after (Session.sound_start d) calls
    exact Session.unchanged_of_unknownType hb hd hsound hdecoder h

section

/-! ### Rows of notes -/

/-- Rows of rows of bare notes. -/
def notes : List Addition :=
  [.source "notes.note#00000001 kind:int = notes.Note;".toList .mtproto,
    .source "pages#00000002 rows:vector<Vector<%notes.Note>> = Pages;".toList .api]

/-- The type of the rows. -/
def rowsOfNotes : TypeExpr :=
  .vector false (.vector true (.named ⟨"notes.Note", true, false⟩))

/-- The constructor that holds them. -/
def pages : Constructor :=
  ⟨"pages", 2, "Pages", [⟨"rows", .value rowsOfNotes, none⟩], true⟩

/-- One row of one note. -/
def rowsWire : Cursor :=
  .start [1, 0, 0, 0, 0x15, 0xC4, 0xB5, 0x1C, 1, 0, 0, 0, 7, 0, 0, 0]

theorem rowsOfNotes_readByText : ∃ s d d' st gate, (Builder.given notes).build = .ok s ∧
    ofSchema s {} = .ok d ∧ pages ∈ s.constructors ∧
      rowsOfNotes.text = "vector<Vector<%notes.Note>>" ∧
        d.fieldStep? pages 0 = some ⟨"rows", .read st, gate⟩ ∧
          ofSchema s { maxDepth := 126 } = .ok d' ∧
            Outcome.EqUpToLimit
              (((Session.start d').after [(.type "nothing", rowsWire),
                (.type rowsOfNotes.text, rowsWire)]).answer (.type rowsOfNotes.text) rowsWire).1
              (step d.plan {} 126 st rowsWire) := by
  have hparts : ((Builder.given notes).build.toOption.bind fun s =>
      (ofSchema s {}).toOption.map fun _ => s.constructors.contains pages) = some true := by
    decide +kernel
  obtain ⟨s, hs, hparts⟩ := Option.bind_eq_some_iff.1 hparts
  obtain ⟨d, hd, hmem⟩ := Option.map_eq_some_iff.1 hparts
  have hb := eq_ok_of_toOption hs
  have hofSchema := eq_ok_of_toOption hd
  have hpages : pages ∈ s.constructors := List.contains_iff_mem.1 hmem
  have hread : ∀ a ∈ notes, a.FromText := by simp [notes, Addition.FromText]
  have hnames : rowsOfNotes.leaf.HasIdentifiers :=
    ⟨⟨["notes"], "Note"⟩, by decide, by decide⟩
  have hplace : pages.fields[0]? = some ⟨"rows", .value rowsOfNotes, none⟩ := rfl
  obtain ⟨st, gate, hfield, hasked⟩ :=
    (readsByText_of_build hread hb hofSchema).field hpages hplace rfl rfl hnames rfl
  obtain ⟨d', hd', hsame⟩ := hasked 2
  exact ⟨s, d, d', st, gate, hb, hofSchema, hpages, by decide, hfield, hd', hsame _ _⟩

/-! ### Entries behind a type variable -/

/-- A row of any objects, by a type variable that has the name of JSON entries. -/
def hiddenEntries : TypeExpr :=
  .vector true (.named ⟨"JSONObjectValue", true, true⟩)

/-- The constructor that holds the row. -/
def hider : Constructor :=
  ⟨"a", 1, "A", [⟨"x", .value hiddenEntries, none⟩], true⟩

/-- That constructor, and one to stand in the row. -/
def hiders : List Addition :=
  [.source "a#00000001 x:Vector<!%JSONObjectValue> = A;\nb#00000002 = B;".toList .api]

/-- A row of one object. -/
def hiderWire : Cursor :=
  .start [0x15, 0xC4, 0xB5, 0x1C, 1, 0, 0, 0, 2, 0, 0, 0]

/-- The text of the type is without the sigil, so that what is asked for by it is read for entries,
where the field is read for a row. -/
theorem hiddenEntries_differ : ∃ s d d' st, (Builder.given hiders).build = .ok s ∧
    ofSchema s {} = .ok d ∧ ofSchema s { maxDepth := 126 } = .ok d' ∧ hider ∈ s.constructors ∧
      Direct.isTreated hider "x" hiddenEntries = false ∧ hiddenEntries.leaf.HasIdentifiers ∧
        d.fieldStep? hider 0 = some ⟨"x", .read st, none⟩ ∧
          (∃ v after, step d.plan {} 126 st hiderWire = .done v after) ∧
            (∃ stop, ((Session.start d').answer (.type hiddenEntries.text) hiderWire).1 =
              .failed (.content "jsonObjectValue" .noEntry) stop) ∧
            ¬Outcome.EqUpToLimit ((Session.start d').answer (.type hiddenEntries.text) hiderWire).1
              (step d.plan {} 126 st hiderWire) := by
  have hparts : ((Builder.given hiders).build.toOption.bind fun s =>
      (ofSchema s {}).toOption.bind fun d =>
        (ofSchema s { maxDepth := 126 }).toOption.map fun d' =>
          (s.constructors.contains hider, d.fieldStep? hider 0,
            (step d.plan {} 126 (.vector true (.call Plan.anyObject)) hiderWire).done?.isSome,
            ((Session.start d').answer (.type hiddenEntries.text) hiderWire).1.fault?)) =
      some (true, some ⟨"x", .read (.vector true (.call Plan.anyObject)), none⟩,
        true, some (.content "jsonObjectValue" .noEntry)) := by
    decide +kernel
  obtain ⟨s, hs, hparts⟩ := Option.bind_eq_some_iff.1 hparts
  obtain ⟨d, hd, hparts⟩ := Option.bind_eq_some_iff.1 hparts
  obtain ⟨d', hd', hparts⟩ := Option.map_eq_some_iff.1 hparts
  simp only [Prod.mk.injEq] at hparts
  obtain ⟨hmem, hstep, hread, hfault⟩ := hparts
  obtain ⟨⟨v, after⟩, hread⟩ := Option.isSome_iff_exists.1 hread
  have hdone := Outcome.done?_eq_some.1 hread
  obtain ⟨stop, hfailed⟩ := Outcome.fault?_eq_some.1 hfault
  have hnames : hiddenEntries.leaf.HasIdentifiers :=
    ⟨⟨[], "JSONObjectValue"⟩, by decide, by decide⟩
  refine ⟨s, d, d', _, eq_ok_of_toOption hs, eq_ok_of_toOption hd, eq_ok_of_toOption hd',
    List.contains_iff_mem.1 hmem, rfl, hnames, hstep, ⟨v, after, hdone⟩, ⟨stop, hfailed⟩, ?_⟩
  rw [hdone, hfailed]
  exact fun h => nomatch h

end

end Decoder

end TypeLang
