import TypeLang.Proofs.Decoder.Conformance
import TypeLang.Proofs.Decoder.Locality

/-!
# What is read has its type

Every reading by the schema conforms, by the octets that it consumes: by induction on the levels
that are left, with the readings of one level put together from those of the level below.  Flag
words are met on the way, so the fields behind some of them conform for words that are still to
come, and only those of a whole constructor for one assignment.
-/

namespace TypeLang.Direct

open Wire

variable {s : Schema} {limits : Limits}

/-! ## Fields -/

section

variable {value : TypeExpr → Reader Value} {c : Constructor}

/-- The octets hold fields behind the words so far, for some words still to come. -/
def FieldsBehind (s : Schema) (limits : Limits) (c : Constructor) (named : Words)
    (fs : List Field) (w : List UInt8) (entries : List (String × Value)) : Prop :=
  ∃ words, Agrees words named ∧ Fields s limits c words (named.map (·.1)) fs w entries

namespace FieldsBehind

variable {named : Words} {f : Field} {rest : List Field} {w w' : List UInt8}
  {entries : List (String × Value)} (hfs : Resolves (named.map (·.1)) (f :: rest))

include hfs

lemma word {word : UInt32} (hopen : isOpen named f = true) (hkind : f.kind = .flagWord)
    (h : FieldsBehind s limits c (named ++ [(f.name, word)]) rest w entries) :
    FieldsBehind s limits c named (f :: rest) (Write.uint32 word ++ w) entries := by
  obtain ⟨words, hagrees, hfields⟩ := h
  have hnamed := hagrees.of_append
  have hgate : isPresent words f = true := by rw [← isOpen_eq_isPresent hnamed hfs.1, hopen]
  rw [List.map_append] at hfields
  exact ⟨words, hnamed, .flagWord hgate hkind hagrees.eq_of_first hfields⟩

/-- A word behind a closed gate counts as zero. -/
lemma absent_word (hopen : isOpen named f = false) (hkind : f.kind = .flagWord)
    (h : FieldsBehind s limits c (named ++ [(f.name, 0)]) rest w entries) :
    FieldsBehind s limits c named (f :: rest) w entries := by
  obtain ⟨words, hagrees, hfields⟩ := h
  have hnamed := hagrees.of_append
  have hgate : isPresent words f = false := by rw [← isOpen_eq_isPresent hnamed hfs.1, hopen]
  have hrest : Fields s limits c words (wordsUpTo (named.map (·.1)) f) rest w entries := by
    rw [List.map_append] at hfields
    rwa [wordsUpTo, if_pos hkind]
  exact ⟨words, hnamed, .absent hgate (fun _ => hagrees.eq_of_first) hrest⟩

lemma absent (hopen : isOpen named f = false) (hkind : f.kind ≠ .flagWord)
    (h : FieldsBehind s limits c named rest w entries) :
    FieldsBehind s limits c named (f :: rest) w entries := by
  obtain ⟨words, hnamed, hfields⟩ := h
  have hgate : isPresent words f = false := by rw [← isOpen_eq_isPresent hnamed hfs.1, hopen]
  have hrest : Fields s limits c words (wordsUpTo (named.map (·.1)) f) rest w entries := by
    rwa [wordsUpTo, if_neg hkind]
  exact ⟨words, hnamed, .absent hgate (fun h => absurd h hkind) hrest⟩

lemma presence (hopen : isOpen named f = true) (hkind : f.kind = .presence)
    (h : FieldsBehind s limits c named rest w entries) :
    FieldsBehind s limits c named (f :: rest) w ((f.name, .bool true) :: entries) := by
  obtain ⟨words, hnamed, hfields⟩ := h
  have hgate : isPresent words f = true := by rw [← isOpen_eq_isPresent hnamed hfs.1, hopen]
  exact ⟨words, hnamed, .presence hgate hkind hfields⟩

lemma treated {type : TypeExpr} {kept? : Option (String × Value)} (hopen : isOpen named f = true)
    (hkind : f.kind = .value type) (htreated : isTreated c f.name type = true)
    (hentry : Treated limits.minRandom c f.name w kept?)
    (h : FieldsBehind s limits c named rest w' entries) :
    FieldsBehind s limits c named (f :: rest) (w ++ w') (kept?.toList ++ entries) := by
  obtain ⟨words, hnamed, hfields⟩ := h
  have hgate : isPresent words f = true := by rw [← isOpen_eq_isPresent hnamed hfs.1, hopen]
  exact ⟨words, hnamed, .treated hgate hkind htreated hentry hfields⟩

lemma untreated {type : TypeExpr} {v : Value} (hopen : isOpen named f = true)
    (hkind : f.kind = .value type) (htreated : isTreated c f.name type = false)
    (hv : Conforms s limits type w v) (h : FieldsBehind s limits c named rest w' entries) :
    FieldsBehind s limits c named (f :: rest) (w ++ w') ((f.name, v) :: entries) := by
  obtain ⟨words, hnamed, hfields⟩ := h
  have hgate : isPresent words f = true := by rw [← isOpen_eq_isPresent hnamed hfs.1, hopen]
  exact ⟨words, hnamed, .value hgate hkind htreated hv hfields⟩

end FieldsBehind

/-- The words that are read on the way decide all gates, also those passed before: a gate asks for
the first word of its name, and that one is known when the gate is reached. -/
lemma yields_fields (hvalue : ∀ type, Yields (value type) (Conforms s limits type))
    {fs : List Field} {named : Words} (hfs : Resolves (named.map (·.1)) fs) :
    Yields (fields limits.minRandom value c fs named) (FieldsBehind s limits c named fs) := by
  induction fs generalizing named with
  | nil => exact yields_pure ⟨fun name => (named.lookup name).getD 0, agrees_lookup named, .nil⟩
  | cons f rest ih =>
      unfold fields
      refine yields_ite (fun hopen => ?_) fun hopen => ?_
      · cases hkind : f.kind with
        | flagWord =>
            refine yields_bind yields_uint32 fun _ word hword => ?_
            subst hword
            exact (ih (hfs.behind_word hkind word)).imp fun w entries h => h.word hfs hopen hkind
        | presence =>
            have hrest := ih (hfs.behind_other (by simp [hkind]))
            exact yields_bind_pure hrest fun w entries h => h.presence hfs hopen hkind
        | value type =>
            have hrest := ih (hfs.behind_other (by simp [hkind]))
            cases htreated : isTreated c f.name type with
            | true =>
                refine yields_bind (yields_treated htreated) fun w kept? hentry => ?_
                exact yields_bind_pure hrest fun w' entries h =>
                  h.treated hfs hopen hkind htreated hentry
            | false =>
                simp only [shown_of_untreated htreated, bind_assoc, pure_bind]
                refine yields_bind (hvalue type) fun w v hv => ?_
                exact yields_bind_pure hrest fun w' entries h =>
                  h.untreated hfs hopen hkind htreated hv
      · have hclosed : isOpen named f = false := by simpa using hopen
        have hother (hkind : f.kind ≠ .flagWord) :
            Yields (fields limits.minRandom value c rest named)
              (FieldsBehind s limits c named (f :: rest)) :=
          (ih (hfs.behind_other hkind)).imp fun w entries h => h.absent hfs hclosed hkind
        cases hkind : f.kind with
        | flagWord =>
            exact (ih (hfs.behind_word hkind 0)).imp fun w entries h =>
              h.absent_word hfs hclosed hkind
        | presence => exact hother (by simp [hkind])
        | value type => exact hother (by simp [hkind])

lemma yields_construct (hvalue : ∀ type, Yields (value type) (Conforms s limits type))
    (hc : Resolves [] c.fields) :
    Yields (construct limits.minRandom value c) (Built s limits c) := by
  have hread : Yields (fields limits.minRandom value c c.fields [])
      (FieldsBehind s limits c [] c.fields) := yields_fields hvalue hc
  refine yields_bind hread ?_
  rintro w entries ⟨words, -, hfields⟩
  refine yields_ofExcept fun v hv => ?_
  rw [List.append_nil]
  by_cases hform : Plan.formOf c = .record
  · rw [hform] at hv
    cases hv
    exact .record hform hfields
  · exact .shaped hform hfields hv

end

/-! ## Tags and vectors -/

/-- What comes out of an envelope is read within it, on a wire of its own. -/
lemma yields_enveloped {α : Type} {r : Reader α} {P : List UInt8 → α → Prop} (h : Yields r P)
    (limit : ℕ) :
    Yields (do let octets ← Reader.opened limit; Reader.within octets r) fun w a =>
      ∃ octets w', IsPacked limit octets w ∧ w' <+: octets ∧ P w' a := by
  refine yields_bind (yields_opened limit) fun w octets hopened => ?_
  refine (yields_within h octets).imp ?_
  rintro _ a ⟨rfl, w', hwithin, hP⟩
  rw [List.append_nil]
  exact ⟨octets, w', hopened, hwithin, hP⟩

lemma yields_announced {choice : Choice} {bare : Constructor → Reader Value} {again : Reader Value}
    (hbare : ∀ c ∈ s.constructors, Yields (bare c) (Built s limits c))
    (hagain : Yields again (Announced s limits choice)) :
    Yields (announced s limits.maxInflated choice bare again) (Announced s limits choice) := by
  refine yields_bind yields_uint32 fun _ tag htag => ?_
  subst htag
  refine yields_ite (fun hgzip => ?_) fun hgzip => ?_
  · refine (yields_enveloped hagain limits.maxInflated).imp ?_
    rintro w v ⟨octets, w', hopened, hwithin, hv⟩
    exact hgzip ▸ .envelope hopened hwithin hv
  · cases hc : choice.candidate? s tag with
    | none => exact yields_unknownTag _
    | some c =>
        obtain ⟨hfound, hadmits⟩ := Option.filter_eq_some_iff.1 hc
        have hmem := Schema.mem_of_byId? hfound
        have hid : c.id = tag := by simpa using List.find?_some hfound
        refine (hbare c hmem).imp fun w v hv => ?_
        exact hid ▸ .constructor hmem hadmits (hid ▸ hgzip) hv

lemma elements_of_forall₂ {elem : TypeExpr} {ws : List (List UInt8)} {items : List Value}
    (h : List.Forall₂ (Conforms s limits elem) ws items) :
    Elements s limits elem ws.flatten items := by
  induction h with
  | nil => exact .nil
  | cons hv _ ih => exact .cons hv ih

lemma yields_vectorOf {elem : TypeExpr} {read : Reader Value}
    (h : Yields read (Conforms s limits elem)) (boxed : Bool) :
    Yields (vectorOf limits.maxInflated boxed read) (Row s limits boxed elem) := by
  have hbare : Yields (Reader.bareVector read) (Row s limits false elem) := by
    refine (yields_bareVector h).imp ?_
    rintro _ items ⟨hcount, ws, hws, rfl⟩
    rw [Write.bareVector, hws.length_eq]
    exact .bare hcount (elements_of_forall₂ hws)
  have hafterTag : Yields (Reader.afterVectorTag (Reader.bareVector read)) fun w items =>
      ∃ w', w = Write.uint32 Tag.vector ++ w' ∧ Row s limits false elem w' items := by
    refine yields_bind yields_uint32 fun _ tag htag => yields_ite (fun hvector => ?_) fun _ =>
      yields_unknownTag _
    exact hbare.imp fun w' items hrow => ⟨w', by rw [htag, hvector], hrow⟩
  cases boxed with
  | false => exact hbare
  | true =>
      refine yields_bind yields_uint32 fun _ tag htag => ?_
      subst htag
      refine yields_ite (fun hvector => ?_) fun _ => yields_ite (fun hgzip => ?_) fun _ =>
        yields_unknownTag _
      · exact hvector ▸ hbare.imp fun w items hrow => .boxed hrow
      · refine (yields_enveloped hafterTag limits.maxInflated).imp ?_
        rintro w items ⟨octets, _, hopened, hwithin, w', rfl, hrow⟩
        exact hgzip ▸ .envelope hopened hwithin hrow

/-! ## Levels -/

lemma yields_valueWith {boxed : Choice → Reader Value} {bare : Constructor → Reader Value}
    {vector : Bool → TypeExpr → Reader (List Value)}
    (hboxed : ∀ choice, Yields (boxed choice) (Announced s limits choice))
    (hbare : ∀ c ∈ s.constructors, Yields (bare c) (Built s limits c))
    (hvector : ∀ b elem, Yields (vector b elem) (Row s limits b elem)) (e : TypeExpr) :
    Yields (valueWith s boxed bare vector e) (Conforms s limits e) := by
  cases e with
  | named r =>
      rw [valueWith_named]
      cases hr : meaning s r with
      | primitive name =>
          cases hread : primitive? name with
          | none => simpa [readMeaning, hread] using yields_fail _
          | some read =>
              simp only [readMeaning, hread, Option.getD_some]
              exact (yields_primitive hread).imp fun w v hv => .primitive hr hv
      | tagged choice => exact (hboxed choice).imp fun w v hv => .tagged hr hv
      | bare c => exact (hbare c (mem_of_meaning_bare hr)).imp fun w v hv => .bare hr hv
      | unknown => exact yields_fail _
  | vector b elem =>
      unfold valueWith
      refine yields_ite (fun hentry => ?_) fun hentry => ?_
      · refine yields_bind (hvector b elem) fun w items hrow => yields_ofExcept fun v hv => ?_
        rw [List.append_nil]
        unfold Decoder.objectOf at hv
        cases hentries : items.mapM Decoder.entryOf? with
        | none => simp [hentries] at hv
        | some entries =>
            simp only [hentries, Except.ok.injEq] at hv
            exact hv ▸ .entries hentry hrow hentries
      · exact yields_bind_pure (hvector b elem) fun w items hrow =>
          .vector (by simpa using hentry) hrow

/-- At every level, what is read conforms. -/
lemma yields_levels (hgates : GatesResolve s) (levels : ℕ) :
    (∀ choice, Yields (boxed s limits levels choice) (Announced s limits choice)) ∧
      (∀ c ∈ s.constructors, Yields (bare s limits levels c) (Built s limits c)) ∧
        ∀ b elem, Yields (vector s limits levels b elem) (Row s limits b elem) := by
  induction levels with
  | zero =>
      exact ⟨fun _ => Decoder.yields_tooDeep limits, fun _ _ => Decoder.yields_tooDeep limits,
        fun _ _ => Decoder.yields_tooDeep limits⟩
  | succ levels ih =>
      obtain ⟨hboxed, hbare, hvector⟩ := ih
      have hvalue := yields_valueWith hboxed hbare hvector
      refine ⟨fun choice => ?_, fun c hc => ?_, fun b elem => ?_⟩
      · unfold boxed
        exact yields_announced hbare (hboxed choice)
      · unfold bare
        exact yields_construct hvalue (hgates c hc)
      · unfold vector
        exact yields_vectorOf (hvalue elem) b

lemma yields_value (hgates : GatesResolve s) (levels : ℕ) (e : TypeExpr) :
    Yields (value s limits levels e) (Conforms s limits e) := by
  obtain ⟨hboxed, hbare, hvector⟩ := yields_levels hgates levels
  exact yields_valueWith hboxed hbare hvector e

/-! ## Requests -/

/-- The octets hold what is asked for. -/
def Answers (s : Schema) (limits : Limits) (w : List UInt8) (v : Value) :
    Decoder.Request → Prop
  | .object => Announced s limits .standalone w v
  | .type text => ∃ e, TypeExpr.read text.toList = .ok e ∧ Conforms s limits e w v

lemma yields_readType (hgates : GatesResolve s) (type : String) :
    Yields (readType s limits type) fun w v => Answers s limits w v (.type type) := by
  unfold readType
  cases he : TypeExpr.read type.toList with
  | error fault => exact yields_fail _
  | ok e =>
      refine yields_ite (fun _ => ?_) fun _ => yields_fail _
      exact (yields_value hgates limits.maxDepth e).imp fun w v hv => ⟨e, he, hv⟩

/-- A decoder reads what it is asked for. -/
lemma yields_answer {b : Builder} {d : Decoder} (hb : b.build = .ok s)
    (hd : Decoder.ofSchema s limits = .ok d) (request : Decoder.Request) :
    Yields (d.answer request) fun w v => Answers s limits w v request := by
  have hgates := gatesResolve_of_ofSchema hb hd
  obtain ⟨hobject, htype⟩ := Decoder.eq_direct_of_build hb hd
  cases request with
  | object =>
      show Yields d.readObject _
      rw [hobject]
      exact (yields_levels hgates limits.maxDepth).1 .standalone
  | type text =>
      show Yields (d.readType text) _
      rw [htype]
      exact yields_readType hgates text

/-! ### A row of one text -/

/-- A row of one text, in an envelope: the octets of `textConcat` with a flag word, a vector and the
text "hi" in it, stored without compression. -/
def envelopedText : List UInt8 :=
  Write.envelope (Write.uint32 0x7E6260D7 ++ Write.uint32 1 ++
    Write.boxedVector [Write.uint32 0x744694E0 ++ Write.string "hi"])

lemma exists_envelopedText : ∃ s d v after, Decoder.richText.build = .ok s ∧
    Decoder.ofSchema s {} = .ok d ∧
      d.answer .object (Cursor.start envelopedText) = .done v after := by
  have hsome : (Decoder.richText.build.toOption.bind fun s =>
      (Decoder.ofSchema s {}).toOption.bind fun d =>
        (d.answer .object (Cursor.start envelopedText)).done?).isSome = true := by
    decide +kernel
  obtain ⟨⟨v, after⟩, hsome⟩ := Option.isSome_iff_exists.1 hsome
  obtain ⟨s, hs, hsome⟩ := Option.bind_eq_some_iff.1 hsome
  obtain ⟨d, hd, hread⟩ := Option.bind_eq_some_iff.1 hsome
  exact ⟨s, d, v, after, eq_ok_of_toOption hs, eq_ok_of_toOption hd,
    Outcome.done?_eq_some.1 hread⟩

end TypeLang.Direct
