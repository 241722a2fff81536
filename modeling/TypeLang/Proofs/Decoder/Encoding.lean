import TypeLang.Proofs.Decoder.Conformance

/-!
# Reading inverts writing

`Encodes` says by the schema which octets write a value of a type: a constructor writes its tag, if
it is boxed, and then its fields in order, a flag word as any word whose bits agree with the fields
that are there, and a field that is merely there as nothing.  Such octets are read as the value that
they write, on every wire and up to their end.

The relation covers the constructors that read as they are written: a record, no field of which is
treated, and whose flag words have no gates.  It counts the levels that a value takes, since a
reading is refused below the deepest level of a decoder.
-/

namespace TypeLang.Direct

open Wire

/-! ## Encodings -/

/-- The octets that write a value of a primitive type. -/
inductive EncodesPrimitive : String → Value → List UInt8 → Prop
  | int (n : Int32) : EncodesPrimitive "int" (.int n) (Write.int32 n)
  | word (n : Int32) : EncodesPrimitive "#" (.int n) (Write.int32 n)
  | long (n : Int64) : EncodesPrimitive "long" (.long n) (Write.int64 n)
  | double (d : Double) : EncodesPrimitive "double" (.double d) (Write.double d)
  | bool (b : Bool) : EncodesPrimitive "Bool" (.bool b) (Write.bool b)
  | string {t : String} (h : IsShort (Text.utf8 t.toList)) :
      EncodesPrimitive "string" (.string t) (Write.string t)
  | bytes {content : List UInt8} (h : IsShort content) :
      EncodesPrimitive "bytes" (.bytes content) (Write.bytes content)
  | int128 {content : List UInt8} (h : content.length = 16) :
      EncodesPrimitive "int128" (.bytes content) content
  | int256 {content : List UInt8} (h : content.length = 32) :
      EncodesPrimitive "int256" (.bytes content) content
  | int512 {content : List UInt8} (h : content.length = 64) :
      EncodesPrimitive "int512" (.bytes content) content
  | strlong {content : List UInt8} (h : content.length = 8) :
      EncodesPrimitive "strlong" (.bytes content) content

section

variable (s : Schema)

mutual

/-- The octets write a value of a type expression that takes at most so many levels. -/
inductive Encodes : ℕ → TypeExpr → Value → List UInt8 → Prop
  | primitive {levels : ℕ} {r : TypeRef} {name : String} {v : Value} {w : List UInt8}
      (hr : meaning s r = .primitive name) (hv : EncodesPrimitive name v w) :
      Encodes levels (.named r) v w
  | boxed {levels : ℕ} {r : TypeRef} {choice : Choice} {c : Constructor} {v : Value}
      {w : List UInt8} (hr : meaning s r = .tagged choice) (hc : c ∈ s.constructors)
      (hadmits : choice.admits s c = true) (hid : c.id ≠ Tag.gzipPacked)
      (hv : EncodesBare levels c v w) :
      Encodes (levels + 1) (.named r) v (Write.uint32 c.id ++ w)
  | bare {levels : ℕ} {r : TypeRef} {c : Constructor} {v : Value} {w : List UInt8}
      (hr : meaning s r = .bare c) (hv : EncodesBare levels c v w) : Encodes levels (.named r) v w
  | boxedVector {levels : ℕ} {elem : TypeExpr} {items : List Value} {ws : List (List UInt8)}
      (helem : Plan.isEntry elem = false) (hcount : items.length < 2 ^ 31)
      (helems : EncodesAll levels elem items ws) :
      Encodes (levels + 1) (.vector true elem) (.vector items) (Write.boxedVector ws)
  | bareVector {levels : ℕ} {elem : TypeExpr} {items : List Value} {ws : List (List UInt8)}
      (helem : Plan.isEntry elem = false) (hcount : items.length < 2 ^ 31)
      (helems : EncodesAll levels elem items ws) :
      Encodes (levels + 1) (.vector false elem) (.vector items) (Write.bareVector ws)

/-- Each of some octets write one of some values of a type expression. -/
inductive EncodesAll : ℕ → TypeExpr → List Value → List (List UInt8) → Prop
  | nil {levels : ℕ} {elem : TypeExpr} : EncodesAll levels elem [] []
  | cons {levels : ℕ} {elem : TypeExpr} {v : Value} {items : List Value} {w : List UInt8}
      {ws : List (List UInt8)} (hv : Encodes levels elem v w)
      (helems : EncodesAll levels elem items ws) : EncodesAll levels elem (v :: items) (w :: ws)

/-- The octets write a constructor after its tag. -/
inductive EncodesBare : ℕ → Constructor → Value → List UInt8 → Prop
  | record {levels : ℕ} {c : Constructor} {words : String → UInt32}
      {entries : List (String × Value)} {w : List UInt8} (hform : Plan.formOf c = .record)
      (hfields : EncodesFields levels c words c.fields entries w) :
      EncodesBare (levels + 1) c (.record c.predicate entries) w

/-- The octets write fields, of which the entries are there. -/
inductive EncodesFields : ℕ → Constructor → (String → UInt32) → List Field →
    List (String × Value) → List UInt8 → Prop
  | nil {levels : ℕ} {c : Constructor} {words : String → UInt32} :
      EncodesFields levels c words [] [] []
  | flagWord {levels : ℕ} {c : Constructor} {words : String → UInt32} {f : Field}
      {rest : List Field} {entries : List (String × Value)} {w : List UInt8}
      (hkind : f.kind = .flagWord) (hgate : f.gate = none)
      (hrest : EncodesFields levels c words rest entries w) :
      EncodesFields levels c words (f :: rest) entries (Write.uint32 (words f.name) ++ w)
  | absent {levels : ℕ} {c : Constructor} {words : String → UInt32} {f : Field}
      {rest : List Field} {entries : List (String × Value)} {w : List UInt8}
      (hkind : f.kind ≠ .flagWord) (hgate : isPresent words f = false)
      (hrest : EncodesFields levels c words rest entries w) :
      EncodesFields levels c words (f :: rest) entries w
  | presence {levels : ℕ} {c : Constructor} {words : String → UInt32} {f : Field}
      {rest : List Field} {entries : List (String × Value)} {w : List UInt8}
      (hkind : f.kind = .presence) (hgate : isPresent words f = true)
      (hrest : EncodesFields levels c words rest entries w) :
      EncodesFields levels c words (f :: rest) ((f.name, .bool true) :: entries) w
  | value {levels : ℕ} {c : Constructor} {words : String → UInt32} {f : Field} {type : TypeExpr}
      {rest : List Field} {v : Value} {entries : List (String × Value)} {w w' : List UInt8}
      (hkind : f.kind = .value type) (hgate : isPresent words f = true)
      (htreated : isTreated c f.name type = false) (hv : Encodes levels type v w)
      (hrest : EncodesFields levels c words rest entries w') :
      EncodesFields levels c words (f :: rest) ((f.name, v) :: entries) (w ++ w')

end

end

/-! ### More levels -/

section

variable {s : Schema}

mutual

/-- What takes at most so many levels takes at most more. -/
lemma Encodes.mono {levels more : ℕ} {e : TypeExpr} {v : Value} {w : List UInt8}
    (hle : levels ≤ more) : Encodes s levels e v w → Encodes s more e v w
  | .primitive hr hv => .primitive hr hv
  | .boxed hr hc hadmits hid hv => by
      obtain ⟨m, rfl⟩ := Nat.exists_eq_succ_of_ne_zero (Nat.ne_zero_of_lt hle)
      exact .boxed hr hc hadmits hid (hv.mono (Nat.le_of_succ_le_succ hle))
  | .bare hr hv => .bare hr (hv.mono hle)
  | .boxedVector helem hcount helems => by
      obtain ⟨m, rfl⟩ := Nat.exists_eq_succ_of_ne_zero (Nat.ne_zero_of_lt hle)
      exact .boxedVector helem hcount (helems.mono (Nat.le_of_succ_le_succ hle))
  | .bareVector helem hcount helems => by
      obtain ⟨m, rfl⟩ := Nat.exists_eq_succ_of_ne_zero (Nat.ne_zero_of_lt hle)
      exact .bareVector helem hcount (helems.mono (Nat.le_of_succ_le_succ hle))

lemma EncodesAll.mono {levels more : ℕ} {elem : TypeExpr} {items : List Value}
    {ws : List (List UInt8)} (hle : levels ≤ more) :
    EncodesAll s levels elem items ws → EncodesAll s more elem items ws
  | .nil => .nil
  | .cons hv helems => .cons (hv.mono hle) (helems.mono hle)

lemma EncodesBare.mono {levels more : ℕ} {c : Constructor} {v : Value} {w : List UInt8}
    (hle : levels ≤ more) : EncodesBare s levels c v w → EncodesBare s more c v w
  | .record hform hfields => by
      obtain ⟨m, rfl⟩ := Nat.exists_eq_succ_of_ne_zero (Nat.ne_zero_of_lt hle)
      exact .record hform (hfields.mono (Nat.le_of_succ_le_succ hle))

lemma EncodesFields.mono {levels more : ℕ} {c : Constructor} {words : String → UInt32}
    {fs : List Field} {entries : List (String × Value)} {w : List UInt8} (hle : levels ≤ more) :
    EncodesFields s levels c words fs entries w → EncodesFields s more c words fs entries w
  | .nil => .nil
  | .flagWord hkind hgate hrest => .flagWord hkind hgate (hrest.mono hle)
  | .absent hkind hgate hrest => .absent hkind hgate (hrest.mono hle)
  | .presence hkind hgate hrest => .presence hkind hgate (hrest.mono hle)
  | .value hkind hgate htreated hv hrest =>
      .value hkind hgate htreated (hv.mono hle) (hrest.mono hle)

end

end

/-! ## Reading them -/

lemma EncodesPrimitive.holds {name : String} {v : Value} {w : List UInt8}
    (h : EncodesPrimitive name v w) : HoldsPrimitive name w v := by
  cases h with
  | int n => exact .int n
  | word n => exact .word n
  | long n => exact .long n
  | double d => exact .double d
  | bool b => exact .bool b
  | string h => exact .string (isOctetString_write h)
  | bytes h => exact .bytes (isOctetString_write h)
  | int128 h => exact .int128 h
  | int256 h => exact .int256 h
  | int512 h => exact .int512 h
  | strlong h => exact .strlong h

section

variable {s : Schema} (limits : Limits)

mutual

/-- Octets are read as the value that they write. -/
lemma reads_value (hs : s.HasDistinctIds) (hgates : GatesResolve s) {levels : ℕ} {e : TypeExpr}
    {v : Value} {w : List UInt8} :
    Encodes s levels e v w → Reads (value s limits levels e) w v
  | .primitive hr hv => by
      obtain ⟨read, hread, hreads⟩ := reads_primitive hv.holds
      rwa [value, valueWith_named, hr, readMeaning, hread, Option.getD_some]
  | .boxed hr hc hadmits hid hv => by
      have hcandidate : Choice.candidate? s _ _ = some _ :=
        Option.filter_eq_some_iff.2 ⟨hs.byId?_eq hc, hadmits⟩
      rw [value, valueWith_named, hr, readMeaning, boxed]
      refine reads_bind (reads_uint32 _) ?_
      rw [if_neg hid, hcandidate]
      exact reads_bare hs hgates hc hv
  | .bare hr hv => by
      rw [value, valueWith_named, hr]
      exact reads_bare hs hgates (mem_of_meaning_bare hr) hv
  | .boxedVector helem hcount helems => by
      have hread := reads_boxedVector limits.maxInflated (reads_all hs hgates helems) hcount
      rw [value, valueWith_vector _ _ _ helem, vector]
      exact reads_bind_pure hread rfl
  | .bareVector helem hcount helems => by
      have hread := reads_bareVector (reads_all hs hgates helems) hcount
      rw [value, valueWith_vector _ _ _ helem, vector]
      exact reads_bind_pure hread rfl

lemma reads_all (hs : s.HasDistinctIds) (hgates : GatesResolve s) {levels : ℕ} {elem : TypeExpr}
    {items : List Value} {ws : List (List UInt8)} :
    EncodesAll s levels elem items ws →
      List.Forall₂ (Reads (value s limits levels elem)) ws items
  | .nil => .nil
  | .cons hv helems => .cons (reads_value hs hgates hv) (reads_all hs hgates helems)

lemma reads_bare (hs : s.HasDistinctIds) (hgates : GatesResolve s) {levels : ℕ} {c : Constructor}
    {v : Value} {w : List UInt8} (hc : c ∈ s.constructors) :
    EncodesBare s levels c v w → Reads (bare s limits levels c) w v
  | .record hform hfields => by
      have hread := reads_fields hs hgates hfields (agrees_nil _) (hgates c hc)
      unfold bare
      refine reads_bind_pure hread ?_
      rw [hform]
      rfl

/-- The words that are read on the way are those that were written. -/
lemma reads_fields (hs : s.HasDistinctIds) (hgates : GatesResolve s) {levels : ℕ} {c : Constructor}
    {words : String → UInt32} {fs : List Field} {entries : List (String × Value)} {w : List UInt8}
    {named : Words} :
    EncodesFields s levels c words fs entries w → Agrees words named →
      Resolves (named.map (·.1)) fs →
        Reads (fields limits.minRandom (value s limits levels) c fs named) w entries
  | .nil, _, _ => reads_pure []
  | .flagWord (f := f) hkind hgate hrest, hnamed, hfs => by
      have hopen : isOpen named f = true := by
        rw [isOpen, hgate]
        rfl
      have hread := reads_fields hs hgates hrest (hnamed.append fun _ => rfl)
        (hfs.behind_word hkind (words f.name))
      simp only [fields, hopen, hkind, if_true]
      exact reads_bind (reads_uint32 _) hread
  | .absent (f := f) hkind hgate hrest, hnamed, hfs => by
      have hopen : isOpen named f = false := by rw [isOpen_eq_isPresent hnamed hfs.1, hgate]
      have hread := reads_fields hs hgates hrest hnamed (hfs.behind_other hkind)
      simp only [fields, hopen, Bool.false_eq_true, if_false]
      cases hf : f.kind with
      | flagWord => exact absurd hf hkind
      | presence => exact hread
      | value type => exact hread
  | .presence (f := f) hkind hgate hrest, hnamed, hfs => by
      have hopen : isOpen named f = true := by rw [isOpen_eq_isPresent hnamed hfs.1, hgate]
      have hread := reads_fields hs hgates hrest hnamed (hfs.behind_other (by simp [hkind]))
      simp only [fields, hopen, hkind, if_true]
      exact reads_bind_pure hread rfl
  | .value (f := f) hkind hgate htreated hv hrest, hnamed, hfs => by
      have hopen : isOpen named f = true := by rw [isOpen_eq_isPresent hnamed hfs.1, hgate]
      have hread := reads_fields hs hgates hrest hnamed (hfs.behind_other (by simp [hkind]))
      simp only [fields, hopen, hkind, if_true, shown_of_untreated htreated, bind_assoc, pure_bind]
      exact reads_bind (reads_value hs hgates hv) (reads_bind_pure hread rfl)

end

end

/-! ## Decoders -/

/-- **Reading inverts writing.**  A decoder that goes down deep enough reads octets that write a
value of a type as this value and ends right behind them, whatever stands before and behind. -/
theorem readType_encoded {s : Schema} {limits : Limits} {b : Builder} {d : Decoder}
    (hb : b.build = .ok s) (hd : Decoder.ofSchema s limits = .ok d) {type : String} {e : TypeExpr}
    (he : TypeExpr.read type.toList = .ok e) (hknown : isKnown s e.leaf = true) {levels : ℕ}
    {v : Value} {w : List UInt8} (hv : Encodes s levels e v w) (hlevels : levels ≤ limits.maxDepth)
    {c : Cursor} {suffix : List UInt8} (hc : c.rest = w ++ suffix) :
    ∃ after, d.readType type c = .done v after ∧ after.buffer = c.buffer ∧
      after.pos = c.pos + w.length ∧ after.rest = suffix := by
  have hs := Schema.hasDistinctIds_of_build hb
  have hgates := gatesResolve_of_ofSchema hb hd
  have hholds : c.Holds w := ⟨suffix, hc.symm⟩
  have hread : readType s limits type c = .done v (c.advance w.length hholds.length_le) := by
    simp only [readType, he, hknown, if_true]
    exact reads_value limits hs hgates (hv.mono hlevels) c hholds
  refine ⟨c.advance w.length hholds.length_le, ?_, rfl, rfl, ?_⟩
  · rw [(Decoder.eq_direct_of_build hb hd).2 type, hread]
  · rw [Cursor.rest_advance, hc, List.drop_left]

/-! ### A row of one text -/

section

/-- The type of formatted texts. -/
def richTextRef : TypeRef :=
  ⟨"RichText", false, false⟩

/-- A text without format. -/
def plainText : Constructor :=
  ⟨"textPlain", 0x744694E0, "RichText",
    [⟨"text", .value (.named ⟨"string", true, false⟩), none⟩], false⟩

/-- A row of texts, behind a gate. -/
def concatText : Constructor :=
  ⟨"textConcat", 0x7E6260D7, "RichText",
    [⟨"flags", .flagWord, none⟩,
      ⟨"texts", .value (.vector true (.named richTextRef)), some ⟨"flags", 0⟩⟩], false⟩

/-- What the schema of formatted texts says about them. -/
structure HasRichText (s : Schema) : Prop where
  string : meaning s ⟨"string", true, false⟩ = .primitive "string"
  richText : meaning s richTextRef = .tagged (.type "RichText")
  known : isKnown s richTextRef = true
  plain : plainText ∈ s.constructors ∧ (Choice.type "RichText").admits s plainText = true
  concat : concatText ∈ s.constructors ∧ (Choice.type "RichText").admits s concatText = true

lemma exists_hasRichText : ∃ s d, Decoder.richText.build = .ok s ∧
    Decoder.ofSchema s {} = .ok d ∧ HasRichText s := by
  have hall : (Decoder.richText.build.toOption.any fun s =>
      (Decoder.ofSchema s {}).toOption.isSome &&
        decide (meaning s ⟨"string", true, false⟩ = .primitive "string" ∧
          meaning s richTextRef = .tagged (.type "RichText") ∧ isKnown s richTextRef = true ∧
          (plainText ∈ s.constructors ∧ (Choice.type "RichText").admits s plainText = true) ∧
          concatText ∈ s.constructors ∧
            (Choice.type "RichText").admits s concatText = true)) = true := by
    decide +kernel
  obtain ⟨s, hs, hall⟩ := (Option.any_eq_true _ _).1 hall
  obtain ⟨hd, hfacts⟩ := Bool.and_eq_true_iff.1 hall
  obtain ⟨d, hd⟩ := Option.isSome_iff_exists.1 hd
  obtain ⟨hstring, hrichText, hknown, hplain, hconcat⟩ := of_decide_eq_true hfacts
  exact ⟨s, d, eq_ok_of_toOption hs, eq_ok_of_toOption hd,
    ⟨hstring, hrichText, hknown, hplain, hconcat⟩⟩

/-- The octets of a row of one text; of its flag word, bits that gate nothing are set as well. -/
lemma encodes_concatText {s : Schema} (hs : HasRichText s) : ∃ w,
    Encodes s 5 (.named richTextRef)
      (.record "textConcat" [("texts", .vector [.record "textPlain" [("text", .string "hi")]])])
      w := by
  have hstring : Encodes s 0 (.named ⟨"string", true, false⟩) (.string "hi") (Write.string "hi") :=
    .primitive hs.string (.string (by decide))
  have htext : EncodesFields s 0 plainText (fun _ => 0) plainText.fields [("text", .string "hi")]
      (Write.string "hi" ++ []) :=
    .value rfl rfl (by decide) hstring .nil
  have hplain := Encodes.boxed hs.richText hs.plain.1 hs.plain.2 (by decide)
    (.record (by decide) htext)
  have hrow := Encodes.boxedVector (by decide) (by decide) (.cons hplain .nil)
  have htexts : EncodesFields s 3 concatText (fun _ => 0xFF) concatText.fields _ _ :=
    .flagWord rfl rfl (.value rfl (by decide) (by decide) hrow .nil)
  exact ⟨_, .boxed hs.richText hs.concat.1 hs.concat.2 (by decide) (.record (by decide) htexts)⟩

theorem concatText_encoded : ∃ s d v w after, Decoder.richText.build = .ok s ∧
    Decoder.ofSchema s {} = .ok d ∧ Encodes s 5 (.named richTextRef) v w ∧
      d.readType "RichText" (Cursor.start (w ++ [9])) = .done v after ∧ after.rest = [9] := by
  obtain ⟨s, d, hs, hd, hhas⟩ := exists_hasRichText
  obtain ⟨w, hw⟩ := encodes_concatText hhas
  have htype : TypeExpr.read "RichText".toList = .ok (.named richTextRef) := by decide +kernel
  obtain ⟨after, hread, -, -, hrest⟩ :=
    readType_encoded hs hd htype hhas.known hw (by decide) (Cursor.rest_start (w ++ [9]))
  exact ⟨s, d, _, w, after, hs, hd, hw, hread, hrest⟩

end

end TypeLang.Direct
