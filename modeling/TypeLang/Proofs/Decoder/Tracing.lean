import TypeLang.Proofs.Decoder.Resolution
import TypeLang.Proofs.Wire.Forward
import TypeLang.Proofs.Wire.Trace

/-!
# Traces of reading by the schema

The trace of a reading by the schema follows the reading part by part.  A flag word appears in it
with the bits that gate a field of its constructor: those of the gates that name it, and none if an
earlier word of the constructor has its name.  What comes out of an envelope is a wire of its own,
so its events are not listed, only whether it could be read.

`Traced` relates readers to their traces, by the ways in which a decoder puts readers together.  It
also says of a reader whether it stands behind a tag: only there may a tag be reported, or an
envelope be opened.  The laws of traces go by induction on it; the walk along the decoder is made
here, once (`traced_answer`).
-/

namespace TypeLang

open Wire

/-! ## Traces along the schema -/

namespace Direct

section

variable (s : Schema) (limits : Limits)

/-- What happens while a type is read that needs no schema. -/
def primitiveTrace (name : String) : Trace :=
  if name = "bytes" ∨ name = "string" then .octets else .silent

/-- What happens while a value of a named type is read. -/
def meaningTrace (boxed : Choice → Trace) (bare : Constructor → Trace) : Meaning → Trace
  | .primitive name => primitiveTrace name
  | .tagged choice => boxed choice
  | .bare c => bare c
  | .unknown => .silent

/-- What happens while a value of a type expression is read. -/
def valueTraceWith (boxed : Choice → Trace) (bare : Constructor → Trace)
    (vector : Bool → TypeExpr → Trace) : TypeExpr → Trace
  | .named r => meaningTrace boxed bare (meaning s r)
  | .vector b elem => vector b elem

/-- The bits of a flag word that gate a field, behind other words. -/
def gatingBits (c : Constructor) (words : Words) (name : String) : List ℕ :=
  if (words.lookup name).isSome then []
  else (c.fields.filterMap (·.gate)).filterMap fun bit =>
    if bit.word = name then some bit.bit else none

section

variable (read : TypeExpr → Reader Value) (trace : TypeExpr → Trace) (c : Constructor)

/-- What happens while a value is read under a name. -/
def shownTrace (name : String) (type : TypeExpr) : Trace :=
  if Plan.isOctets type && name == "random_bytes" then .random limits.minRandom
  else if Plan.isOctets type && name == "waveform" then .octets
  else if Plan.isOctets type && c.predicate == "photoStrippedSize" && name == "bytes" then .octets
  else trace type

/-- What happens while fields are read behind some words. -/
def fieldsTrace : List Field → Words → Trace
  | [], _ => .silent
  | f :: rest, words =>
    if isOpen words f then
      match f.kind with
      | .flagWord =>
        .word (gatingBits c words f.name) fun word => fieldsTrace rest (words ++ [(f.name, word)])
      | .presence => fieldsTrace rest words
      | .value type =>
        (shownTrace limits trace c f.name type).andThen
          (shown limits.minRandom read c f.name type) fun _ => fieldsTrace rest words
    else
      match f.kind with
      | .flagWord => fieldsTrace rest (words ++ [(f.name, 0)])
      | _ => fieldsTrace rest words

end

/-- What happens while a tag is read and what it announces. -/
def announcedTrace (choice : Choice) (bare : Constructor → Trace) (again : Reader Value) : Trace :=
  Trace.silent.andThen Reader.uint32 fun tag =>
    if tag = Tag.gzipPacked then .opened limits.maxInflated again
    else
      match choice.candidate? s tag with
      | some c => bare c
      | none => .silent

mutual

/-- What happens while `boxed` reads. -/
def boxedTrace : (levels : ℕ) → Choice → Trace
  | 0, _ => .silent
  | levels + 1, choice =>
    announcedTrace s limits choice (bareTrace levels) (boxed s limits levels choice)

/-- What happens while `bare` reads. -/
def bareTrace : (levels : ℕ) → Constructor → Trace
  | 0, _ => .silent
  | levels + 1, c =>
    fieldsTrace limits (value s limits levels)
      (valueTraceWith s (boxedTrace levels) (bareTrace levels) (vectorTrace levels)) c c.fields []

/-- What happens while `vector` reads. -/
def vectorTrace : (levels : ℕ) → Bool → TypeExpr → Trace
  | 0, _, _ => .silent
  | levels + 1, boxedVector, elem =>
    let trace :=
      valueTraceWith s (boxedTrace levels) (bareTrace levels) (vectorTrace levels) elem
    if boxedVector then .boxedVector limits.maxInflated (value s limits levels elem) trace
    else .bareVector (value s limits levels elem) trace

end

/-- What happens while a value of a type expression is read, within some levels. -/
def valueTrace (levels : ℕ) : TypeExpr → Trace :=
  valueTraceWith s (boxedTrace s limits levels) (bareTrace s limits levels)
    (vectorTrace s limits levels)

/-- What happens while a decoder of the schema answers. -/
def answerTrace : Decoder.Request → Trace
  | .object => boxedTrace s limits limits.maxDepth .standalone
  | .type text =>
    match TypeExpr.read text.toList with
    | .error _ => .silent
    | .ok e => if isKnown s e.leaf then valueTrace s limits limits.maxDepth e else .silent

end

end Direct

/-! ## Readers with their traces -/

/-- Readers, put together as decoders put them together, with their traces; either anywhere or right
behind a tag.  Whatever has a fixed size takes whole words of four octets. -/
inductive Traced (limits : Limits) : {α : Type} → Option UInt32 → Reader α → Trace → Prop
  | pure {α : Type} (a : α) : Traced limits none (pure a) .silent
  | content {α : Type} (predicate : String) (cause : ContentCause) :
      Traced limits none (Reader.fail (.content predicate cause) : Reader α) .silent
  | tooDeep {α : Type} : Traced limits none (Decoder.tooDeep limits : Reader α) .silent
  | take (n : ℕ) (hn : 4 ∣ n) : Traced limits none (Reader.take n) .silent
  | count : Traced limits none Reader.count .silent
  | bytes : Traced limits none Reader.bytes .octets
  | randomBytes :
      Traced limits none (Reader.randomBytes limits.minRandom) (.random limits.minRandom)
  | bind {α β : Type} {r : Reader α} {f : α → Reader β} {t : Trace} {next : α → Trace}
      (hr : Traced limits none r t) (hf : ∀ a, Traced limits none (f a) (next a)) :
      Traced limits none (r >>= f) (t.andThen r next)
  /-- Words that have the same gating bits are gone on from alike. -/
  | word {α : Type} {f : UInt32 → Reader α} {next : UInt32 → Trace} (gating : List ℕ)
      (hf : ∀ word, Traced limits none (f word) (next word))
      (hgating : ∀ word word' : UInt32,
        (∀ bit ∈ gating, word.toNat.testBit bit = word'.toNat.testBit bit) →
          f word = f word' ∧ next word = next word') :
      Traced limits none (Reader.uint32 >>= f) (.word gating next)
  | tag {α : Type} {f : UInt32 → Reader α} {next : UInt32 → Trace}
      (hf : ∀ tag, Traced limits (some tag) (f tag) (next tag)) :
      Traced limits none (Reader.uint32 >>= f) (Trace.silent.andThen Reader.uint32 next)
  | anywhere {α : Type} {r : Reader α} {t : Trace} (tag : UInt32) (h : Traced limits none r t) :
      Traced limits (some tag) r t
  | unknownTag {α : Type} (tag : UInt32) (expected : String) :
      Traced limits (some tag) (Reader.unknownTag expected : Reader α) .silent
  | packed {α : Type} {inner : Reader α} {t : Trace} (hinner : Traced limits none inner t) :
      Traced limits (some Tag.gzipPacked)
        (Reader.opened limits.maxInflated >>= fun octets => Reader.within octets inner)
        (.opened limits.maxInflated inner)

namespace Traced

variable {limits : Limits} {α β : Type} {r : Reader α} {t : Trace} {tag? : Option UInt32}

lemma forward (h : Traced limits tag? r t) : Forward r := by
  induction h with
  | pure a => exact .pure a
  | content predicate cause => exact .fail _
  | tooDeep => exact .bind .position fun _ => .fail _
  | take n _ => exact .take n
  | count => exact .count
  | bytes => exact .bytes
  | randomBytes => exact .randomBytes _
  | bind _ _ ihr ihf => exact .bind ihr ihf
  | word _ _ _ ih => exact .bind .uint32 ih
  | tag _ ih => exact .bind .uint32 ih
  | anywhere _ _ ih => exact ih
  | unknownTag _ expected => exact .unknownTag expected
  | packed _ ih => exact .bind (.opened _) fun octets => .within octets ih

/-! ## Combining -/

/-- What is done with a value after it has been read leaves no trace. -/
lemma bind_still {f : α → Reader β} (hr : Traced limits none r t)
    (hf : ∀ a, Traced limits none (f a) .silent) : Traced limits none (r >>= f) t := by
  have h := hr.bind hf
  rwa [Trace.andThen_silent] at h

lemma bind_pure (hr : Traced limits none r t) (g : α → β) :
    Traced limits none (r >>= fun a => Pure.pure (g a)) t :=
  hr.bind_still fun _ => .pure _

/-- A tag and whether it is one of those that are expected. -/
lemma tag_still {f : UInt32 → Reader α} (hf : ∀ tag, Traced limits (some tag) (f tag) .silent) :
    Traced limits none (Reader.uint32 >>= f) .silent := by
  have h := Traced.tag hf
  rwa [Trace.andThen_silent] at h

lemma ite {p : Prop} [Decidable p] {r' : Reader α} {t' : Trace} (hr : p → Traced limits tag? r t)
    (hr' : ¬p → Traced limits tag? r' t') :
    Traced limits tag? (if p then r else r') (if p then t else t') := by
  by_cases h : p
  · rw [if_pos h, if_pos h]
    exact hr h
  · rw [if_neg h, if_neg h]
    exact hr' h

lemma ofExcept {x : Except Fault α}
    (h : ∀ fault, x = .error fault → ∃ predicate cause, fault = .content predicate cause) :
    Traced limits none (Reader.ofExcept x) .silent := by
  cases x with
  | ok a => exact .pure a
  | error fault =>
      obtain ⟨predicate, cause, rfl⟩ := h fault rfl
      exact .content predicate cause

/-! ## Primitive forms -/

lemma number {width : ℕ} (hwidth : 4 ∣ width) : Traced limits none (Reader.number width) .silent :=
  (take width hwidth).bind_pure _

lemma uint32 : Traced limits none Reader.uint32 .silent :=
  (number (by decide)).bind_pure _

lemma int32 : Traced limits none Reader.int32 .silent :=
  (number (by decide)).bind_pure _

lemma int64 : Traced limits none Reader.int64 .silent :=
  (number (by decide)).bind_pure _

lemma double : Traced limits none Reader.double .silent :=
  (number (by decide)).bind_pure _

lemma bool : Traced limits none Reader.bool .silent := by
  refine tag_still fun tag => ?_
  split_ifs
  · exact .anywhere tag (.pure _)
  · exact .anywhere tag (.pure _)
  · exact .unknownTag tag "Bool"

lemma string : Traced limits none Reader.string .octets := by
  refine bytes.bind_still fun octets => ?_
  cases Text.unutf8 octets with
  | ok chars => exact .pure _
  | error fault => exact .content "string" (.utf8 fault)

lemma primitive {name : String} {read : Reader Value}
    (h : Direct.primitive? name = some read) :
    Traced limits none read (Direct.primitiveTrace name) := by
  unfold Direct.primitive? at h
  split at h <;> cases h
  · exact int32.bind_pure _
  · exact int32.bind_pure _
  · exact int64.bind_pure _
  · exact double.bind_pure _
  · exact bool.bind_pure _
  · exact string.bind_pure _
  · exact bytes.bind_pure _
  all_goals exact (take _ (by decide)).bind_pure _

/-! ## Rows and vectors -/

section

variable (h : Traced limits none r t)

include h

lemma items (n : ℕ) : Traced limits none (Reader.items r n) (.items r t n) := by
  induction n with
  | zero => exact .pure []
  | succ n ih =>
      rw [Reader.items_succ]
      exact h.bind fun a => ih.bind_pure _

lemma bareVector : Traced limits none (Reader.bareVector r) (.bareVector r t) :=
  count.bind h.items

lemma boxedVector :
    Traced limits none (Reader.boxedVector limits.maxInflated r)
      (.boxedVector limits.maxInflated r t) := by
  have hcontent : Traced limits none (Reader.afterVectorTag (Reader.bareVector r))
      (Trace.silent.andThen Reader.uint32 fun tag =>
        if tag = Tag.vector then .bareVector r t else .silent) :=
    .tag fun tag => .ite (fun _ => .anywhere tag h.bareVector) fun _ => .unknownTag tag "Vector"
  refine .tag fun tag => .ite (fun _ => .anywhere tag h.bareVector) fun _ => ?_
  refine .ite (fun hpacked => ?_) fun _ => .unknownTag tag "Vector"
  exact hpacked ▸ .packed hcontent

end

end Traced

/-! ## Flag words and gates -/

namespace Direct

variable {s : Schema} {limits : Limits}

/-- Words under the same names that open the same gates of a constructor. -/
structure OpenAlike (c : Constructor) (words words' : Words) : Prop where
  names : ∀ name, (words.lookup name).isSome = (words'.lookup name).isSome
  masked : ∀ f ∈ c.fields, ∀ bit ∈ f.gate,
    (words.lookup bit.word).getD 0 &&& bit.mask = (words'.lookup bit.word).getD 0 &&& bit.mask

lemma and_mask_congr {word word' : UInt32} {bit : Declaration.FlagBit}
    (h : word.toNat.testBit bit.bit = word'.toNat.testBit bit.bit) :
    word &&& bit.mask = word' &&& bit.mask := by
  unfold Declaration.FlagBit.mask
  split_ifs with hlt
  · have hmask : (UInt32.ofNat (Nat.pow 2 bit.bit)).toNat = 2 ^ bit.bit := by
      rw [UInt32.toNat_ofNat']
      exact Nat.mod_eq_of_lt (Nat.pow_lt_pow_right (by decide) hlt)
    rw [← UInt32.toNat_inj, UInt32.toNat_and, UInt32.toNat_and, hmask]
    refine Nat.eq_of_testBit_eq fun i => ?_
    rw [Nat.testBit_and, Nat.testBit_and, Nat.testBit_two_pow]
    by_cases hi : bit.bit = i
    · rw [← hi, h]
    · simp [hi]
  · rw [UInt32.and_zero, UInt32.and_zero]

section

variable {c : Constructor} {words words' : Words}

/-- A word behind words that open the same gates opens the same gates. -/
lemma OpenAlike.append (h : OpenAlike c words words') (last : String × UInt32) :
    OpenAlike c (words ++ [last]) (words' ++ [last]) := by
  refine ⟨fun name => ?_, fun f hf bit hbit => ?_⟩
  · rw [List.lookup_append, List.lookup_append, Option.isSome_or, Option.isSome_or, h.names]
  · have hnames := h.names bit.word
    have hmasked := h.masked f hf bit hbit
    rw [List.lookup_append, List.lookup_append]
    cases hw : words.lookup bit.word <;> cases hw' : words'.lookup bit.word <;>
      simp_all

/-- A word is looked at in its gating bits only. -/
lemma openAlike_of_gating {name : String} {word word' : UInt32}
    (h : ∀ bit ∈ gatingBits c words name, word.toNat.testBit bit = word'.toNat.testBit bit) :
    OpenAlike c (words ++ [(name, word)]) (words ++ [(name, word')]) := by
  refine ⟨fun other => ?_, fun f hf bit hbit => ?_⟩
  · rw [List.lookup_append, List.lookup_append, Option.isSome_or, Option.isSome_or]
    by_cases hother : other = name <;> simp [List.lookup_cons, hother, beq_false_of_ne]
  · rw [List.lookup_append, List.lookup_append]
    cases hw : words.lookup bit.word with
    | some earlier => simp
    | none =>
        by_cases hname : bit.word = name
        · have hmem : bit.bit ∈ gatingBits c words name := by
            unfold gatingBits
            rw [← hname, hw, if_neg (by simp)]
            simp only [List.mem_filterMap]
            exact ⟨bit, ⟨f, hf, hbit⟩, if_pos rfl⟩
          simpa [hname] using and_mask_congr (h bit.bit hmem)
        · simp [List.lookup_cons, beq_false_of_ne hname]

lemma OpenAlike.isOpen_eq (h : OpenAlike c words words') {f : Field} (hf : f ∈ c.fields) :
    isOpen words f = isOpen words' f := by
  unfold isOpen
  cases hgate : f.gate with
  | none => rfl
  | some bit => simp only [Option.all_some, h.masked f hf bit hgate]

lemma OpenAlike.gatingBits_eq (h : OpenAlike c words words') (name : String) :
    gatingBits c words name = gatingBits c words' name := by
  rw [gatingBits, gatingBits, h.names]

/-- Behind words that open the same gates, the same fields are read, with the same trace. -/
lemma OpenAlike.fields_eq (h : OpenAlike c words words') (read : TypeExpr → Reader Value)
    (trace : TypeExpr → Trace) {fs : List Field} (hfs : fs ⊆ c.fields) :
    fields limits.minRandom read c fs words = fields limits.minRandom read c fs words' ∧
      fieldsTrace limits read trace c fs words = fieldsTrace limits read trace c fs words' := by
  induction fs generalizing words words' with
  | nil => exact ⟨rfl, rfl⟩
  | cons f rest ih =>
      obtain ⟨hf, hrest⟩ := List.cons_subset.1 hfs
      have hopen := h.isOpen_eq hf
      simp only [fields, fieldsTrace, hopen]
      split_ifs
      · cases f.kind with
        | flagWord =>
            have hnext word := ih (h.append (f.name, word)) hrest
            simp only [hnext, h.gatingBits_eq, and_self]
        | presence => simp only [ih h hrest, and_self]
        | value type => simp only [ih h hrest, and_self]
      · cases f.kind with
        | flagWord => exact ih (h.append (f.name, 0)) hrest
        | presence => exact ih h hrest
        | value type => exact ih h hrest

end

/-! ## Values, fields and announced constructors -/

lemma meaning_ne_unknown {r : TypeRef} (h : isKnown s r = true) : meaning s r ≠ .unknown := by
  unfold isKnown at h
  unfold meaning
  split_ifs with hgeneric hprimitive hobject hbare
  · simp
  · simp
  · simp
  · simp only [hgeneric, hprimitive, beq_false_of_ne hobject, hbare, Bool.false_or, if_true] at h
    obtain ⟨c, hc⟩ := Option.isSome_iff_exists.1 h
    simp [hc]
  · simp

section

variable {boxed : Choice → Reader Value} {bare : Constructor → Reader Value}
  {vector : Bool → TypeExpr → Reader (List Value)} {boxedT : Choice → Trace}
  {bareT : Constructor → Trace} {vectorT : Bool → TypeExpr → Trace}

lemma traced_objectOf (read : List Value) :
    Traced limits none (Reader.ofExcept (Decoder.objectOf read)) .silent := by
  refine .ofExcept fun fault h => ?_
  unfold Decoder.objectOf at h
  split at h <;> cases h
  exact ⟨_, _, rfl⟩

lemma traced_assemble (predicate : String) (form : Form) (read : List (String × Value)) :
    Traced limits none (Reader.ofExcept (Decoder.assemble predicate form read)) .silent := by
  refine .ofExcept fun fault h => ?_
  unfold Decoder.assemble at h
  cases form with
  | record => cases h
  | content => cases h
  | peer kind =>
      simp only at h
      split at h <;> cases h
      exact ⟨_, _, rfl⟩
  | jsonText =>
      simp only at h
      split at h
      · cases h
        exact ⟨_, _, rfl⟩
      · split at h <;> cases h
        exact ⟨_, _, rfl⟩

variable (hboxed : ∀ choice, Traced limits none (boxed choice) (boxedT choice))
  (hbare : ∀ c ∈ s.constructors, Traced limits none (bare c) (bareT c))

include hbare

include hboxed in
lemma traced_meaning {r : TypeRef} (hr : isKnown s r = true) :
    Traced limits none (named s boxed bare r) (meaningTrace boxedT bareT (meaning s r)) := by
  rw [named_eq]
  cases hmeaning : meaning s r with
  | tagged choice => exact hboxed choice
  | bare c => exact hbare c (mem_of_meaning_bare hmeaning)
  | unknown => exact absurd hmeaning (meaning_ne_unknown hr)
  | primitive name =>
      have hname : (primitive? name).isSome := by
        unfold meaning at hmeaning
        split_ifs at hmeaning with _ hsome
        · cases hmeaning
          exact hsome
        · cases hbare? : s.bare? r.name <;> simp [hbare?] at hmeaning
      obtain ⟨read, hread⟩ := Option.isSome_iff_exists.1 hname
      simp only [readMeaning, meaningTrace, hread, Option.getD_some]
      exact .primitive hread

include hboxed in
lemma traced_valueWith
    (hvector : ∀ b elem, isKnown s elem.leaf = true →
      Traced limits none (vector b elem) (vectorT b elem))
    {e : TypeExpr} (he : isKnown s e.leaf = true) :
    Traced limits none (valueWith s boxed bare vector e)
      (valueTraceWith s boxedT bareT vectorT e) := by
  cases e with
  | named r => exact traced_meaning hboxed hbare he
  | vector b elem =>
      simp only [valueWith]
      split_ifs
      · exact (hvector b elem he).bind_still traced_objectOf
      · exact (hvector b elem he).bind_pure _

lemma traced_announced {choice : Choice} {again : Reader Value} {t : Trace}
    (hagain : Traced limits none again t) :
    Traced limits none (announced s limits.maxInflated choice bare again)
      (announcedTrace s limits choice bareT again) := by
  refine .tag fun tag => .ite (fun hpacked => hpacked ▸ .packed hagain) fun _ => ?_
  cases hc : choice.candidate? s tag with
  | none => exact .unknownTag tag _
  | some c =>
      exact .anywhere tag (hbare c (Schema.mem_of_byId? (Option.filter_eq_some_iff.1 hc).1))

omit hbare

variable {read : TypeExpr → Reader Value} {trace : TypeExpr → Trace}
  (hread : ∀ type, isKnown s type.leaf = true → Traced limits none (read type) (trace type))

include hread

lemma traced_shown (c : Constructor) (name : String) {type : TypeExpr}
    (htype : isKnown s type.leaf = true) :
    Traced limits none (shown limits.minRandom read c name type)
      (shownTrace limits trace c name type) := by
  refine .ite (fun _ => Traced.randomBytes.bind_pure _) fun _ => .ite (fun _ => ?_) fun _ =>
    .ite (fun _ => ?_) fun _ => (hread type htype).bind_pure _
  · exact Traced.bytes.bind_pure _
  · exact Traced.bytes.bind_pure _

lemma traced_fields {c : Constructor} {fs : List Field} (hfs : fs ⊆ c.fields)
    (hknown : ∀ f ∈ fs, ∀ type, f.kind = .value type → isKnown s type.leaf = true)
    (words : Words) :
    Traced limits none (fields limits.minRandom read c fs words)
      (fieldsTrace limits read trace c fs words) := by
  induction fs generalizing words with
  | nil => exact .pure []
  | cons f rest ih =>
      have hrest : rest ⊆ c.fields := (List.cons_subset.1 hfs).2
      have hlater words := ih hrest (fun g hg => hknown g (List.mem_cons_of_mem _ hg)) words
      unfold fields fieldsTrace
      split_ifs
      · cases hkind : f.kind with
        | flagWord =>
            refine .word _ (fun word => hlater _) fun word word' h => ?_
            exact (openAlike_of_gating h).fields_eq read trace hrest
        | presence => exact (hlater words).bind_pure _
        | value type =>
            have htype := hknown f (List.mem_cons_self ..) type hkind
            exact (traced_shown hread c f.name htype).bind fun _ => (hlater words).bind_pure _
      · cases f.kind with
        | flagWord => exact hlater _
        | presence => exact hlater _
        | value type => exact hlater _

end

/-! ## Levels -/

/-- Every type that a schema refers to has a meaning in it. -/
def KnowsTypes (s : Schema) : Prop :=
  ∀ c ∈ s.constructors, ∀ f ∈ c.fields, ∀ type, f.kind = .value type →
    isKnown s type.leaf = true

lemma knowsTypes_of_finished {p : Plan} (hp : Plan.Finished s p) : KnowsTypes s := by
  intro c hc f hf type hkind
  obtain ⟨n, b, -, hb, -⟩ := hp.member ⟨c, hc⟩
  obtain ⟨steps, hsteps, -⟩ := bind_eq_ok.1 hb
  by_contra hunknown
  have hobstructed : Plan.Obstructed s c [] c.fields (.unknownType type.leaf.name) :=
    Plan.obstructed_of_mem hkind (by simpa using hunknown) hf
  exact Plan.not_obstructed_of_fieldSteps hp hsteps _ hobstructed

lemma traced_levels (hs : KnowsTypes s) (limits : Limits) (levels : ℕ) :
    (∀ choice, Traced limits none (boxed s limits levels choice)
        (boxedTrace s limits levels choice)) ∧
      (∀ c ∈ s.constructors, Traced limits none (bare s limits levels c)
        (bareTrace s limits levels c)) ∧
        ∀ b elem, isKnown s elem.leaf = true →
          Traced limits none (vector s limits levels b elem)
            (vectorTrace s limits levels b elem) := by
  induction levels with
  | zero => exact ⟨fun _ => .tooDeep, fun _ _ => .tooDeep, fun _ _ _ => .tooDeep⟩
  | succ levels ih =>
      obtain ⟨hboxed, hbare, hvector⟩ := ih
      have hvalue : ∀ e, isKnown s e.leaf = true →
          Traced limits none (value s limits levels e) (valueTrace s limits levels e) :=
        fun e he => traced_valueWith hboxed hbare hvector he
      refine ⟨fun choice => ?_, fun c hc => ?_, fun b elem helem => ?_⟩
      · exact traced_announced hbare (hboxed choice)
      · have hfields := traced_fields hvalue (List.Subset.refl c.fields) (hs c hc) []
        exact hfields.bind_still fun read => traced_assemble _ _ read
      · have hvector := hvalue elem helem
        exact .ite (fun _ => hvector.boxedVector) fun _ => hvector.bareVector

/-- What a decoder answers is traced, or the text that it is asked for names no known type. -/
lemma traced_answer {b : Builder} {limits : Limits} {d : Decoder} (hb : b.build = .ok s)
    (hd : Decoder.ofSchema s limits = .ok d) (request : Decoder.Request) :
    Traced limits none (d.answer request) (answerTrace s limits request) ∨
      ∃ name, d.answer request = Reader.fail (.unknownType name) ∧
        answerTrace s limits request = .silent := by
  have hfinished : ∃ p, Plan.Finished s p := by
    obtain ⟨p, hp, -⟩ := Decoder.ofSchema_eq_ok hd
    exact ⟨p, Plan.finished_of_compile (Schema.hasDistinctIds_of_build hb) hp⟩
  obtain ⟨hobject, htype⟩ := Decoder.eq_direct_of_build hb hd
  have hs := hfinished.elim fun p hp => knowsTypes_of_finished hp
  obtain ⟨hboxed, hbare, hvector⟩ := traced_levels hs limits limits.maxDepth
  cases request with
  | object =>
      refine .inl ?_
      show Traced limits none d.readObject _
      rw [hobject]
      exact hboxed .standalone
  | type text =>
      show Traced limits none (d.readType text) _ ∨ ∃ name, d.readType text = _ ∧ _
      rw [htype, readType, answerTrace]
      cases TypeExpr.read text.toList with
      | error fault => exact .inr ⟨text, rfl, rfl⟩
      | ok e =>
          simp only
          split_ifs with he
          · exact .inl (traced_valueWith hboxed hbare hvector he)
          · exact .inr ⟨e.leaf.name, rfl, rfl⟩

end Direct

end TypeLang
