import TypeLang.Proofs.Decoder.DirectCongruence
import TypeLang.Proofs.Decoder.Limits
import TypeLang.Proofs.Decoder.Meaning
import TypeLang.Proofs.Wire.Deep

/-!
# What nests, and how deeply

While a wire is read, one value stands open inside another: behind a tag the constructor that it
announces, in a constructor the values of its fields, in a vector its elements, in an envelope its
content.  `Nests` walks from the first of them inwards, past whatever has been read before, and
says how many levels are taken on the way.  It mentions no limit on them.  Reading within some
levels runs out of them exactly where such a walk takes more.

Beside the levels, a walk counts what the limit is documented to count: constructors, vectors and
envelopes.  The two differ.  A tag takes a level of its own before the constructor behind it takes
one, and the envelope around a vector takes none.  So the count may be as little as half of the
levels, and the levels as little as half of the count.
-/

namespace TypeLang.Direct

open Wire

/-! ## Sites -/

/-- What may stand open while a wire is read. -/
inductive Site where
  /-- A tag that announces a candidate; `packed` if it begins the content of an envelope. -/
  | tag (packed : Bool) (choice : Choice)
  /-- A constructor after its tag. -/
  | constructor (c : Constructor)
  | vector (boxed : Bool) (elem : TypeExpr)
  /-- A boxed vector as the content of an envelope that stands in its place. -/
  | row (elem : TypeExpr)
  deriving DecidableEq, Repr

namespace Site

/-- The levels that reading takes for a site. -/
def levels : Site → ℕ
  | row _ => 0
  | _ => 1

/-- The constructors, vectors and envelopes that a site adds to those around it. -/
def counted : Site → ℕ
  | tag false _ => 0
  | _ => 1

end Site

/-- What opens where a value of some meaning begins; nothing for a primitive type. -/
def Meaning.site? : Meaning → Option Site
  | tagged choice => some (.tag false choice)
  | bare c => some (.constructor c)
  | primitive _ | unknown => none

variable (s : Schema) (limits : Limits)

/-- What opens where a value of a type expression begins. -/
def siteOf? : TypeExpr → Option Site
  | .named r => (meaning s r).site?
  | .vector boxed elem => some (.vector boxed elem)

@[simp] lemma siteOf?_named (r : TypeRef) : siteOf? s (.named r) = (meaning s r).site? := rfl

@[simp] lemma siteOf?_vector (boxed : Bool) (elem : TypeExpr) :
    siteOf? s (.vector boxed elem) = some (.vector boxed elem) := rfl

section

variable (value : TypeExpr → Reader Value)

/-- Among fields that are read from a cursor behind some words, one begins at `start` that is there
with a value of a type and is shown as it is. -/
inductive FieldBegins (c : Constructor) :
    List Field → Words → Cursor → (type : TypeExpr) → (start : Cursor) → Prop
  | here {f rest words cursor type} (hopen : isOpen words f = true) (hkind : f.kind = .value type)
      (huntreated : isTreated c f.name type = false) :
      FieldBegins c (f :: rest) words cursor type cursor
  | later {f rest words words' cursor after kept type start}
      (hf : field limits.minRandom value c f words cursor = .done (kept, words') after)
      (h : FieldBegins c rest words' after type start) :
      FieldBegins c (f :: rest) words cursor type start

/-- While one site stands open at a cursor, another opens in it, given how what comes before it is
read. -/
inductive Opens : Site → Cursor → Site → Cursor → Prop
  | announced {packed choice cursor tag after c} (htag : Reader.uint32 cursor = .done tag after)
      (hopen : tag ≠ Tag.gzipPacked) (hc : choice.candidate? s tag = some c) :
      Opens (.tag packed choice) cursor (.constructor c) after
  | enveloped {packed choice cursor octets} (h : Unpacks limits.maxInflated cursor octets) :
      Opens (.tag packed choice) cursor (.tag true choice) (.start octets)
  | field {c cursor type start site} (h : FieldBegins limits value c c.fields [] cursor type start)
      (hsite : siteOf? s type = some site) : Opens (.constructor c) cursor site start
  | element {elem cursor start site} (h : ElementBegins (value elem) cursor start)
      (hsite : siteOf? s elem = some site) : Opens (.vector false elem) cursor site start
  | boxedElement {elem cursor after start site}
      (htag : Reader.uint32 cursor = .done Tag.vector after)
      (h : ElementBegins (value elem) after start) (hsite : siteOf? s elem = some site) :
      Opens (.vector true elem) cursor site start
  | packedRow {elem cursor octets} (h : Unpacks limits.maxInflated cursor octets) :
      Opens (.vector true elem) cursor (.row elem) (.start octets)
  | rowElement {elem cursor after start site} (htag : Reader.uint32 cursor = .done Tag.vector after)
      (h : ElementBegins (value elem) after start) (hsite : siteOf? s elem = some site) :
      Opens (.row elem) cursor site start

end

/-- From a site that opens at a cursor inwards, sites nest that take `levels` levels together, and
the last of them opens at `offset`.  What lies before a site may be read within any levels. -/
inductive Nests : Site → Cursor → (levels counted offset : ℕ) → Prop
  | here (site : Site) (c : Cursor) : Nests site c site.levels site.counted c.pos
  | inside {site inner c start levels counted offset} (k : ℕ)
      (hopens : Opens s limits (value s limits k) site c inner start)
      (hinner : Nests inner start levels counted offset) :
      Nests site c (site.levels + levels) (site.counted + counted) offset

/-! ## Where a reading is deep -/

section

variable {s limits} {limit offset : ℕ} {cursor : Cursor}

lemma shallow_primitive {name : String} {read : Reader Value} (h : primitive? name = some read) :
    Shallow read := by
  unfold primitive? at h
  split at h <;> cases h
  · exact shallow_bind_pure shallow_int32 _
  · exact shallow_bind_pure shallow_int32 _
  · exact shallow_bind_pure shallow_int64 _
  · exact shallow_bind_pure shallow_double _
  · exact shallow_bind_pure shallow_bool _
  · exact shallow_bind_pure shallow_string _
  · exact shallow_bind_pure shallow_bytes _
  all_goals exact shallow_bind_pure (shallow_take _) _

lemma shallow_objectOf (read : List Value) :
    Shallow (Reader.ofExcept (Decoder.objectOf read)) := by
  refine shallow_ofExcept fun _ _ h => ?_
  unfold Decoder.objectOf at h
  split at h <;> cases h

lemma shallow_assemble (predicate : String) (form : Form) (read : List (String × Value)) :
    Shallow (Reader.ofExcept (Decoder.assemble predicate form read)) := by
  refine shallow_ofExcept fun _ _ h => ?_
  unfold Decoder.assemble at h
  cases form with
  | record => cases h
  | content => cases h
  | peer kind =>
      simp only at h
      split at h <;> cases h
  | jsonText =>
      simp only at h
      split at h
      · cases h
      · split at h <;> cases h

/-- A tag stops reading where the constructor does that it announces, or the content of the envelope
that it begins. -/
lemma deep_announced {maxInflated : ℕ} {choice : Choice} {bare : Constructor → Reader Value}
    {again : Reader Value} : Deep limit (announced s maxInflated choice bare again) cursor offset ↔
      (∃ tag after c, Reader.uint32 cursor = .done tag after ∧ tag ≠ Tag.gzipPacked ∧
          choice.candidate? s tag = some c ∧ Deep limit (bare c) after offset) ∨
        ∃ octets, Unpacks maxInflated cursor octets ∧ Deep limit again (.start octets) offset := by
  unfold announced Unpacks
  rw [deep_bind_of_shallow shallow_uint32]
  constructor
  · rintro ⟨tag, after, htag, hdeep⟩
    split_ifs at hdeep with hpacked
    · obtain ⟨octets, last, hopened, hdeep⟩ := (deep_bind_of_shallow (shallow_opened _)).1 hdeep
      exact .inr ⟨octets, ⟨after, last, hpacked ▸ htag, hopened⟩, (deep_within octets).1 hdeep⟩
    · cases hc : choice.candidate? s tag with
      | none => exact absurd (hc ▸ hdeep) (shallow_unknownTag _ _ _ _)
      | some c => exact .inl ⟨tag, after, c, htag, hpacked, hc, by simpa only [hc] using hdeep⟩
  · rintro (⟨tag, after, c, htag, hopen, hc, hdeep⟩ | ⟨octets, ⟨after, last, htag, hopened⟩, hdeep⟩)
    · exact ⟨tag, after, htag, by simpa only [if_neg hopen, hc] using hdeep⟩
    · refine ⟨_, after, htag, ?_⟩
      rw [if_pos rfl, deep_bind_of_shallow (shallow_opened _)]
      exact ⟨octets, last, hopened, (deep_within octets).2 hdeep⟩

section

variable {value : TypeExpr → Reader Value} {c : Constructor}

lemma deep_shown {minRandom : ℕ} {name : String} {type : TypeExpr} :
    Deep limit (shown minRandom value c name type) cursor offset ↔
      isTreated c name type = false ∧ Deep limit (value type) cursor offset := by
  cases htreated : isTreated c name type with
  | false =>
      rw [shown_of_untreated htreated, deep_bind_shallow fun _ => shallow_pure _]
      simp
  | true =>
      refine iff_of_false ?_ (by simp)
      unfold isTreated at htreated
      unfold shown
      split_ifs with hrandom hwave hthumb
      · exact shallow_bind_pure (shallow_randomBytes _) _ _ _ _
      · exact shallow_bind_pure shallow_bytes _ _ _ _
      · exact shallow_bind_pure shallow_bytes _ _ _ _
      · simp_all

lemma deep_field {minRandom : ℕ} {f : Field} {words : Words} :
    Deep limit (field minRandom value c f words) cursor offset ↔
      isOpen words f = true ∧ ∃ type, f.kind = .value type ∧ isTreated c f.name type = false ∧
        Deep limit (value type) cursor offset := by
  unfold field
  by_cases hopen : isOpen words f = true
  · rw [if_pos hopen, and_iff_right hopen]
    cases hkind : f.kind with
    | flagWord =>
        refine iff_of_false ?_ (by simp)
        exact shallow_bind_pure shallow_uint32 _ _ _ _
    | presence => exact iff_of_false (shallow_pure _ _ _ _) (by simp)
    | value type =>
        simp only [FieldKind.value.injEq]
        rw [deep_bind_shallow fun _ => shallow_pure _, deep_shown]
        simp
  · rw [if_neg hopen]
    refine iff_of_false ?_ (fun h => hopen h.1)
    cases f.kind <;> exact shallow_pure _ _ _ _

/-- Fields stop reading where the value of one of them does. -/
lemma deep_fields {fs : List Field} {words : Words} :
    Deep limit (fields limits.minRandom value c fs words) cursor offset ↔
      ∃ type start, FieldBegins limits value c fs words cursor type start ∧
        Deep limit (value type) start offset := by
  induction fs generalizing words cursor with
  | nil =>
      refine iff_of_false (shallow_pure _ _ _ _) ?_
      rintro ⟨type, start, h, -⟩
      cases h
  | cons f rest ih =>
      rw [fields_cons, deep_bind]
      constructor
      · rintro (hfirst | ⟨⟨kept, words'⟩, after, hf, hrest⟩)
        · obtain ⟨hopen, type, hkind, huntreated, hdeep⟩ := deep_field.1 hfirst
          exact ⟨type, cursor, .here hopen hkind huntreated, hdeep⟩
        · obtain ⟨type, start, hbegins, hdeep⟩ :=
            ih.1 ((deep_bind_shallow fun _ => shallow_pure _).1 hrest)
          exact ⟨type, start, .later hf hbegins, hdeep⟩
      · rintro ⟨type, start, hbegins, hdeep⟩
        cases hbegins with
        | here hopen hkind huntreated =>
            exact .inl (deep_field.2 ⟨hopen, type, hkind, huntreated, hdeep⟩)
        | later hf hbegins =>
            refine .inr ⟨_, _, hf, (deep_bind_shallow fun _ => shallow_pure _).2 ?_⟩
            exact ih.2 ⟨type, start, hbegins, hdeep⟩

lemma deep_construct : Deep limit (construct limits.minRandom value c) cursor offset ↔
    Deep limit (fields limits.minRandom value c c.fields []) cursor offset :=
  deep_bind_shallow fun _ => shallow_assemble _ _ _

end

end

end TypeLang.Direct
