import TypeLang.Proofs.Decoder.Limits
import TypeLang.Proofs.Decoder.Planned
import TypeLang.Proofs.Wire.Written

/-!
# Envelopes are transparent

Where a tag is due, an envelope stands for what is packed in it.  A dispatch reads the content as it
would read a wire of its own one level deeper, and a vector at its own level, but for a second
envelope.  Either way the reading of the wire goes on right behind the envelope, or has its fault
there.

## Parts

* `uint32_bind_wrapped`, what any reader of a tag makes of an envelope that it opens;
* dispatches, by the reading of the schema, in which the tag of envelopes announces no constructor;
* vectors, by the two tags that may stand before a row;
* `OpensEnvelopes`, the laws together, with the one for envelopes within envelopes.
-/

namespace TypeLang

open Wire Cursor

namespace Wire

variable {α β : Type}

/-! ## Outcomes that end elsewhere -/

/-- The same value or fault, at another cursor. -/
def Outcome.endingAt (c : Cursor) : Outcome α → Outcome α
  | done value _ => done value c
  | failed fault _ => failed fault c

/-- The value or the fault alone. -/
def Outcome.result : Outcome α → Except Fault α
  | done value _ => .ok value
  | failed fault _ => .error fault

lemma Outcome.result_endingAt (o : Outcome α) (c : Cursor) :
    (o.endingAt c).result = o.result := by
  cases o <;> rfl

lemma within_apply (octets : List UInt8) (inner : Reader α) (c : Cursor) :
    Reader.within octets inner c = (inner (start octets)).endingAt c := by
  unfold Reader.within
  cases inner (start octets) <;> rfl

/-- What is made of a value that was read does not depend on where it was read. -/
lemma bind_ofExcept_endingAt {r : Reader α} (f : α → Except Fault β) {c c' stop : Cursor}
    (h : r c = (r c').endingAt stop) :
    (r >>= fun a => Reader.ofExcept (f a)) c =
      ((r >>= fun a => Reader.ofExcept (f a)) c').endingAt stop := by
  rw [Reader.bind_apply, Reader.bind_apply, h]
  cases r c' with
  | failed fault other => rfl
  | done a after =>
      show Reader.ofExcept (f a) stop = (Reader.ofExcept (f a) after).endingAt stop
      cases f a <;> rfl

/-! ## Tags of envelopes -/

/-- Packed octets in an envelope. -/
def wrapped (packed : List UInt8) : List UInt8 :=
  Write.uint32 Tag.gzipPacked ++ Write.bytes packed

/-- Octets that fit into an envelope and out of which these come within a limit. -/
structure Packs (limit : ℕ) (packed content : List UInt8) : Prop where
  short : IsShort packed
  inflated : Compression.inflate limit packed = .ok content

variable {limit : ℕ} {packed content : List UInt8}

lemma Packs.reads_opened (h : Packs limit packed content) :
    Reads (Reader.opened limit) (Write.bytes packed) content :=
  Wire.reads_opened ⟨packed, isOctetString_write h.short, h.inflated⟩

/-- Whoever opens an envelope reads its content as a wire of its own, and goes on behind it. -/
lemma uint32_bind_wrapped (h : Packs limit packed content) {f : UInt32 → Reader α}
    {inner : Reader α}
    (hf : f Tag.gzipPacked = Reader.opened limit >>= fun octets => Reader.within octets inner)
    (before after : List UInt8) :
    (Reader.uint32 >>= f) (between before (wrapped packed ++ after)) =
      (inner (start content)).endingAt (between (before ++ wrapped packed) after) := by
  have htag := (reads_uint32 Tag.gzipPacked).between before (Write.bytes packed ++ after)
  have hopened := h.reads_opened.between (before ++ Write.uint32 Tag.gzipPacked) after
  rw [List.append_assoc] at hopened
  rw [wrapped, List.append_assoc, Reader.bind_of_done htag, hf, Reader.bind_of_done hopened,
    within_apply]

/-! ## Vectors in an envelope -/

section

variable (elem : Reader α)

/-- Without another envelope, the content is a boxed vector as it would be on a wire. -/
lemma afterVectorTag_start (h : ¬Write.uint32 Tag.gzipPacked <+: content) :
    Reader.afterVectorTag (Reader.bareVector elem) (start content) =
      Reader.boxedVector limit elem (start content) := by
  unfold Reader.afterVectorTag Reader.boxedVector
  rw [Reader.bind_apply, Reader.bind_apply]
  cases hread : Reader.uint32 (start content) with
  | failed fault stop => rfl
  | done tag after =>
      have hgzip : tag ≠ Tag.gzipPacked := by
        rintro rfl
        obtain ⟨n, hn, -, htag⟩ := yields_uint32 _ _ _ hread
        have hholds := holds_next (start content) n
        rw [htag, Holds, rest_start] at hholds
        exact h hholds
      simp only [if_neg hgzip]

lemma afterVectorTag_twice (h : Write.uint32 Tag.gzipPacked <+: content) :
    ∃ stop, Reader.afterVectorTag (Reader.bareVector elem) (start content) =
      .failed (.unknownTag Tag.gzipPacked 0 "Vector") stop := by
  have hholds : (start content).Holds (Write.uint32 Tag.gzipPacked) := by
    rwa [Holds, rest_start]
  refine ⟨(start content).advance 4 hholds.length_le, ?_⟩
  unfold Reader.afterVectorTag
  rw [Reader.bind_of_done (reads_uint32 Tag.gzipPacked _ hholds), if_neg (by decide)]
  exact unknownTag_behind "Vector" Tag.gzipPacked hholds

/-- A boxed vector is read in an envelope as on a wire of its own, but for a second envelope. -/
lemma boxedVector_wrapped (h : Packs limit packed content) (before after : List UInt8) :
    (¬Write.uint32 Tag.gzipPacked <+: content →
      Reader.boxedVector limit elem (between before (wrapped packed ++ after)) =
        (Reader.boxedVector limit elem (start content)).endingAt
          (between (before ++ wrapped packed) after)) ∧
    (Write.uint32 Tag.gzipPacked <+: content →
      Reader.boxedVector limit elem (between before (wrapped packed ++ after)) =
        .failed (.unknownTag Tag.gzipPacked 0 "Vector")
          (between (before ++ wrapped packed) after)) := by
  have hopened : Reader.boxedVector limit elem (between before (wrapped packed ++ after)) =
      (Reader.afterVectorTag (Reader.bareVector elem) (start content)).endingAt
        (between (before ++ wrapped packed) after) :=
    uint32_bind_wrapped h rfl before after
  rw [hopened]
  refine ⟨fun hone => by rw [afterVectorTag_start elem hone], fun htwo => ?_⟩
  obtain ⟨stop, hstop⟩ := afterVectorTag_twice elem htwo
  rw [hstop]
  rfl

end

end Wire

namespace Decoder

/-! ## Depths -/

/-- What a routine reads where so many levels are taken. -/
def runAt (d : Decoder) (depth routine : ℕ) : Reader Value :=
  run d.plan d.limits (d.limits.maxDepth - depth) routine

/-- What a step reads where so many levels are taken. -/
def stepAt (d : Decoder) (depth : ℕ) (st : Step) : Reader Value :=
  step d.plan d.limits (d.limits.maxDepth - depth) st

lemma runAt_of_le {d : Decoder} {depth : ℕ} (h : d.limits.maxDepth ≤ depth) (n : ℕ) (c : Cursor) :
    d.runAt depth n c = .failed (.tooDeep c.pos d.limits.maxDepth) c := by
  rw [runAt, Nat.sub_eq_zero_of_le h]
  rfl

/-- Steps that read a boxed vector. -/
def IsBoxedVector (elem st : Step) : Prop :=
  st = .vector true elem ∨ st = .entries true elem

lemma stepAt_boxedVector {d : Decoder} {depth : ℕ} (h : depth < d.limits.maxDepth)
    {elem st : Step} (hst : IsBoxedVector elem st) :
    ∃ f : List Value → Except Fault Value, d.stepAt depth st =
      Reader.boxedVector d.limits.maxInflated (d.stepAt (depth + 1) elem) >>= fun items =>
        Reader.ofExcept (f items) := by
  obtain ⟨below, hbelow⟩ : ∃ below, d.limits.maxDepth - depth = below + 1 :=
    Nat.exists_eq_succ_of_ne_zero (by omega)
  have hnext : d.limits.maxDepth - (depth + 1) = below := by omega
  have hvector : vector d.plan d.limits (below + 1) true elem =
      Reader.boxedVector d.limits.maxInflated (step d.plan d.limits below elem) :=
    vectorOf_eq _ d.limits.maxInflated true
  unfold stepAt
  rw [hbelow, hnext, ← hvector]
  rcases hst with rfl | rfl
  · exact ⟨fun items => .ok (.vector items), rfl⟩
  · exact ⟨objectOf, rfl⟩

/-! ## Envelopes within envelopes -/

/-- Octets that begin with so many envelopes within each other, the innermost of which holds
others. -/
inductive Nested (limit : ℕ) : ℕ → List UInt8 → List UInt8 → Prop
  | plain (content : List UInt8) : Nested limit 0 content content
  | wrapped {k : ℕ} {packed outer content : List UInt8} (h : Packs limit packed outer)
      (hnested : Nested limit k outer content) (after : List UInt8) :
      Nested limit (k + 1) (Wire.wrapped packed ++ after) content

/-! ## The laws -/

/-- Wherever a tag is due, a decoder opens an envelope and reads what is in it. -/
structure OpensEnvelopes (d : Decoder) : Prop where
  /-- Every type has a dispatch, besides those for all objects and for those that stand alone. -/
  serves : ∀ {name : String}, name ≠ Plan.objectName → (d.schema.typeDef? name).isSome →
    ∃ n, Serves d.plan (.type name) n
  /-- A dispatch reads the content one level deeper. -/
  dispatch : ∀ {choice n depth packed content}, Serves d.plan choice n →
    depth < d.limits.maxDepth → Packs d.limits.maxInflated packed content → ∀ before after,
      d.runAt depth n (between before (wrapped packed ++ after)) =
        (d.runAt (depth + 1) n (start content)).endingAt (between (before ++ wrapped packed) after)
  /-- At the last level, the content is refused at its start. -/
  deepest : ∀ {choice n depth packed content}, Serves d.plan choice n →
    depth + 1 = d.limits.maxDepth → Packs d.limits.maxInflated packed content → ∀ before after,
      d.runAt depth n (between before (wrapped packed ++ after)) =
        .failed (.tooDeep 0 d.limits.maxDepth) (between (before ++ wrapped packed) after)
  /-- Each envelope takes one level, and changes nothing unless the levels run out. -/
  nested : ∀ {choice n depth k outer content}, Serves d.plan choice n →
    Nested d.limits.maxInflated k outer content →
      (d.runAt depth n (start outer)).result = (d.runAt (depth + k) n (start content)).result ∧
        ((d.runAt depth n (start outer)).result = (d.runAt depth n (start content)).result ∨
          ∃ offset, (d.runAt depth n (start outer)).result =
            .error (.tooDeep offset d.limits.maxDepth))
  /-- A boxed vector reads the content at its own level. -/
  vector : ∀ {elem st depth packed content}, IsBoxedVector elem st →
    depth < d.limits.maxDepth → Packs d.limits.maxInflated packed content →
      ¬Write.uint32 Tag.gzipPacked <+: content → ∀ before after,
        d.stepAt depth st (between before (wrapped packed ++ after)) =
          (d.stepAt depth st (start content)).endingAt (between (before ++ wrapped packed) after)
  /-- A second envelope around a boxed vector is not opened. -/
  vectorTwice : ∀ {elem st depth packed content}, IsBoxedVector elem st →
    depth < d.limits.maxDepth → Packs d.limits.maxInflated packed content →
      Write.uint32 Tag.gzipPacked <+: content → ∀ before after,
        d.stepAt depth st (between before (wrapped packed ++ after)) =
          .failed (.unknownTag Tag.gzipPacked 0 "Vector") (between (before ++ wrapped packed) after)

section

variable {s : Schema} {b : Builder} {limits : Limits} {d : Decoder} (hb : b.build = .ok s)
  (hd : ofSchema s limits = .ok d)

include hb hd

lemma exists_serves {name : String} (hname : name ≠ Plan.objectName)
    (h : (d.schema.typeDef? name).isSome) : ∃ n, Serves d.plan (.type name) n := by
  obtain ⟨p, hp, rfl⟩ := ofSchema_eq_ok hd
  have hfinished := Plan.finished_of_compile (Schema.hasDistinctIds_of_build hb) hp
  obtain ⟨t, ht⟩ := Option.isSome_iff_exists.1 h
  obtain ⟨n, _, hn, -⟩ := hfinished.type ht hname
  exact ⟨n, hname, hn⟩

/-- The tag of envelopes announces no constructor, also where the schema gives it to one. -/
lemma runAt_wrapped {choice : Direct.Choice} {n depth : ℕ} {packed content : List UInt8}
    (hn : Serves d.plan choice n) (hdepth : depth < d.limits.maxDepth)
    (h : Packs d.limits.maxInflated packed content) (before after : List UInt8) :
    d.runAt depth n (between before (wrapped packed ++ after)) =
      (d.runAt (depth + 1) n (start content)).endingAt
        (between (before ++ wrapped packed) after) := by
  obtain ⟨p, hp, rfl⟩ := ofSchema_eq_ok hd
  have hs := Schema.hasDistinctIds_of_build hb
  have hfinished := Plan.finished_of_compile hs hp
  -- The plan looks for an arm first and has none for this tag; the reading of the schema, which is
  -- the same, asks for the tag of envelopes first.
  have hdirect : ∀ levels, run p limits levels n = Direct.boxed s limits levels choice :=
    fun levels => (matches_levels hs hfinished limits levels).1.dispatch choice hn
  obtain ⟨below, hbelow⟩ : ∃ below, limits.maxDepth - depth = below + 1 :=
    Nat.exists_eq_succ_of_ne_zero (Nat.sub_ne_zero_of_lt hdepth)
  have hnext : limits.maxDepth - (depth + 1) = below := by omega
  simp only [runAt, hdirect, hbelow, hnext]
  exact uint32_bind_wrapped h (if_pos rfl) before after

/-- By the envelopes, from the outermost inwards. -/
lemma result_nested {choice : Direct.Choice} {n : ℕ} (hn : Serves d.plan choice n) {k : ℕ}
    {outer content : List UInt8} (h : Nested d.limits.maxInflated k outer content) (depth : ℕ) :
    (d.runAt depth n (start outer)).result = (d.runAt (depth + k) n (start content)).result := by
  induction h generalizing depth with
  | plain content => rfl
  | @wrapped k packed outer content hpacks _ after ih =>
      rcases Nat.lt_or_ge depth d.limits.maxDepth with hdepth | hdepth
      · have hopened : d.runAt depth n (start (Wire.wrapped packed ++ after)) =
            (d.runAt (depth + 1) n (start outer)).endingAt
              (between ([] ++ Wire.wrapped packed) after) :=
          runAt_wrapped hb hd hn hdepth hpacks [] after
        rw [hopened, Outcome.result_endingAt, ih (depth + 1), Nat.add_right_comm, Nat.add_assoc]
      · have hdepth' : d.limits.maxDepth ≤ depth + (k + 1) := Nat.le_add_right_of_le hdepth
        rw [runAt_of_le hdepth, runAt_of_le hdepth']
        rfl

/-- **Envelopes are transparent**, in every decoder of a schema that was built. -/
theorem opensEnvelopes : d.OpensEnvelopes where
  serves := exists_serves hb hd
  dispatch := runAt_wrapped hb hd
  deepest := by
    intro choice n depth packed content hn hdepth h before after
    have hlt : depth < d.limits.maxDepth := by omega
    rw [runAt_wrapped hb hd hn hlt h, runAt_of_le hdepth.ge]
    rfl
  nested := by
    intro choice n depth k outer content hn h
    have hresult := result_nested hb hd hn h depth
    refine ⟨hresult, ?_⟩
    -- The content is read within `k` levels less than it would be without envelopes.
    have hlevels : d.limits.maxDepth - (depth + k) ≤ d.limits.maxDepth - depth := by omega
    rcases unless_run d.plan hlevels n (start content) with
      hsame | ⟨_, stop, hfailed, offset, rfl⟩
    · left
      rw [hresult]
      exact congrArg Outcome.result hsame
    · right
      refine ⟨offset, ?_⟩
      rw [hresult]
      exact congrArg Outcome.result hfailed
  vector := by
    intro elem st depth packed content hst hdepth h hone before after
    obtain ⟨f, hf⟩ := stepAt_boxedVector hdepth hst
    rw [hf]
    exact bind_ofExcept_endingAt f ((boxedVector_wrapped _ h before after).1 hone)
  vectorTwice := by
    intro elem st depth packed content hst hdepth h htwo before after
    obtain ⟨f, hf⟩ := stepAt_boxedVector hdepth hst
    rw [hf, Reader.bind_apply, (boxedVector_wrapped _ h before after).2 htwo]

end

section

open Declaration

/-- Texts and envelopes, which are a type of their own. -/
def envelopes : Builder :=
  let declare (type name : String) (id : UInt32) (arg field : String) : Combinator × Origin :=
    (⟨⟨[], name⟩, id, [⟨field, .value (.plain ⟨⟨[], arg⟩, true, false⟩) none⟩],
      .plain ⟨⟨[], type⟩, false, false⟩, .types⟩, .mtproto)
  ⟨[declare "RichText" "textPlain" 0x744694E0 "string" "text",
    declare "Envelope" "gzip_packed" Tag.gzipPacked "bytes" "packed_data"], none⟩

/-- A text as an object. -/
def plainHi : List UInt8 :=
  Write.uint32 0x744694E0 ++ Write.string "hi"

lemma exists_envelopes : ∃ s d, envelopes.build = .ok s ∧ ofSchema s {} = .ok d ∧
    (s.byId? Tag.gzipPacked).isSome := by
  have hsome : (envelopes.build.toOption.bind fun s =>
      (ofSchema s {}).toOption.map fun _ => (s.byId? Tag.gzipPacked).isSome) = some true := by
    decide +kernel
  obtain ⟨s, hs, hd⟩ := Option.bind_eq_some_iff.1 hsome
  obtain ⟨d, hd, hid⟩ := Option.map_eq_some_iff.1 hd
  exact ⟨s, d, eq_ok_of_toOption hs, eq_ok_of_toOption hd, hid⟩

lemma packs_plainHi :
    Packs ({} : Limits).maxInflated (Compression.gzip plainHi) plainHi :=
  ⟨by decide +kernel, by decide +kernel⟩

lemma packs_envelope_plainHi : Packs ({} : Limits).maxInflated
    (Compression.gzip (Write.envelope plainHi)) (Write.envelope plainHi) :=
  ⟨by decide +kernel, by decide +kernel⟩

lemma nested_plainHi :
    Nested ({} : Limits).maxInflated 2 (Write.envelope (Write.envelope plainHi)) plainHi := by
  have hinner := Nested.wrapped packs_plainHi (.plain plainHi) []
  rw [List.append_nil] at hinner
  have houter := Nested.wrapped packs_envelope_plainHi hinner []
  rwa [List.append_nil] at houter

/-- Two envelopes around a text, by a schema that gives their tag to a constructor.  For a vector,
the second is refused. -/
theorem plainHi_enveloped_twice : ∃ s d, envelopes.build = .ok s ∧ ofSchema s {} = .ok d ∧
    (s.byId? Tag.gzipPacked).isSome ∧
      (d.readObject (start (Write.envelope (Write.envelope plainHi)))).result =
        (d.runAt 2 Plan.topLevel (start plainHi)).result ∧
      (d.stepAt 0 (.vector true .int)
          (start (Write.envelope (Write.envelope plainHi) ++ [1, 2]))).result =
        .error (.unknownTag Tag.gzipPacked 0 "Vector") := by
  obtain ⟨s, d, hs, hd, hid⟩ := exists_envelopes
  have hlimits : d.limits = {} := by
    obtain ⟨p, -, rfl⟩ := ofSchema_eq_ok hd
    rfl
  have hopens : d.OpensEnvelopes := opensEnvelopes hs hd
  refine ⟨s, d, hs, hd, hid, ?_, ?_⟩
  · have hserves : Serves d.plan .standalone Plan.topLevel := rfl
    have hnested :
        Nested d.limits.maxInflated 2 (Write.envelope (Write.envelope plainHi)) plainHi := by
      rw [hlimits]
      exact nested_plainHi
    have htwo : (d.runAt 0 Plan.topLevel (start (Write.envelope (Write.envelope plainHi)))).result =
        (d.runAt (0 + 2) Plan.topLevel (start plainHi)).result := (hopens.nested hserves hnested).1
    exact htwo
  · have hpacks : Packs d.limits.maxInflated (Compression.gzip (Write.envelope plainHi))
        (Write.envelope plainHi) := by
      rw [hlimits]
      exact packs_envelope_plainHi
    have hdepth : 0 < d.limits.maxDepth := by
      rw [hlimits]
      decide
    have hvector : IsBoxedVector .int (.vector true .int) := .inl rfl
    have htag : Write.uint32 Tag.gzipPacked <+: Write.envelope plainHi := List.prefix_append _ _
    exact congrArg Outcome.result (hopens.vectorTwice hvector hdepth hpacks htag [] [1, 2])

end

end Decoder

end TypeLang
