import TypeLang.Proofs.Compression.Bounds
import TypeLang.Proofs.Decoder.Congruence
import TypeLang.Proofs.Decoder.Planned
import TypeLang.Wire.Writer

/-!
# Limits only cut

A decoder that keeps narrower limits than another stops earlier, with a fault that says so, and in
every other case does what the other does.  `Unless bad r r'` is that relation of two readers for
faults of any kind `bad`.  It goes through everything that decoders are put together from, so it is
enough to know it of the parts that look at a limit: where an envelope is opened, where random
octets are counted, and where a value begins for which no level is left.

An envelope is the part that takes an argument.  Its content is expanded no further than one octet
beyond the limit, so what is found behind that may differ, but no content within a limit does.
-/

namespace TypeLang

open Wire

namespace Wire

variable {α β : Type}

/-- On every wire `r` gives what `r'` gives, unless it stops with a fault that is `bad`. -/
def Unless (bad : Fault → Prop) (r r' : Reader α) : Prop :=
  ∀ c, r c = r' c ∨ ∃ fault stop, r c = .failed fault stop ∧ bad fault

namespace Unless

variable {bad : Fault → Prop}

lemma refl (r : Reader α) : Unless bad r r :=
  fun _ => .inl rfl

lemma bind {r r' : Reader α} {f f' : α → Reader β} (hr : Unless bad r r')
    (hf : ∀ a, Unless bad (f a) (f' a)) : Unless bad (r >>= f) (r' >>= f') := by
  intro c
  rw [Reader.bind_apply, Reader.bind_apply]
  rcases hr c with hsame | ⟨fault, stop, hfailed, hbad⟩
  · rw [hsame]
    cases r' c with
    | done a after => exact hf a after
    | failed fault stop => exact .inl rfl
  · rw [hfailed]
    exact .inr ⟨fault, stop, rfl, hbad⟩

/-- A fault in octets of their own is a fault of the wire. -/
lemma within {r r' : Reader α} (h : Unless bad r r') (octets : List UInt8) :
    Unless bad (Reader.within octets r) (Reader.within octets r') := by
  intro c
  unfold Reader.within
  rcases h (Cursor.start octets) with hsame | ⟨fault, stop, hfailed, hbad⟩
  · rw [hsame]
    exact .inl rfl
  · rw [hfailed]
    exact .inr ⟨fault, c, rfl, hbad⟩

end Unless

end Wire

/-! ## Faults of limits -/

/-- The faults of values that lie too deep, of envelopes and of too few random octets. -/
inductive Wire.Fault.CutsShort : Fault → Prop
  | tooDeep (offset limit : ℕ) : CutsShort (.tooDeep offset limit)
  | envelope (offset : ℕ) (cause : Compression.InflateFault) : CutsShort (.envelope offset cause)
  | shortPadding (offset length : ℕ) : CutsShort (.shortPadding offset length)

namespace Wire

/-- An envelope gives the same content within a higher limit, unless it cannot be opened. -/
lemma unless_opened {limit limit' : ℕ} (hle : limit ≤ limit') :
    Unless Fault.CutsShort (Reader.opened limit) (Reader.opened limit') := by
  refine .bind (.refl _) fun start => .bind (.refl _) fun packed => fun c => ?_
  cases hcontent : Compression.inflate limit packed with
  | ok content =>
      rw [Compression.inflate_eq_ok hle hcontent]
      exact .inl rfl
  | error cause => exact .inr ⟨_, c, rfl, .envelope _ cause⟩

lemma unless_randomBytes {least least' : ℕ} (hle : least' ≤ least) :
    Unless Fault.CutsShort (Reader.randomBytes least) (Reader.randomBytes least') := by
  refine .bind (.refl _) fun start => .bind (.refl _) fun mark => fun c => ?_
  by_cases hshort : mark.length < least
  · rw [if_pos hshort]
    exact .inr ⟨_, c, rfl, .shortPadding start mark.length⟩
  · rw [if_neg hshort, if_neg (by omega)]
    exact .inl rfl

end Wire

/-- Limits of which none is wider than that of the other. -/
structure Limits.Within (limits limits' : Limits) : Prop where
  depth : limits.maxDepth ≤ limits'.maxDepth
  inflated : limits.maxInflated ≤ limits'.maxInflated
  random : limits'.minRandom ≤ limits.minRandom

namespace Decoder

/-! ## Decoders -/

/-- The fault of a value that begins where no level is left. -/
def TooDeep (limits : Limits) (fault : Fault) : Prop :=
  ∃ offset, fault = .tooDeep offset limits.maxDepth

variable {bad : Fault → Prop} {limits limits' : Limits}

/-- Limits are looked at where an envelope is opened, where random octets are counted, and where a
value begins for which no level is left. -/
lemma congruence_unless
    (hopened : Unless bad (Reader.opened limits.maxInflated) (Reader.opened limits'.maxInflated))
    (hrandom : Unless bad (Reader.randomBytes limits.minRandom)
      (Reader.randomBytes limits'.minRandom))
    (hdeep : ∀ fault, TooDeep limits fault → bad fault) :
    Congruence (fun _ => Unless bad) limits limits' where
  primitive _ := .refl _
  bind := .bind
  within octets h := .within h octets
  opened := hopened
  randomBytes := hrandom
  tooDeep _ c := .inr ⟨_, c, rfl, hdeep _ ⟨c.pos, rfl⟩⟩

/-- Within fewer levels, a routine reads the same or they run out. -/
lemma unless_run (plan : Plan) {levels levels' : ℕ} (h : levels ≤ levels') (n : ℕ) :
    Unless (TooDeep limits) (run plan limits levels n) (run plan limits levels' n) :=
  ((congruence_unless (.refl _) (.refl _) fun _ hdeep => hdeep).levels plan h).1 n

/-- **Limits only cut.**  What a decoder gives within some limits, one of the same schema gives
within wider ones too: the same value or the same fault, and the same cursor, unless the fault is
one that a limit brings about. -/
theorem answer_within_wider {s : Schema} {d : Decoder} (hd : ofSchema s limits = .ok d)
    (hwithin : limits.Within limits') :
    ∃ d', ofSchema s limits' = .ok d' ∧ ∀ request c,
      (∀ fault stop, d.answer request c = .failed fault stop → ¬fault.CutsShort) →
        d'.answer request c = d.answer request c := by
  obtain ⟨p, hp, rfl⟩ := ofSchema_eq_ok hd
  refine ⟨_, ofSchema_of_compile hp limits', fun request c hother => ?_⟩
  have hcongruence :
      Congruence (fun _ => Unless Fault.CutsShort) (Decoder.mk s p limits).limits limits' := by
    refine congruence_unless (unless_opened hwithin.inflated)
      (unless_randomBytes hwithin.random) ?_
    rintro _ ⟨offset, rfl⟩
    exact .tooDeep offset _
  have hunless : Unless Fault.CutsShort (answer ⟨s, p, limits⟩ request)
      (answer ⟨s, p, limits'⟩ request) := hcongruence.answer hwithin.depth request
  rcases hunless c with hsame | ⟨fault, stop, hfailed, hcuts⟩
  · exact hsame.symm
  · exact absurd hcuts (hother fault stop hfailed)

/-! ### An envelope that fills its limit -/

/-- A row of texts in an envelope, of 20 octets when opened. -/
def packedRow : Cursor :=
  .start (Write.envelope (Write.boxedVector [Write.string "hi", Write.string "there"]))

/-- Limits that such a row just keeps. -/
def narrow : Limits :=
  ⟨20, 15, 1⟩

lemma exists_packedRow : ∃ s d v after, Builder.empty.build = .ok s ∧ ofSchema s narrow = .ok d ∧
    d.answer (.type "Vector<string>") packedRow = .done v after := by
  have hread : (Builder.empty.build.toOption.bind fun s =>
      (ofSchema s narrow).toOption.bind fun d =>
        (d.answer (.type "Vector<string>") packedRow).done?.map fun o => o.2.pos) = some 48 := by
    decide +kernel
  obtain ⟨s, hs, hread⟩ := Option.bind_eq_some_iff.1 hread
  obtain ⟨d, hd, hread⟩ := Option.bind_eq_some_iff.1 hread
  obtain ⟨⟨v, after⟩, hread, -⟩ := Option.map_eq_some_iff.1 hread
  exact ⟨s, d, v, after, eq_ok_of_toOption hs, eq_ok_of_toOption hd,
    Outcome.done?_eq_some.1 hread⟩

theorem packedRow_within_wider : ∃ s d d' v after, Builder.empty.build = .ok s ∧
    ofSchema s narrow = .ok d ∧ ofSchema s {} = .ok d' ∧
      d.answer (.type "Vector<string>") packedRow = .done v after ∧
        d'.answer (.type "Vector<string>") packedRow = .done v after := by
  obtain ⟨s, d, v, after, hs, hd, hread⟩ := exists_packedRow
  have hwithin : narrow.Within {} := ⟨by decide, by decide, by decide⟩
  obtain ⟨d', hd', hsame⟩ := answer_within_wider hd hwithin
  refine ⟨s, d, d', v, after, hs, hd, hd', hread, ?_⟩
  rw [hsame _ _ fun fault stop hfailed => by simp [hread] at hfailed, hread]

end Decoder

end TypeLang
