import TypeLang.Decoder.Session
import TypeLang.Proofs.Decoder.Reports

/-!
# What a session keeps makes no difference

A step is kept under the text for which it was made, and a decoder makes the same step of the same
text every time.  So what is kept is what would be made again (`Session.Sound`), whatever calls came
before, and every call gives what the decoder alone gives.

A text that names no known type leaves no step behind.  No other reading ends with that fault: the
types that a schema refers to are all known to it, once it has a decoder.
-/

namespace TypeLang

open Wire

lemma Traced.ne_unknownType {limits : Limits} {α : Type} {r : Reader α} {t : Trace}
    (h : Traced limits none r t) {c stop : Cursor} {name : String} :
    r c ≠ .failed (.unknownType name) stop := by
  intro hfailed
  obtain ⟨-, -, hschema, -⟩ := (h.reports (c := c) trivial).failed hfailed
  cases hschema

namespace Decoder

/-- A step that was made of a text reads as the schema says. -/
lemma traced_of_stepOf {b : Builder} {s : Schema} {limits : Limits} {d : Decoder}
    (hb : b.build = .ok s) (hd : ofSchema s limits = .ok d) {type : String} {st : Step}
    (h : d.stepOf type = .ok st) :
    ∃ t, Traced limits none (step d.plan d.limits d.limits.maxDepth st) t := by
  obtain ⟨p, hp, rfl⟩ := ofSchema_eq_ok hd
  have hs := Schema.hasDistinctIds_of_build hb
  have hfinished := Plan.finished_of_compile hs hp
  unfold stepOf at h
  cases hread : TypeExpr.read type.toList with
  | error fault =>
      rw [hread] at h
      cases h
  | ok e =>
      rw [hread] at h
      have hmade : Plan.exprStep (Plan.found s p) e = .ok st := h
      have hknown : Direct.isKnown s e.leaf = true := by
        by_contra hunknown
        rw [(exprStep_found hfinished e).2 (by simpa using hunknown)] at hmade
        cases hmade
      have hreads : step p limits limits.maxDepth st = Direct.value s limits limits.maxDepth e :=
        stepWith_exprStep (matches_levels hs hfinished limits _).1 hmade
      have hknows := Direct.knowsTypes_of_finished hfinished
      obtain ⟨hboxed, hbare, hvector⟩ := Direct.traced_levels hknows limits limits.maxDepth
      refine ⟨Direct.valueTrace s limits limits.maxDepth e, ?_⟩
      show Traced limits none (step p limits limits.maxDepth st) _
      rw [hreads]
      exact Direct.traced_valueWith hboxed hbare hvector hknown

end Decoder

namespace Session

variable {x : Session}

/-- Whatever is kept would be made again. -/
def Sound (x : Session) : Prop :=
  ∀ type st, x.kept.lookup type = some st → x.decoder.stepOf type = .ok st

lemma sound_start (d : Decoder) : (start d).Sound :=
  fun _ _ h => nomatch h

/-! ## One call -/

lemma sound_keep (hx : x.Sound) {type : String} {st : Step} (h : x.decoder.stepOf type = .ok st) :
    Sound { x with kept := (type, st) :: x.kept } := by
  intro other kept hkept
  rw [List.lookup_cons] at hkept
  cases heq : other == type with
  | true =>
      rw [heq] at hkept
      cases hkept
      exact eq_of_beq heq ▸ h
  | false =>
      rw [heq] at hkept
      exact hx other kept hkept

/-- A step is the one that the decoder makes, whether or not it was kept. -/
lemma of_stepOf_eq_ok (hx : x.Sound) {y : Session} {type : String} {st : Step}
    (h : x.stepOf type = .ok (st, y)) :
    x.decoder.stepOf type = .ok st ∧ y.decoder = x.decoder ∧ y.Sound := by
  unfold stepOf at h
  cases hkept : x.kept.lookup type with
  | some kept =>
      rw [hkept] at h
      cases h
      exact ⟨hx type st hkept, rfl, hx⟩
  | none =>
      rw [hkept] at h
      obtain ⟨made, hmade, h⟩ := map_eq_ok.1 h
      cases h
      exact ⟨hmade, rfl, sound_keep hx hmade⟩

lemma of_stepOf_eq_error {type : String} {fault : Fault} (h : x.stepOf type = .error fault) :
    x.decoder.stepOf type = .error fault := by
  unfold stepOf at h
  cases hkept : x.kept.lookup type with
  | some kept => simp [hkept] at h
  | none =>
      rw [hkept] at h
      cases hmade : x.decoder.stepOf type with
      | error other =>
          rw [hmade] at h
          cases h
          rfl
      | ok made => simp [hmade, Except.map] at h

/-- A call gives what the decoder gives, and leaves a session of it. -/
lemma answer_eq (hx : x.Sound) (request : Decoder.Request) (c : Cursor) :
    (x.answer request c).1 = x.decoder.answer request c ∧
      (x.answer request c).2.decoder = x.decoder ∧ (x.answer request c).2.Sound := by
  cases request with
  | object => exact ⟨rfl, rfl, hx⟩
  | type text =>
      simp only [answer, Decoder.answer, Decoder.readType]
      cases hst : x.stepOf text with
      | error fault =>
          rw [of_stepOf_eq_error hst]
          exact ⟨rfl, rfl, hx⟩
      | ok made =>
          obtain ⟨st, y⟩ := made
          obtain ⟨hmade, hdecoder, hy⟩ := of_stepOf_eq_ok hx hst
          rw [hmade]
          simp only [hdecoder]
          exact ⟨rfl, trivial, hy⟩

/-! ## Histories of calls -/

/-- Whatever calls came before, the decoder is the same, and what is kept would be made again. -/
lemma sound_after (hx : x.Sound) (calls : List (Decoder.Request × Cursor)) :
    (x.after calls).decoder = x.decoder ∧ (x.after calls).Sound := by
  induction calls generalizing x with
  | nil => exact ⟨rfl, hx⟩
  | cons call rest ih =>
      obtain ⟨request, c⟩ := call
      obtain ⟨-, hdecoder, hsound⟩ := answer_eq hx request c
      obtain ⟨hlater, hrest⟩ := ih hsound
      exact ⟨hlater.trans hdecoder, hrest⟩

/-- **What a session keeps never changes what comes of a call.** -/
lemma answer_after (d : Decoder) (calls : List (Decoder.Request × Cursor))
    (request : Decoder.Request) (c : Cursor) :
    (((start d).after calls).answer request c).1 = d.answer request c := by
  obtain ⟨hdecoder, hsound⟩ := sound_after (sound_start d) calls
  have hanswer := (answer_eq hsound request c).1
  rw [hdecoder] at hanswer
  exact hanswer

/-- **A call for an unknown type leaves everything as it is**, the cursor and the session. -/
lemma unchanged_of_unknownType {b : Builder} {s : Schema} {limits : Limits} {d : Decoder}
    (hb : b.build = .ok s) (hd : Decoder.ofSchema s limits = .ok d) (hx : x.Sound)
    (hdecoder : x.decoder = d) {request : Decoder.Request} {c stop : Cursor} {name : String}
    (h : (x.answer request c).1 = .failed (.unknownType name) stop) :
    stop = c ∧ (x.answer request c).2 = x := by
  subst hdecoder
  constructor
  · rw [(answer_eq hx request c).1] at h
    rcases Direct.traced_answer hb hd request with htraced | ⟨other, hother, -⟩
    · exact absurd h htraced.ne_unknownType
    · rw [hother] at h
      cases h
      rfl
  · cases request with
    | object => rfl
    | type text =>
        simp only [answer] at h ⊢
        cases hst : x.stepOf text with
        | error fault => rfl
        | ok made =>
            obtain ⟨st, y⟩ := made
            obtain ⟨hmade, hy, -⟩ := of_stepOf_eq_ok hx hst
            obtain ⟨t, htraced⟩ := Decoder.traced_of_stepOf hb hd hmade
            simp only [hst, hy] at h
            exact absurd h htraced.ne_unknownType

end Session

end TypeLang
