import TypeLang.Proofs.Decoder.Congruence
import TypeLang.Proofs.Schema.Building
import TypeLang.Proofs.Wire.Forward
import TypeLang.Wire.Writer

/-!
# Truncation is always noticed

Cut off a wire anywhere within what a decoder consumes of it, and the decoder runs short of octets:
it asks for octets at a place before the cut of which some lie behind it.  No other fault comes
first, and no value is read.

Going forward is kept wherever a decoder is put together, so all its readings go forward.  The rest
is the law of such readers.
-/

namespace TypeLang

open Wire

lemma Primitive.forward {α : Type} {r : Reader α} (h : Primitive r) : Forward r := by
  cases h with
  | pure a => exact .pure a
  | fail fault => exact .fail fault
  | unknownTag expected => exact .unknownTag expected
  | take n => exact .take n
  | uint32 => exact .uint32
  | int32 => exact .int32
  | int64 => exact .int64
  | double => exact .double
  | bool => exact .bool
  | bytes => exact .bytes
  | string => exact .string
  | count => exact .count

lemma congruence_forward (limits : Limits) :
    Congruence (fun _ r _ => Forward r) limits limits where
  primitive := Primitive.forward
  bind := .bind
  within := .within
  opened := .opened limits.maxInflated
  randomBytes := .randomBytes limits.minRandom
  tooDeep _ := .bind .position fun _ => .fail _

namespace Decoder

lemma forward_answer (d : Decoder) (request : Request) : Forward (d.answer request) :=
  (congruence_forward d.limits).answer le_rfl request

/-- **Truncation is always noticed.**  Wherever a wire ends within the octets that a reading of the
whole wire consumes, octets are missing: some that are asked for within the wire, behind its end. -/
theorem answer_truncated {d : Decoder} {request : Request} {c after : Cursor} {v : Value}
    (h : d.answer request c = .done v after) {k : ℕ} (hk : c.pos ≤ k) (hcut : k < after.pos) :
    ∃ offset needed stop,
      d.answer request (c.cut k hk) = .failed (.truncated offset needed) stop ∧
        c.pos ≤ offset ∧ offset ≤ k ∧ k < offset + needed :=
  ((forward_answer d request).cutOff h hk).behind hcut

section

/-- A row of two texts in an envelope. -/
def packedTexts : List UInt8 :=
  Write.envelope (Write.boxedVector [Write.string "hi", Write.string "there"])

lemma exists_packedTexts : ∃ s d v after, Builder.empty.build = .ok s ∧
    ofSchema s {} = .ok d ∧
      d.answer (.type "Vector<string>") (Cursor.start packedTexts) = .done v after ∧
        after.pos = 48 := by
  have hpos : (Builder.empty.build.toOption.bind fun s =>
      (ofSchema s {}).toOption.bind fun d =>
        (d.answer (.type "Vector<string>") (Cursor.start packedTexts)).done?.map fun o =>
          o.2.pos) = some 48 := by
    decide +kernel
  obtain ⟨s, hs, hpos⟩ := Option.bind_eq_some_iff.1 hpos
  obtain ⟨d, hd, hpos⟩ := Option.bind_eq_some_iff.1 hpos
  obtain ⟨⟨v, after⟩, hread, hpos⟩ := Option.map_eq_some_iff.1 hpos
  exact ⟨s, d, v, after, eq_ok_of_toOption hs, eq_ok_of_toOption hd,
    Outcome.done?_eq_some.1 hread, hpos⟩

/-- The cut lies within the octets that are packed. -/
theorem packedTexts_truncated : ∃ s d v after, Builder.empty.build = .ok s ∧
    ofSchema s {} = .ok d ∧
      d.answer (.type "Vector<string>") (Cursor.start packedTexts) = .done v after ∧
        ∃ offset needed stop,
          d.answer (.type "Vector<string>")
              ((Cursor.start packedTexts).cut 21 (Nat.zero_le _)) =
            .failed (.truncated offset needed) stop ∧
              0 ≤ offset ∧ offset ≤ 21 ∧ 21 < offset + needed := by
  obtain ⟨s, d, v, after, hs, hd, hread, hpos⟩ := exists_packedTexts
  have hcut : 21 < after.pos := by rw [hpos]; decide
  exact ⟨s, d, v, after, hs, hd, hread, answer_truncated hread (Nat.zero_le 21) hcut⟩

end

end Decoder

end TypeLang
