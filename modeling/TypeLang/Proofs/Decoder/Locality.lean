import TypeLang.Proofs.Decoder.Congruence
import TypeLang.Proofs.Schema.Building
import TypeLang.Proofs.Wire.Following

/-!
# A reading depends only on what it consumes

Whatever a decoder reads, it reads again from the same octets on any other wire and at any other
place, and consumes them again, no matter what stands before and behind.  This is kept wherever a
decoder is put together.  Nothing is assumed of the plan: a routine that was never made only fails,
and so does a value for which no level is left.
-/

namespace TypeLang

open Wire

lemma Primitive.follows {α : Type} {r : Reader α} (h : Primitive r) : Follows r r := by
  cases h with
  | pure a => exact follows_pure a
  | fail fault => exact follows_fail fault _
  | unknownTag expected => exact yields_unknownTag expected
  | take n => exact follows_take n
  | uint32 => exact local_uint32
  | int32 => exact local_int32
  | int64 => exact local_int64
  | double => exact local_double
  | bool => exact local_bool
  | bytes => exact local_bytes
  | string => exact local_string
  | count => exact local_count

lemma Decoder.yields_tooDeep {α : Type} (limits : Limits) {P : List UInt8 → α → Prop} :
    Yields (tooDeep limits) P :=
  yields_position fun _ => yields_fail _

lemma congruence_follows (limits : Limits) : Congruence (fun _ => Follows) limits limits where
  primitive := Primitive.follows
  bind := follows_bind
  within octets h := follows_within h octets
  opened := local_opened limits.maxInflated
  randomBytes := local_randomBytes limits.minRandom
  tooDeep _ := Decoder.yields_tooDeep limits

namespace Decoder

lemma local_answer (d : Decoder) (request : Request) : Local (d.answer request) :=
  (congruence_follows d.limits).answer le_rfl request

/-- **A reading depends only on the octets it consumes.**  It ends between its start and the end of
the wire, and wherever the same octets come next, the same value is read from them. -/
theorem answer_depends_on_consumed {d : Decoder} {request : Request} {c after : Cursor}
    {v : Value} (h : d.answer request c = .done v after) :
    after.buffer = c.buffer ∧ c.pos ≤ after.pos ∧ after.pos ≤ c.buffer.size ∧
      ∀ c' : Cursor,
        c'.buffer.extract c'.pos (c'.pos + (after.pos - c.pos)) =
            c.buffer.extract c.pos after.pos →
          ∃ hle, d.answer request c' =
            .done v ⟨c'.buffer, c'.pos + (after.pos - c.pos), hle⟩ := by
  obtain ⟨n, hn, rfl, hreads⟩ := local_answer d request _ _ _ h
  refine ⟨rfl, Nat.le_add_right _ _, (c.advance n hn).pos_le, fun c' hc' => ?_⟩
  have hconsumed : (c.advance n hn).pos - c.pos = n := Nat.add_sub_cancel_left _ _
  have hnext : c'.next n = c.next n := by
    rw [hconsumed] at hc'
    exact congrArg Array.toList hc'
  have hholds : c'.Holds (c.next n) := hnext ▸ Cursor.holds_next c' n
  have hlength := Cursor.length_next hn
  refine ⟨?_, ?_⟩
  · have := hholds.length_le
    have := c'.pos_le
    unfold Cursor.remaining at *
    omega
  · rw [hreads c' hholds]
    simp only [Cursor.advance, hlength, Nat.add_sub_cancel_left]

section

/-- A vector of one number, behind an octet and before another. -/
def behindOne : Cursor :=
  ⟨#[9, 0x15, 0xC4, 0xB5, 0x1C, 1, 0, 0, 0, 7, 0, 0, 0, 5], 1, by decide⟩

/-- The same vector, behind two octets and before none. -/
def behindTwo : Cursor :=
  ⟨#[3, 4, 0x15, 0xC4, 0xB5, 0x1C, 1, 0, 0, 0, 7, 0, 0, 0], 2, by decide⟩

lemma exists_behindOne : ∃ s d v after, (⟨[], none⟩ : Builder).build = .ok s ∧
    ofSchema s {} = .ok d ∧ d.answer (.type "Vector<int>") behindOne = .done v after ∧
      after.pos = 13 := by
  have hpos : ((⟨[], none⟩ : Builder).build.toOption.bind fun s =>
      (ofSchema s {}).toOption.bind fun d =>
        (d.answer (.type "Vector<int>") behindOne).done?.map fun o => o.2.pos) = some 13 := by
    decide +kernel
  obtain ⟨s, hs, hpos⟩ := Option.bind_eq_some_iff.1 hpos
  obtain ⟨d, hd, hpos⟩ := Option.bind_eq_some_iff.1 hpos
  obtain ⟨⟨v, after⟩, hread, hpos⟩ := Option.map_eq_some_iff.1 hpos
  exact ⟨s, d, v, after, eq_ok_of_toOption hs, eq_ok_of_toOption hd,
    Outcome.done?_eq_some.1 hread, hpos⟩

theorem behindTwo_depends_on_consumed : ∃ s d v after, (⟨[], none⟩ : Builder).build = .ok s ∧
    ofSchema s {} = .ok d ∧ d.answer (.type "Vector<int>") behindOne = .done v after ∧
      ∃ hle, d.answer (.type "Vector<int>") behindTwo =
        .done v ⟨behindTwo.buffer, 2 + (after.pos - 1), hle⟩ := by
  obtain ⟨s, d, v, after, hs, hd, hread, hpos⟩ := exists_behindOne
  refine ⟨s, d, v, after, hs, hd, hread, ?_⟩
  exact (answer_depends_on_consumed hread).2.2.2 behindTwo (by rw [hpos]; decide)

end

end Decoder

end TypeLang
