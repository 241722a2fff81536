import TypeLang.Proofs.Decoder.Tracing
import TypeLang.Proofs.Wire.Reporting

/-!
# Faults point at the right place

Whenever a decoder stops with a fault, it stops between where it began and the end of the wire, and
the offset in the fault stands in a fixed relation to the place: at the octets that gave rise to the
fault.  This holds wherever the reader stands that reports, inside of vectors and constructors.  The
fault of what came out of an envelope points into the content instead; then reading of the wire has
stopped right behind the envelope.
-/

namespace TypeLang

open Wire

lemma Traced.reports {limits : Limits} {α : Type} {tag? : Option UInt32} {r : Reader α} {t : Trace}
    (h : Traced limits tag? r t) {c : Cursor} (hc : c.IsBehind tag?) :
    Reports limits.minRandom r (t c) c := by
  induction h generalizing c with
  | pure a => exact .pure a
  | content predicate cause => exact .of_failed rfl rfl le_rfl rfl trivial
  | tooDeep => exact .of_failed rfl rfl le_rfl rfl rfl
  | take n _ => exact .take n
  | count => exact .count
  | bytes => exact .bytes
  | randomBytes => exact .randomBytes
  | bind hr _ ihr ihf => exact .bind hr.forward (ihr trivial) fun _ => ihf _ trivial
  | @word _ f next gating _ _ ih =>
      have hplain : Reports limits.minRandom (Reader.uint32 >>= f)
          (Trace.silent.andThen Reader.uint32 next c) c :=
        .bind .uint32 .uint32 fun _ => ih _ trivial
      exact hplain.congr rfl
  | tag _ ih =>
      exact .bind (t := .silent) .uint32 .uint32 fun htag => ih _ (isBehind_of_uint32 htag)
  | anywhere tag _ ih => exact ih trivial
  | unknownTag tag expected => exact .unknownTag hc expected
  | packed _ ih => exact .packed hc fun hfailed => ((ih trivial).failed hfailed).2.2.1

namespace Decoder

variable {s : Schema} {limits : Limits}

/-- How a reading from a cursor that did these things comes to stop with a fault. -/
structure Stops (limits : Limits) (events : List Event) (c : Cursor) (fault : Fault)
    (stop : Cursor) : Prop where
  buffer_eq : stop.buffer = c.buffer
  start_le : c.pos ≤ stop.pos
  le_end : stop.pos ≤ c.buffer.size
  /-- Unless it is inside an envelope, the fault points at its place. -/
  points : (∀ start behind inner, .envelope start behind (some inner) ∉ events) →
    Points limits.minRandom stop fault
  /-- A fault inside an envelope stops the reading, right behind the envelope. -/
  inside : ∀ start behind inner, .envelope start behind (some inner) ∈ events →
    stop.pos = behind ∧ fault = inner

lemma stops_of_reports {r : Reader Value} {events : List Event} {c : Cursor} {fault : Fault}
    {stop : Cursor} (h : Reports limits.minRandom r events c) (hfailed : r c = .failed fault stop) :
    Stops limits events c fault stop := by
  obtain ⟨hbuffer, hpos, -, hplace⟩ := h.failed hfailed
  have hbroken : ∀ start behind inner, .envelope start behind (some inner) ∈ events →
      (behind, inner) ∈ events.filterMap Event.broken? :=
    fun start behind inner hmem => List.mem_filterMap.2 ⟨_, hmem, rfl⟩
  refine ⟨hbuffer, hpos, hbuffer ▸ stop.pos_le, fun hnone => ?_, fun start behind inner hmem => ?_⟩
  · rcases hplace with ⟨-, hpoints⟩ | hinside
    · exact hpoints
    · have hmem : (stop.pos, fault) ∈ events.filterMap Event.broken? := by
        rw [hinside]
        exact List.mem_singleton_self _
      obtain ⟨e, he, hbreaks⟩ := List.mem_filterMap.1 hmem
      cases e with
      | skipped start length => cases hbreaks
      | word start gating => cases hbreaks
      | envelope start behind fault? =>
          obtain ⟨inner, rfl, -⟩ := Option.map_eq_some_iff.1 hbreaks
          exact absurd he (hnone start behind inner)
  · have hmem := hbroken start behind inner hmem
    rcases hplace with ⟨hnone, -⟩ | hinside
    · rw [hnone] at hmem
      cases hmem
    · rw [hinside] at hmem
      cases List.mem_singleton.1 hmem
      exact ⟨rfl, rfl⟩

/-- **Faults point at the right place.**  A decoder that stops with a fault stops on the wire, not
before its start, and the fault belongs to that place: it points at the octets that gave rise to it,
or it is the fault inside an envelope, behind which the decoder has stopped. -/
theorem answer_stops {b : Builder} {d : Decoder} {request : Request} {c stop : Cursor}
    {fault : Fault} (hb : b.build = .ok s) (hd : ofSchema s limits = .ok d)
    (h : d.answer request c = .failed fault stop) :
    Stops limits (Direct.answerTrace s limits request c) c fault stop := by
  rcases Direct.traced_answer hb hd request with htraced | ⟨name, hname, hsilent⟩
  · exact stops_of_reports (htraced.reports trivial) h
  · rw [hname] at h
    cases h
    rw [hsilent]
    exact ⟨rfl, le_rfl, c.pos_le, fun _ => trivial, fun _ _ _ hmem => absurd hmem List.not_mem_nil⟩

section

/-- A row of two numbers in an envelope, of which the second one is missing. -/
def packedShortRow : Cursor :=
  .start (Write.envelope (Write.uint32 Tag.vector ++ littleEndian 4 2 ++ littleEndian 4 7))

lemma exists_packedShortRow : ∃ s d stop, Builder.empty.build = .ok s ∧ ofSchema s {} = .ok d ∧
    d.answer (.type "Vector<int>") packedShortRow = .failed (.truncated 12 4) stop := by
  have hfault : (Builder.empty.build.toOption.bind fun s =>
      (ofSchema s {}).toOption.bind fun d =>
        (d.answer (.type "Vector<int>") packedShortRow).fault?) = some (.truncated 12 4) := by
    decide +kernel
  obtain ⟨s, hs, hfault⟩ := Option.bind_eq_some_iff.1 hfault
  obtain ⟨d, hd, hfault⟩ := Option.bind_eq_some_iff.1 hfault
  obtain ⟨stop, hfailed⟩ := Outcome.fault?_eq_some.1 hfault
  exact ⟨s, d, stop, eq_ok_of_toOption hs, eq_ok_of_toOption hd, hfailed⟩

theorem packedShortRow_stops : ∃ s d stop, Builder.empty.build = .ok s ∧ ofSchema s {} = .ok d ∧
    d.answer (.type "Vector<int>") packedShortRow = .failed (.truncated 12 4) stop ∧
      Stops {} (Direct.answerTrace s {} (.type "Vector<int>") packedShortRow) packedShortRow
        (.truncated 12 4) stop := by
  obtain ⟨s, d, stop, hs, hd, hfailed⟩ := exists_packedShortRow
  exact ⟨s, d, stop, hs, hd, hfailed, answer_stops hs hd hfailed⟩

end

end Decoder

end TypeLang
