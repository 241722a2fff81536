import TypeLang.Proofs.Decoder.Tracing
import TypeLang.Proofs.Wire.Ignoring

/-!
# What is ignored is really ignored

What fills up an octet string, what stands in a field of random octets, and the bits of a flag word
that gate no field may be anything: a decoder gives the same value or the same fault and stops at
the same place.  What is ignored depends on the reading, since flag words and tags decide what comes
next; so it is listed by the trace of the first of two readings, also where that one fails.
-/

namespace TypeLang

open Wire

lemma Traced.ignoring {limits : Limits} {α : Type} {tag? : Option UInt32} {r : Reader α}
    {t : Trace} (h : Traced limits tag? r t) : Ignoring tag? r t := by
  induction h with
  | pure a => exact .pure a
  | content predicate cause => exact .fail _
  | tooDeep => exact .position fun _ => .fail _
  | take n _ => exact .take n
  | count => exact .count
  | bytes => exact .bytes
  | randomBytes => exact .randomBytes _
  | bind _ _ ihr ihf => exact ihr.bind ihf
  | word gating _ hgating ih => exact .word gating ih hgating
  | tag _ ih => exact Ignoring.uint32.bind_behind ih isBehind_of_uint32
  | anywhere tag _ ih => exact ih.anywhere tag
  | unknownTag tag expected => exact .unknownTag tag expected
  | packed _ ih => exact (Ignoring.packed _ ih.forward).anywhere _

namespace Decoder

variable {s : Schema} {limits : Limits}

/-- **Ignored octets are really ignored.**  Two wires of one length that differ only in what the
reading of the first ignores are read alike from one place. -/
theorem answer_ignores {b : Builder} {d : Decoder} {request : Request} {c c' : Cursor}
    (hb : b.build = .ok s) (hd : ofSchema s limits = .ok d) (hpos : c.pos = c'.pos)
    (hsize : c.buffer.size = c'.buffer.size)
    (hbits : ∀ i, ¬Ignored (Direct.answerTrace s limits request c) i → c.bit i = c'.bit i) :
    (d.answer request c).Alike (d.answer request c') := by
  rcases Direct.traced_answer hb hd request with htraced | ⟨name, hname, -⟩
  · have hignoring := htraced.ignoring
    exact hignoring.alike trivial trivial ⟨hpos, hsize, fun i hi => hbits i hi.2.2⟩
  · rw [hname]
    exact ⟨rfl, hpos⟩

/-! ### A note with a gated title and random octets -/

section

open Declaration

/-- Notes, sent in the open: flags, a text, random octets, and a mark behind bit 1. -/
def note : Builder :=
  let type (name : String) (bare : Bool) : TypeTerm := .plain ⟨⟨[], name⟩, bare, false⟩
  ⟨[(⟨⟨[], "note"⟩, 0x01020304,
    [⟨"flags", .flagWord⟩, ⟨"text", .value (type "string" true) none⟩,
      ⟨"random_bytes", .value (type "bytes" true) none⟩,
      ⟨"mark", .value (type "int" true) (some ⟨"flags", 1⟩)⟩],
    type "Note" false, .types⟩, .mtproto)], none⟩

/-- A marked note. -/
def plainNote : Cursor :=
  .start <| [4, 3, 2, 1] ++ [2, 0, 0, 0] ++ [2, 0x68, 0x69, 0] ++
    (16 :: List.replicate 16 0 ++ [0, 0, 0]) ++ [7, 0, 0, 0]

/-- The same note with other flags, another filling and other random octets. -/
def noisyNote : Cursor :=
  .start <| [4, 3, 2, 1] ++ [0xFF, 0xFF, 0xFF, 0xFF] ++ [2, 0x68, 0x69, 5] ++
    (16 :: List.replicate 16 9 ++ [1, 2, 3]) ++ [7, 0, 0, 0]

lemma exists_note : ∃ s d, note.build = .ok s ∧ ofSchema s {} = .ok d ∧
    Direct.answerTrace s {} .object plainNote =
      [.word 4 [1], .skipped 11 1, .skipped 13 19] := by
  have hsome : (note.build.toOption.bind fun s =>
      (ofSchema s {}).toOption.map fun _ => Direct.answerTrace s {} .object plainNote) =
        some [.word 4 [1], .skipped 11 1, .skipped 13 19] := by
    decide +kernel
  obtain ⟨s, hs, hsome⟩ := Option.bind_eq_some_iff.1 hsome
  obtain ⟨d, hd, htrace⟩ := Option.map_eq_some_iff.1 hsome
  exact ⟨s, d, eq_ok_of_toOption hs, eq_ok_of_toOption hd, htrace⟩

theorem plainNote_ignores : ∃ s d, note.build = .ok s ∧ ofSchema s {} = .ok d ∧
    plainNote.pos = noisyNote.pos ∧ plainNote.buffer.size = noisyNote.buffer.size ∧
      (∀ i, ¬Ignored (Direct.answerTrace s {} .object plainNote) i →
        plainNote.bit i = noisyNote.bit i) ∧
        (d.answer .object plainNote).Alike (d.answer .object noisyNote) := by
  obtain ⟨s, d, hs, hd, htrace⟩ := exists_note
  have hbits : ∀ i, ¬Ignored (Direct.answerTrace s {} .object plainNote) i →
      plainNote.bit i = noisyNote.bit i := by
    intro i hi
    rw [htrace] at hi
    by_cases hlt : i < 8 * plainNote.buffer.size
    · have hall : ∀ i < 8 * plainNote.buffer.size,
          ¬Ignored [.word 4 [1], .skipped 11 1, .skipped 13 19] i →
            plainNote.bit i = noisyNote.bit i := by
        decide +kernel
      exact hall i hlt hi
    · have hsize : noisyNote.buffer.size = plainNote.buffer.size := rfl
      have hend := Nat.not_lt.1 hlt
      exact (Cursor.bit_of_le hend).trans (Cursor.bit_of_le (hsize ▸ hend)).symm
  exact ⟨s, d, hs, hd, rfl, rfl, hbits, answer_ignores hs hd rfl rfl hbits⟩

end

end Decoder

end TypeLang
