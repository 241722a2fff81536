import TypeLang.Proofs.Decoder.Tracing
import TypeLang.Proofs.Schema.Building
import TypeLang.Proofs.Wire.Written
import TypeLang.Wire.Shape

/-!
# Whole words

Everything on the wire takes whole words of four octets.  Numbers and blobs do by their sizes; octet
strings are filled up to whole words, wherever their mark is of one octet or of four; and what is
put together from whole words is one of whole words.  So nothing that a decoder reads moves what
follows it out of step, and neither does anything that is written.

What comes out of an envelope is a wire of its own and need not be used up.  The envelope itself is
an octet string behind a tag.
-/

namespace TypeLang

open Wire

namespace Wire

variable {α β : Type}

/-! ## Reading whole words -/

/-- What `r` consumes, where it reads something, are whole words. -/
def Aligned (r : Reader α) : Prop :=
  Yields r fun w _ => 4 ∣ w.length

namespace Aligned

lemma pure (a : α) : Aligned (Pure.pure a : Reader α) :=
  yields_pure (dvd_zero 4)

lemma fail (fault : Fault) : Aligned (Reader.fail fault : Reader α) :=
  yields_fail fault

lemma bind {r : Reader α} {f : α → Reader β} (hr : Aligned r) (hf : ∀ a, Aligned (f a)) :
    Aligned (r >>= f) := by
  refine yields_bind hr fun w a hw => (hf a).imp fun w' _ hw' => ?_
  rw [List.length_append]
  exact dvd_add hw hw'

lemma ite {p : Prop} [Decidable p] {r t : Reader α} (hr : Aligned r) (ht : Aligned t) :
    Aligned (if p then r else t) :=
  yields_ite (fun _ => hr) fun _ => ht

lemma ofExcept (x : Except Fault α) : Aligned (Reader.ofExcept x) :=
  yields_ofExcept fun _ _ => dvd_zero 4

lemma take {n : ℕ} (hn : 4 ∣ n) : Aligned (Reader.take n) := by
  refine (yields_take n).imp fun w octets => ?_
  rintro ⟨rfl, rfl⟩
  exact hn

lemma number {width : ℕ} (hwidth : 4 ∣ width) : Aligned (Reader.number width) :=
  (take hwidth).bind fun _ => pure _

lemma uint32 : Aligned Reader.uint32 :=
  (number (by decide)).bind fun _ => pure _

lemma int32 : Aligned Reader.int32 :=
  (number (by decide)).bind fun _ => pure _

lemma count : Aligned Reader.count :=
  yields_position fun _ => int32.bind fun _ => ite (fail _) (pure _)

lemma bytes : Aligned Reader.bytes :=
  yields_bytes.imp fun _ _ h => h.four_dvd

lemma randomBytes (least : ℕ) : Aligned (Reader.randomBytes least) := by
  refine (yields_randomBytes least).imp fun w _ => ?_
  rintro ⟨content, -, h⟩
  exact h.four_dvd

lemma opened (limit : ℕ) : Aligned (Reader.opened limit) :=
  yields_position fun _ => bytes.bind fun _ => ofExcept _

/-- What comes out of an envelope takes nothing of the wire around it. -/
lemma within {r : Reader α} (hr : Aligned r) (octets : List UInt8) :
    Aligned (Reader.within octets r) := by
  refine (yields_within hr octets).imp fun w _ => ?_
  rintro ⟨rfl, -⟩
  exact dvd_zero 4

/-- The distance that a reading goes is a number of whole words. -/
lemma dvd_pos {r : Reader α} (hr : Aligned r) {c after : Cursor} {a : α}
    (h : r c = .done a after) :
    after.buffer = c.buffer ∧ c.pos ≤ after.pos ∧ 4 ∣ after.pos - c.pos := by
  obtain ⟨n, hn, rfl, hdvd⟩ := hr c after a h
  have hpos : (c.advance n hn).pos - c.pos = n := Nat.add_sub_cancel_left c.pos n
  rw [hpos]
  rw [Cursor.length_next hn] at hdvd
  exact ⟨rfl, Nat.le_add_right c.pos n, hdvd⟩

end Aligned

/-! ## Writing whole words -/

/-- Every blob in the shape is one of whole words. -/
def Shape.IsWhole : Shape → Prop
  | .fixed size => 4 ∣ size
  | .boxedVector elem | .bareVector elem => elem.IsWhole
  | _ => True

lemma four_dvd_bytes (content : List UInt8) : 4 ∣ (Write.bytes content).length := by
  rw [Write.bytes, List.length_append, Write.filling, List.length_replicate]
  omega

lemma four_dvd_bareVector {elems : List (List UInt8)} (h : ∀ w ∈ elems, 4 ∣ w.length) :
    4 ∣ (Write.bareVector elems).length := by
  rw [Write.bareVector, List.length_append, length_littleEndian, List.length_flatten]
  refine dvd_add (dvd_refl 4) (List.dvd_sum fun n hn => ?_)
  obtain ⟨w, hw, rfl⟩ := List.mem_map.1 hn
  exact h w hw

/-- By the shape: a vector is written in whole words because its elements are. -/
lemma four_dvd_write (shape : Shape) (hshape : shape.IsWhole) (v : shape.Carrier) :
    4 ∣ (shape.write v).length := by
  induction shape with
  | int32 => exact (length_littleEndian 4 _).symm ▸ dvd_refl 4
  | uint32 => exact (length_littleEndian 4 _).symm ▸ dvd_refl 4
  | int64 => exact (length_littleEndian 8 _).symm ▸ ⟨2, rfl⟩
  | double => exact (length_littleEndian 8 _).symm ▸ ⟨2, rfl⟩
  | bool => exact (length_littleEndian 4 _).symm ▸ dvd_refl 4
  | string => exact four_dvd_bytes _
  | bytes => exact four_dvd_bytes v
  | fixed size => exact v.property.symm ▸ hshape
  | boxedVector elem ih =>
      have hrow : 4 ∣ (Write.bareVector (List.map elem.write v)).length := by
        refine four_dvd_bareVector fun w hw => ?_
        obtain ⟨u, -, rfl⟩ := List.mem_map.1 hw
        exact ih hshape u
      exact List.length_append.symm ▸ dvd_add (dvd_refl 4) hrow
  | bareVector elem ih =>
      refine four_dvd_bareVector fun w hw => ?_
      obtain ⟨u, -, rfl⟩ := List.mem_map.1 hw
      exact ih hshape u

end Wire

/-! ## Decoders -/

lemma Traced.aligned {limits : Limits} {α : Type} {tag? : Option UInt32} {r : Reader α}
    {t : Trace} (h : Traced limits tag? r t) : Aligned r := by
  induction h with
  | pure a => exact .pure a
  | content predicate cause => exact .fail _
  | tooDeep => exact yields_position fun _ => Aligned.fail _
  | take n hn => exact .take hn
  | count => exact .count
  | bytes => exact .bytes
  | randomBytes => exact .randomBytes _
  | bind _ _ ihr ihf => exact ihr.bind ihf
  | word _ _ _ ih => exact Aligned.uint32.bind ih
  | tag _ ih => exact Aligned.uint32.bind ih
  | anywhere _ _ ih => exact ih
  | unknownTag _ expected => exact yields_unknownTag expected
  | packed _ ih => exact (Aligned.opened _).bind ih.within

namespace Decoder

/-- **Everything takes whole words.**  Whatever a decoder is asked for, and wherever it starts, it
goes on by whole words to where it ends; and every value of a shape whose blobs are of whole words
is written in whole words. -/
theorem answer_aligned {b : Builder} {s : Schema} {limits : Limits} {d : Decoder}
    (hb : b.build = .ok s) (hd : ofSchema s limits = .ok d) :
    (∀ {request : Request} {c after : Cursor} {v : Value}, d.answer request c = .done v after →
      after.buffer = c.buffer ∧ c.pos ≤ after.pos ∧ 4 ∣ after.pos - c.pos) ∧
        ∀ shape : Shape, shape.IsWhole → ∀ v : shape.Carrier, 4 ∣ (shape.write v).length := by
  refine ⟨fun {request c after v} h => ?_, four_dvd_write⟩
  rcases Direct.traced_answer hb hd request with htraced | ⟨name, hname, -⟩
  · exact htraced.aligned.dvd_pos h
  · rw [hname] at h
    cases h

section

/-- Letters with a waveform behind bit 0, random octets and a row of numbers. -/
def letters : Builder :=
  (Builder.empty.addSource ("letter#01020304 flags:# text:string waveform:flags.0?bytes " ++
    "random_bytes:bytes marks:Vector<int> = Letter;").toList .api).1

/-- A letter in an envelope, behind one octet of something else and before another. -/
def packedLetter : Cursor :=
  .between [9] <| Write.envelope (Write.uint32 0x01020304 ++ Write.uint32 1 ++
    Write.string "five!" ++ Write.bytes [1, 2, 3, 4, 5] ++ Write.bytes (List.replicate 16 7) ++
    Write.boxedVector [Write.int32 1]) ++ [9]

lemma exists_packedLetter : ∃ s d v after, letters.build = .ok s ∧ ofSchema s {} = .ok d ∧
    d.answer (.type "Letter") packedLetter = .done v after ∧ after.pos = 85 := by
  have hpos : (letters.build.toOption.bind fun s => (ofSchema s {}).toOption.bind fun d =>
      (d.answer (.type "Letter") packedLetter).done?.map fun o => o.2.pos) = some 85 := by
    decide +kernel
  obtain ⟨s, hs, hpos⟩ := Option.bind_eq_some_iff.1 hpos
  obtain ⟨d, hd, hpos⟩ := Option.bind_eq_some_iff.1 hpos
  obtain ⟨⟨v, after⟩, hread, hpos⟩ := Option.map_eq_some_iff.1 hpos
  exact ⟨s, d, v, after, eq_ok_of_toOption hs, eq_ok_of_toOption hd,
    Outcome.done?_eq_some.1 hread, hpos⟩

theorem packedLetter_aligned : ∃ s d v after, letters.build = .ok s ∧ ofSchema s {} = .ok d ∧
    d.answer (.type "Letter") packedLetter = .done v after ∧ after.pos = 85 ∧
      4 ∣ after.pos - packedLetter.pos ∧
        4 ∣ ((Shape.boxedVector (.fixed 8)).write [⟨List.replicate 8 7, rfl⟩]).length := by
  obtain ⟨s, d, v, after, hs, hd, hread, hpos⟩ := exists_packedLetter
  obtain ⟨hreads, hwrites⟩ := answer_aligned hs hd
  have hwhole : (Shape.boxedVector (.fixed 8)).IsWhole := ⟨2, rfl⟩
  exact ⟨s, d, v, after, hs, hd, hread, hpos, (hreads hread).2.2, hwrites _ hwhole _⟩

end

end Decoder

end TypeLang
