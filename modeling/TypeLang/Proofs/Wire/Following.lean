import TypeLang.Proofs.Wire.Reads
import TypeLang.Wire.Primitive

/-!
# Primitive forms read alike everywhere

No reader of a primitive form looks at an octet that it does not consume, as far as its value is
concerned: a position is asked for only to report a fault, and what goes back over a tag fails.
Envelopes are opened from the octets they hold, so their content is a wire of its own.
-/

namespace TypeLang.Wire

variable {α : Type}

/-- Whatever `r` reads somewhere, it reads from the same octets anywhere. -/
abbrev Local (r : Reader α) : Prop :=
  Follows r r

/-! ## Numbers -/

lemma local_number (width : ℕ) : Local (Reader.number width) :=
  follows_bind (follows_take width) fun _ => follows_pure _

lemma local_uint32 : Local Reader.uint32 :=
  follows_bind (local_number 4) fun _ => follows_pure _

lemma local_int32 : Local Reader.int32 :=
  follows_bind (local_number 4) fun _ => follows_pure _

lemma local_int64 : Local Reader.int64 :=
  follows_bind (local_number 8) fun _ => follows_pure _

lemma local_double : Local Reader.double :=
  follows_bind (local_number 8) fun _ => follows_pure _

lemma uint32_of_le {c : Cursor} (h : 4 ≤ c.remaining) :
    Reader.uint32 c = .done (UInt32.ofNat (ofLittleEndian (c.next 4))) (c.advance 4 h) := by
  have hnumber : Reader.number 4 c = .done (ofLittleEndian (c.next 4)) (c.advance 4 h) :=
    Reader.bind_of_done (take_of_le h) _
  exact Reader.bind_of_done hnumber _

lemma uint32_of_not_le {c : Cursor} (h : ¬4 ≤ c.remaining) :
    Reader.uint32 c = .failed (.truncated c.pos 4) c := by
  have hnumber : Reader.number 4 c = .failed (.truncated c.pos 4) c :=
    Reader.bind_of_failed (take_of_not_le h) _
  exact Reader.bind_of_failed hnumber _

lemma unknownTag_ne_done (expected : String) (c after : Cursor) (a : α) :
    Reader.unknownTag expected c ≠ .done a after := by
  intro h
  obtain ⟨_, _, -, h⟩ := Reader.bind_eq_done.1 h
  obtain ⟨_, _, -, h⟩ := Reader.bind_eq_done.1 h
  obtain ⟨_, _, -, h⟩ := Reader.bind_eq_done.1 h
  cases h

/-- A tag that is reported has already been read, so that going back over it leaks nothing. -/
lemma yields_unknownTag (expected : String) {P : List UInt8 → α → Prop} :
    Yields (Reader.unknownTag expected) P := by
  intro c after a h
  exact absurd h (unknownTag_ne_done expected c after a)

lemma local_bool : Local Reader.bool :=
  follows_bind local_uint32 fun _ =>
    follows_ite (follows_pure _)
      (follows_ite (follows_pure _) (yields_unknownTag "Bool"))

/-! ## Octet strings -/

lemma local_lengthMark : Local Reader.lengthMark :=
  follows_position fun _ _ =>
    follows_bind (local_number 1) fun _ =>
      follows_ite (follows_fail _ _)
        (follows_ite (follows_bind (local_number 3) fun _ => follows_pure _) (follows_pure _))

lemma local_bytes : Local Reader.bytes :=
  follows_bind local_lengthMark fun mark =>
    follows_bind (follows_take mark.length) fun _ =>
      follows_bind (follows_skip mark.padding) fun _ => follows_pure _

lemma local_randomBytes (least : ℕ) : Local (Reader.randomBytes least) :=
  follows_position fun _ _ =>
    follows_bind local_lengthMark fun _ =>
      follows_ite (follows_fail _ _) (follows_skip _)

lemma local_string : Local Reader.string := by
  refine follows_bind local_bytes fun octets => ?_
  cases Text.unutf8 octets with
  | ok chars => exact follows_pure _
  | error fault => exact follows_fail _ _

/-! ## Envelopes and counts -/

lemma local_opened (limit : ℕ) : Local (Reader.opened limit) := by
  refine follows_position fun m n => follows_bind local_bytes fun packed => ?_
  refine follows_ofExcept fun octets h => ?_
  cases hinflate : Compression.inflate limit packed with
  | error fault => simp [hinflate, Except.mapError] at h
  | ok opened => simpa [hinflate, Except.mapError] using h

lemma local_count : Local Reader.count :=
  follows_position fun _ _ =>
    follows_bind local_int32 fun _ => follows_ite (follows_fail _ _) (follows_pure _)

end TypeLang.Wire
