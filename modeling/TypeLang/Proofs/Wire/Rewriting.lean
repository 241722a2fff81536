import TypeLang.Proofs.Wire.Mapped
import TypeLang.Proofs.Wire.RoundTrip

/-!
# Writing again what was read

The reader of a shape takes more than its writer gives: the length of an octet string may stand in
four octets where one would do, any octets fill a string up, and a vector may come in an envelope.
`Shape.readNoted` is the reader with notes of how each string was spelled and of each envelope.

Where no envelope was opened, the value written again is read back, takes no more octets than it was
read from, and takes the very same ones just where each string was spelled as the writer spells it
(`write_of_read`).  Strings decide it, since a vector has as many octets as it had before only if
every element has.
-/

namespace TypeLang.Wire

open Cursor

variable {α : Type}

/-! ## Notes -/

/-- How an octet string is spelled: its mark, and what fills it up. -/
structure Spelling where
  mark : Reader.LengthMark
  filling : List UInt8

/-- A length of at most 253 stands in one octet, and zeros fill up. -/
def Spelling.IsCanonical (s : Spelling) : Prop :=
  (s.mark.length ≤ 253 → s.mark.width = 1) ∧ ∀ b ∈ s.filling, b = 0

/-- What is noted while a value is read. -/
inductive Note where
  /-- An octet string. -/
  | octets (spelling : Spelling)
  /-- An envelope, whose content is not noted. -/
  | envelope

namespace Reader

/-- What was read of some elements, and what was noted of all of them. -/
def gather (elems : List (α × List Note)) : List α × List Note :=
  (elems.map Prod.fst, elems.flatMap Prod.snd)

/-- An octet string. -/
def bytesNoted : Reader (List UInt8 × List Note) := do
  let mark ← lengthMark
  let content ← take mark.length
  let filling ← take mark.padding
  return (content, [.octets ⟨mark, filling⟩])

/-- An octet string that is UTF-8. -/
def stringNoted : Reader (String × List Note) := do
  let (content, notes) ← bytesNoted
  match Text.unutf8 content with
  | .ok chars => return (String.ofList chars, notes)
  | .error fault => fail (.content "string" (.utf8 fault))

/-- A boxed vector, possibly in an envelope. -/
def boxedVectorNoted (limit : ℕ) (elem : Reader (α × List Note)) : Reader (List α × List Note) := do
  let tag ← uint32
  if tag = Tag.vector then
    gather <$> bareVector elem
  else if tag = Tag.gzipPacked then
    let octets ← opened limit
    let items ← within octets (afterVectorTag (bareVector (Prod.fst <$> elem)))
    return (items, [.envelope])
  else
    unknownTag "Vector"

end Reader

/-- Reads a value of a shape and notes how it was spelled. -/
def Shape.readNoted : (s : Shape) → Reader (s.Carrier × List Note)
  | int32 => (·, []) <$> Reader.int32
  | uint32 => (·, []) <$> Reader.uint32
  | int64 => (·, []) <$> Reader.int64
  | double => (·, []) <$> Reader.double
  | bool => (·, []) <$> Reader.bool
  | string => Reader.stringNoted
  | bytes => Reader.bytesNoted
  | fixed size => (·, []) <$> Reader.takeExactly size
  | boxedVector elem => Reader.boxedVectorNoted defaultMaxInflated elem.readNoted
  | bareVector elem => Reader.gather <$> Reader.bareVector elem.readNoted

/-! ## Notes change nothing -/

namespace Reader

lemma fst_map_silent (r : Reader α) : Prod.fst <$> ((·, ([] : List Note)) <$> r) = r := by
  rw [← comp_map]
  exact id_map r

lemma fst_map_bytesNoted : Prod.fst <$> bytesNoted = bytes := by
  unfold bytesNoted bytes skip
  simp only [map_bind, map_pure, bind_assoc, pure_bind]

lemma fst_map_stringNoted : Prod.fst <$> stringNoted = string := by
  unfold stringNoted string
  rw [← fst_map_bytesNoted, map_bind, bind_map_left]
  refine bind_congr fun (content, notes) => ?_
  dsimp only
  cases Text.unutf8 content <;> rfl

lemma fst_map_gather (r : Reader (List (α × List Note))) :
    Prod.fst <$> (gather <$> r) = List.map Prod.fst <$> r := by
  rw [← comp_map]
  rfl

lemma fst_map_boxedVectorNoted (limit : ℕ) (elem : Reader (α × List Note)) :
    Prod.fst <$> boxedVectorNoted limit elem = boxedVector limit (Prod.fst <$> elem) := by
  unfold boxedVectorNoted boxedVector
  rw [map_bind]
  refine bind_congr fun tag => ?_
  rw [apply_ite (Prod.fst <$> ·), apply_ite (Prod.fst <$> ·), fst_map_gather, ← bareVector_map,
    map_unknownTag]
  simp only [map_bind, map_pure, bind_pure]

end Reader

/-- Without its notes it is the reader of the shape. -/
lemma fst_map_readNoted (s : Shape) : Prod.fst <$> s.readNoted = s.read := by
  induction s with
  | string => exact Reader.fst_map_stringNoted
  | bytes => exact Reader.fst_map_bytesNoted
  | boxedVector elem ih =>
      have hvector := Reader.fst_map_boxedVectorNoted defaultMaxInflated elem.readNoted
      rw [ih] at hvector
      exact hvector
  | bareVector elem ih =>
      have hvector := Reader.fst_map_gather (Reader.bareVector elem.readNoted)
      rw [← Reader.bareVector_map, ih] at hvector
      exact hvector
  | _ => exact Reader.fst_map_silent _

/-! ## The same octets or fewer -/

/-- What is written is no longer than what was read, and the same if all that was noted is
canonical. -/
structure Rewritten (written read : List UInt8) (notes : List Note) : Prop where
  length_le : written.length ≤ read.length
  eq_iff : written = read ↔ ∀ spelling, .octets spelling ∈ notes → spelling.IsCanonical

namespace Rewritten

lemma refl (w : List UInt8) : Rewritten w w [] :=
  ⟨le_rfl, by simp⟩

/-- Two parts are the same together only if each is, as neither gets longer. -/
lemma append {a a' w w' : List UInt8} {notes notes' : List Note} (h : Rewritten a w notes)
    (h' : Rewritten a' w' notes') : Rewritten (a ++ a') (w ++ w') (notes ++ notes') := by
  have hle := h.length_le
  have hle' := h'.length_le
  refine ⟨by simp only [List.length_append]; omega, ?_⟩
  have hparts : a ++ a' = w ++ w' ↔ a = w ∧ a' = w' := by
    refine ⟨fun heq => List.append_inj heq ?_, fun ⟨ha, ha'⟩ => by rw [ha, ha']⟩
    have hlength := congrArg List.length heq
    simp only [List.length_append] at hlength
    omega
  rw [hparts, h.eq_iff, h'.eq_iff]
  simp only [List.mem_append, or_imp, forall_and]

lemma behind {a w : List UInt8} {notes : List Note} (h : Rewritten a w notes) (v : List UInt8) :
    Rewritten (v ++ a) (v ++ w) notes :=
  (refl v).append h

/-- A row is rewritten element by element. -/
lemma flatten {write : α → List UInt8} {ws : List (List UInt8)} {elems : List (α × List Note)}
    (h : List.Forall₂ (fun w p => Rewritten (write p.1) w p.2) ws elems) :
    Rewritten (elems.map fun p => write p.1).flatten ws.flatten (elems.flatMap Prod.snd) := by
  induction h with
  | nil => exact refl []
  | cons helem _ ih => exact helem.append ih

end Rewritten

/-! ## Octet strings -/

lemma lengthMark_of_le {n : ℕ} (h : n ≤ 253) : Write.lengthMark n = [UInt8.ofNat n] :=
  if_pos h

lemma lengthMark_of_lt {n : ℕ} (h : 253 < n) : Write.lengthMark n = 0xFE :: littleEndian 3 n :=
  if_neg (Nat.not_le.2 h)

/-- A mark is the one that would be written, or longer than that. -/
lemma mark_eq_or {w : List UInt8} {n : ℕ} (h : IsMark n w) :
    w = Write.lengthMark n ∨ n ≤ 253 ∧ w = 0xFE :: littleEndian 3 n := by
  rcases h with ⟨hlt, hw⟩ | ⟨-, hw⟩
  · exact .inl (hw.trans (lengthMark_of_le (Nat.le_of_lt_succ hlt)).symm)
  · rcases Nat.lt_or_ge 253 n with hlt | hle
    · exact .inl (hw.trans (lengthMark_of_lt hlt).symm)
    · exact .inr ⟨hle, hw⟩

lemma bytes_eq (content : List UInt8) :
    Write.bytes content = Write.lengthMark content.length ++ (content ++
      List.replicate (Reader.padding ((Write.lengthMark content.length).length + content.length))
        0) := by
  rw [Write.bytes, Write.filling, List.append_assoc, List.length_append]
  rfl

/-- Behind the mark that would be written, only what fills up may differ. -/
lemma rewritten_marked {content filling : List UInt8}
    (hfilling : filling.length =
      Reader.padding ((Write.lengthMark content.length).length + content.length)) :
    Rewritten (Write.bytes content) (Write.lengthMark content.length ++ (content ++ filling))
      [.octets ⟨⟨content.length, (Write.lengthMark content.length).length⟩, filling⟩] := by
  rw [bytes_eq]
  refine ⟨by simp [hfilling], ?_⟩
  have hshort : content.length ≤ 253 → (Write.lengthMark content.length).length = 1 := fun hle => by
    rw [lengthMark_of_le hle, List.length_singleton]
  rw [List.append_cancel_left_eq, List.append_cancel_left_eq, eq_comm, List.eq_replicate_iff]
  simp only [hfilling, true_and, List.mem_singleton, Note.octets.injEq, forall_eq,
    Spelling.IsCanonical, and_iff_right hshort]

/-- A mark of four octets where one would do is never written, and takes no fewer octets. -/
lemma rewritten_longer {content filling : List UInt8} (hle : content.length ≤ 253)
    (hfilling : filling.length = Reader.padding (4 + content.length)) :
    Rewritten (Write.bytes content) (0xFE :: littleEndian 3 content.length ++ (content ++ filling))
      [.octets ⟨⟨content.length, 4⟩, filling⟩] := by
  rw [bytes_eq, lengthMark_of_le hle]
  refine ⟨?_, ?_⟩
  · simp only [List.length_append, List.length_replicate, List.length_cons, List.length_nil,
      length_littleEndian, hfilling, Reader.padding]
    omega
  · have hoctet : UInt8.ofNat content.length ≠ 0xFE := by
      rw [Ne, ← UInt8.toNat_inj, UInt8.toNat_ofNat']
      have : (0xFE : UInt8).toNat = 254 := rfl
      omega
    simp [Spelling.IsCanonical, hoctet, hle]

lemma yields_bytesNoted : Yields Reader.bytesNoted fun w r =>
    IsShort r.1 ∧ Rewritten (Write.bytes r.1) w r.2 := by
  refine yields_bind yields_lengthMark fun w mark hmark => ?_
  obtain ⟨length, width⟩ := mark
  refine yields_bind (yields_take length) fun w' content hcontent => ?_
  refine yields_bind_pure (yields_take _) fun w'' filling hfilling => ?_
  dsimp only at hmark ⊢
  obtain ⟨hmark, rfl⟩ := hmark
  obtain ⟨rfl, rfl⟩ := hcontent
  obtain ⟨rfl, hpadding⟩ := hfilling
  refine ⟨hmark.lt, ?_⟩
  rcases mark_eq_or hmark with rfl | ⟨hle, rfl⟩
  · exact rewritten_marked hpadding
  · exact rewritten_longer hle hpadding

lemma yields_takeExactly (size : ℕ) :
    Yields (Reader.takeExactly size) fun w octets => w = octets.val := by
  intro c after octets h
  unfold Reader.takeExactly at h
  split at h
  case isFalse => cases h
  case isTrue hn =>
    cases h
    exact ⟨size, hn, rfl, rfl⟩

lemma yields_stringNoted : Yields Reader.stringNoted fun w r =>
    IsShort (Text.utf8 r.1.toList) ∧ Rewritten (Write.string r.1) w r.2 := by
  refine yields_bind yields_bytesNoted fun w (content, notes) hcontent => ?_
  dsimp only
  cases hchars : Text.unutf8 content with
  | error fault => exact yields_fail _
  | ok chars =>
      refine yields_pure ?_
      rw [List.append_nil, Write.string, String.toList_ofList, Text.utf8_of_unutf8 hchars]
      exact hcontent

/-! ## Shapes -/

/-- A value that was read may be written, and writing it gives no more octets. -/
def RewrittenAs (s : Shape) (w : List UInt8) (r : s.Carrier × List Note) : Prop :=
  .envelope ∉ r.2 → s.Fits r.1 ∧ Rewritten (s.write r.1) w r.2

section

variable {elem : Shape}

/-- A row that was read has a count that may be written, and its elements are rewritten. -/
lemma rewritten_row {ws : List (List UInt8)} {elems : List (elem.Carrier × List Note)}
    (hlength : elems.length < 2 ^ 31) (helems : List.Forall₂ (RewrittenAs elem) ws elems)
    (hopen : .envelope ∉ (Reader.gather elems).2) :
    RowFits elem.Fits (Reader.gather elems).1 ∧
      Rewritten (Write.bareVector ((Reader.gather elems).1.map elem.write)) (Write.bareVector ws)
        (Reader.gather elems).2 := by
  have hplain : ∀ p ∈ elems, .envelope ∉ p.2 := fun p hp henvelope =>
    hopen (List.mem_flatMap.2 ⟨p, hp, henvelope⟩)
  have hparts : List.Forall₂ (fun w p => elem.Fits p.1 ∧ Rewritten (elem.write p.1) w p.2)
      ws elems :=
    List.forall₂_iff_get.2 ⟨helems.length_eq, fun i h h' =>
      helems.get h h' (hplain _ (List.get_mem _ _))⟩
  refine ⟨⟨by simpa [Reader.gather] using hlength, ?_⟩, ?_⟩
  · intro v hv
    obtain ⟨p, hp, rfl⟩ := List.mem_map.1 hv
    obtain ⟨i, rfl⟩ := List.get_of_mem hp
    have hi : i < ws.length := by
      rw [helems.length_eq]
      exact i.isLt
    exact (hparts.get hi i.isLt).1
  · have hrow := Rewritten.flatten (hparts.imp fun _ _ h => h.2)
    unfold Write.bareVector
    rw [List.length_map, Reader.gather, List.length_map, ← helems.length_eq, List.map_map]
    exact hrow.behind _

lemma yields_silent {s : Shape} {r : Reader s.Carrier} (hr : Yields r fun w v => w = s.write v)
    (hfits : ∀ v, s.Fits v) : Yields ((·, []) <$> r) (RewrittenAs s) := by
  rw [map_eq_pure_bind]
  refine yields_bind_pure hr fun w v hw _ => ⟨hfits v, ?_⟩
  rw [hw]
  exact .refl _

lemma yields_gather (h : Yields elem.readNoted (RewrittenAs elem)) :
    Yields (Reader.gather <$> Reader.bareVector elem.readNoted)
      (RewrittenAs (.bareVector elem)) := by
  rw [map_eq_pure_bind]
  refine yields_bind_pure (yields_bareVector h) fun w elems hw hopen => ?_
  obtain ⟨hlength, ws, helems, rfl⟩ := hw
  exact rewritten_row hlength helems hopen

end

/-- Whatever is read from octets of its own, none of the wire is consumed. -/
lemma yields_within_nil (octets : List UInt8) (r : Reader α) :
    Yields (Reader.within octets r) fun w _ => w = [] := by
  intro c after a hrun
  unfold Reader.within at hrun
  split at hrun
  case h_2 => cases hrun
  case h_1 =>
    cases hrun
    exact ⟨0, Nat.zero_le _, rfl, by rw [next_eq_take, List.take_zero]⟩

/-- By the shape: what was noted of the elements decides about a vector. -/
lemma yields_readNoted (s : Shape) : Yields s.readNoted (RewrittenAs s) := by
  induction s with
  | int32 => exact yields_silent yields_int32 fun _ => trivial
  | uint32 => exact yields_silent yields_uint32 fun _ => trivial
  | int64 => exact yields_silent yields_int64 fun _ => trivial
  | double => exact yields_silent yields_double fun _ => trivial
  | bool => exact yields_silent yields_bool fun _ => trivial
  | string => exact yields_stringNoted.imp fun _ _ h _ => h
  | bytes => exact yields_bytesNoted.imp fun _ _ h _ => h
  | fixed size => exact yields_silent (yields_takeExactly size) fun _ => trivial
  | bareVector elem ih => exact yields_gather ih
  | boxedVector elem ih =>
      refine yields_bind yields_uint32 fun w tag hw => ?_
      refine yields_ite (fun hvector => ?_) fun _ => yields_ite (fun _ => ?_) fun _ =>
        yields_unknownTag "Vector"
      · refine (yields_gather ih).imp fun w' r hr hopen => ?_
        obtain ⟨hfits, hrow⟩ := hr hopen
        rw [hw, hvector]
        exact ⟨hfits, hrow.behind _⟩
      · -- An envelope is noted, so that nothing is said about what comes of it.
        refine yields_bind (local_opened defaultMaxInflated) fun _ octets _ => ?_
        exact yields_bind_pure (yields_within_nil octets _) fun _ _ _ hopen =>
          absurd (List.mem_singleton_self _) hopen

/-- **What was read is written again in canonical form.**  Where no envelope was opened, the value
is read back from what is written, which takes no more octets than were read, and the same ones
just where every octet string had the shortest mark and was filled up with zeros. -/
theorem write_of_read (s : Shape) {c after : Cursor} {v : s.Carrier}
    (h : s.read c = .done v after) :
    ∃ notes, s.readNoted c = .done (v, notes) after ∧
      (.envelope ∉ notes → ∃ (n : ℕ) (hn : n ≤ c.remaining), after = c.advance n hn ∧
        (s.write v).length ≤ n ∧
        (∀ before rest, s.read (between before (s.write v ++ rest)) =
          .done v (between (before ++ s.write v) rest)) ∧
        (s.write v = c.next n ↔ ∀ spelling, .octets spelling ∈ notes → spelling.IsCanonical)) := by
  rw [← fst_map_readNoted, Reader.map_apply] at h
  cases hnoted : s.readNoted c with
  | failed fault stop =>
      rw [hnoted] at h
      cases h
  | done r m =>
      rw [hnoted] at h
      cases h
      obtain ⟨v, notes⟩ := r
      refine ⟨notes, rfl, fun hopen => ?_⟩
      obtain ⟨n, hn, hafter, hr⟩ := yields_readNoted s _ _ _ hnoted
      obtain ⟨hfits, hlength, hiff⟩ := hr hopen
      rw [length_next hn] at hlength
      exact ⟨n, hn, hafter, hlength, (reads_write s hfits).between, hiff⟩

section

/-- A row of two octet strings, the first behind a mark of four octets and not filled with zeros. -/
def laxRow : Cursor :=
  between [9] ([2, 0, 0, 0] ++ [0xFE, 2, 0, 0, 0x68, 0x69, 7, 0] ++ [1, 0x61, 0, 0])

/-- What is noted of them. -/
def laxNotes : List Note :=
  [.octets ⟨⟨2, 4⟩, [7, 0]⟩, .octets ⟨⟨1, 1⟩, [0, 0]⟩]

theorem laxRow_written_again :
    (Shape.bareVector .bytes).read laxRow =
        .done [[0x68, 0x69], [0x61]] (laxRow.advance 16 (by decide)) ∧
      .envelope ∉ laxNotes ∧
      ((Shape.bareVector .bytes).write [[0x68, 0x69], [0x61]]).length ≤ 16 ∧
      (Shape.bareVector .bytes).write [[0x68, 0x69], [0x61]] ≠ laxRow.next 16 := by
  have hread : (Shape.bareVector .bytes).read laxRow =
      .done [[0x68, 0x69], [0x61]] (laxRow.advance 16 (by decide)) := rfl
  have hnoted : (Shape.bareVector .bytes).readNoted laxRow =
      .done ([[0x68, 0x69], [0x61]], laxNotes) (laxRow.advance 16 (by decide)) := rfl
  have hopen : .envelope ∉ laxNotes := by simp [laxNotes]
  obtain ⟨notes, hnotes, hwritten⟩ := write_of_read _ hread
  obtain rfl : laxNotes = notes := congrArg Prod.snd (Outcome.done.inj (hnoted.symm.trans hnotes)).1
  obtain ⟨n, hn, hafter, hlength, -, hiff⟩ := hwritten hopen
  obtain rfl : 16 = n := by simpa [Cursor.advance] using congrArg Cursor.pos hafter
  refine ⟨hread, hopen, hlength, fun hsame => ?_⟩
  have hcanonical := hiff.1 hsame ⟨⟨2, 4⟩, [7, 0]⟩ (by simp [laxNotes])
  exact absurd (hcanonical.1 (by decide)) (by decide)

end

end TypeLang.Wire
