import TypeLang.Proofs.Wire.Forward
import TypeLang.Proofs.Wire.Trace
import TypeLang.Proofs.Wire.Written

/-!
# Where faults point

A fault of framing gives an offset, and reading stops at a cursor.  `Points` says for each fault how
the two belong together and which octets between them gave rise to it.  A fault in the content of an
envelope points into the content; there reading stops behind the envelope, and the trace says with
what fault.

`Reports` says of one reading that it ends so.  Readings that are made one after another report if
each does, since a second one starts where the first has ended.
-/

namespace TypeLang.Wire

variable {α β : Type}

/-! ## Octets that have been read -/

namespace Cursor

/-- The octets from `offset` up to the cursor. -/
def HasRead (c : Cursor) (offset : ℕ) (octets : List UInt8) : Prop :=
  offset + octets.length = c.pos ∧ (c.buffer.extract offset c.pos).toList = octets

lemma hasRead_advance (c : Cursor) {n : ℕ} (h : n ≤ c.remaining) :
    (c.advance n h).HasRead c.pos (c.next n) :=
  ⟨congrArg (c.pos + ·) (length_next h), rfl⟩

lemma HasRead.append {c : Cursor} {offset : ℕ} {w : List UInt8} (hw : c.HasRead offset w) {n : ℕ}
    (h : n ≤ c.remaining) : (c.advance n h).HasRead offset (w ++ c.next n) := by
  obtain ⟨hlength, hoctets⟩ := hw
  refine ⟨?_, ?_⟩
  · rw [List.length_append, length_next h, ← Nat.add_assoc, hlength]
    rfl
  · have hsplit : (c.buffer.extract offset c.pos ++ c.buffer.extract c.pos (c.pos + n)) =
        c.buffer.extract offset (c.pos + n) := by
      rw [Array.extract_append_extract, Nat.min_eq_left (by omega), Nat.max_eq_right (by omega)]
    show (c.buffer.extract offset (c.pos + n)).toList = w ++ c.next n
    rw [← hsplit, Array.toList_append, hoctets]
    rfl

lemma IsBehind.hasRead {c : Cursor} {tag : UInt32} (h : c.IsBehind (some tag)) :
    c.HasRead (c.pos - 4) (Write.uint32 tag) := by
  obtain ⟨m, hm, rfl⟩ := h
  have hread := hasRead_advance m hm.length_le
  rw [hm.next_eq] at hread
  exact hread

end Cursor

/-! ## What a fault says about its place -/

/-- How a fault belongs to the cursor at which reading stopped. -/
def Points (least : ℕ) (stop : Cursor) : Fault → Prop
  | .truncated offset needed => offset = stop.pos ∧ stop.remaining < needed
  | .unknownTag tag offset _ => stop.HasRead offset (littleEndian 4 tag.toNat)
  | .malformedLength offset value =>
    value = 255 ∧ stop.HasRead offset [0xFF] ∨
      value < 0 ∧ ∃ n : Int32, n.toInt = value ∧ stop.HasRead offset (Write.int32 n)
  | .shortPadding offset length =>
    length < least ∧
      (length < 254 ∧ stop.HasRead offset [UInt8.ofNat length] ∨
        length < 2 ^ 24 ∧ stop.HasRead offset (0xFE :: littleEndian 3 length))
  | .tooDeep offset _ => offset = stop.pos
  | .envelope offset _ =>
    ∃ w packed, Reads Reader.bytes w packed ∧
      stop.HasRead offset (littleEndian 4 Tag.gzipPacked.toNat ++ w)
  | .unsupported _ _ => False
  | .content _ _ | .unknownType _ => True

/-- Whether a fault says that the schema does not provide what is asked for. -/
def Fault.isOfSchema : Fault → Bool
  | unknownType _ | unsupported _ _ => true
  | _ => false

/-- Where reading goes on behind an envelope whose content has a fault, and the fault. -/
def Event.broken? : Event → Option (ℕ × Fault)
  | envelope _ stop fault? => fault?.map (stop, ·)
  | _ => none

/-- A reading from a cursor reports its fault, if any: it points at its place, or it is the fault of
the content of an envelope, behind which reading has stopped. -/
structure Reports (least : ℕ) (r : Reader α) (events : List Event) (c : Cursor) : Prop where
  done : ∀ {a after}, r c = .done a after → events.filterMap Event.broken? = []
  failed : ∀ {fault stop}, r c = .failed fault stop →
    stop.buffer = c.buffer ∧ c.pos ≤ stop.pos ∧ fault.isOfSchema = false ∧
      (events.filterMap Event.broken? = [] ∧ Points least stop fault ∨
        events.filterMap Event.broken? = [(stop.pos, fault)])

lemma broken_octets (c : Cursor) : (Trace.octets c).filterMap Event.broken? = [] := by
  unfold Trace.octets Trace.andThen
  cases Reader.lengthMark c with
  | failed fault stop => rfl
  | done mark m =>
      simp only [Trace.silent, List.nil_append]
      cases Reader.take mark.length m <;> rfl

lemma broken_random (least : ℕ) (c : Cursor) :
    (Trace.random least c).filterMap Event.broken? = [] := by
  unfold Trace.random Trace.andThen
  cases Reader.lengthMark c with
  | failed fault stop => rfl
  | done mark m =>
      simp only [Trace.silent, List.nil_append]
      split_ifs <;> rfl

/-! ## What has been read -/

lemma hasRead_of_yields {r : Reader α} {write : α → List UInt8}
    (hr : Yields r fun w a => w = write a) {c m : Cursor} {a : α} (h : r c = .done a m) :
    m.HasRead c.pos (write a) := by
  obtain ⟨n, hn, rfl, hwritten⟩ := hr _ _ _ h
  exact hwritten ▸ c.hasRead_advance hn

lemma hasRead_of_number {width n : ℕ} {c m : Cursor} (h : Reader.number width c = .done n m) :
    m.HasRead c.pos (littleEndian width n) :=
  hasRead_of_yields ((yields_number width).imp fun _ _ hw => hw.1) h

namespace Reports

variable {least : ℕ} {r : Reader α} {t : Trace} {c : Cursor} {events events' : List Event}

/-! ## Combining -/

/-- Events that break off alike are as good as each other. -/
lemma congr (h : Reports least r events c)
    (hevents : events'.filterMap Event.broken? = events.filterMap Event.broken?) :
    Reports least r events' c := by
  refine ⟨fun hdone => ?_, fun hfailed => ?_⟩
  · rw [hevents]
    exact h.done hdone
  · rw [hevents]
    exact h.failed hfailed

lemma of_done {a : α} {after : Cursor} (h : r c = .done a after) : Reports least r [] c := by
  refine ⟨fun _ => rfl, fun hfailed => ?_⟩
  rw [h] at hfailed
  cases hfailed

/-- Reading that stops where it is, or behind something that has been read. -/
lemma of_failed {fault : Fault} {stop : Cursor} (h : r c = .failed fault stop)
    (hbuffer : stop.buffer = c.buffer) (hpos : c.pos ≤ stop.pos)
    (hschema : fault.isOfSchema = false) (hpoints : Points least stop fault) :
    Reports least r [] c := by
  refine ⟨fun _ => rfl, fun hfailed => ?_⟩
  rw [h] at hfailed
  cases hfailed
  exact ⟨hbuffer, hpos, hschema, .inl ⟨rfl, hpoints⟩⟩

lemma bind {f : α → Reader β} {next : α → Trace} (hforward : Forward r)
    (hr : Reports least r (t c) c)
    (hf : ∀ {a m}, r c = .done a m → Reports least (f a) (next a m) m) :
    Reports least (r >>= f) (t.andThen r next c) c := by
  cases ha : r c with
  | failed fault stop =>
      have hwhole : (r >>= f) c = .failed fault stop := Reader.bind_of_failed ha f
      rw [Trace.andThen_of_failed ha]
      refine ⟨fun hdone => ?_, fun hfailed => ?_⟩
      · rw [hwhole] at hdone
        cases hdone
      · rw [hwhole] at hfailed
        cases hfailed
        exact hr.failed ha
  | done a m =>
      obtain ⟨n, hn, rfl, -⟩ := hforward.yields c m a ha
      have hbefore := hr.done ha
      have hsecond := hf ha
      rw [Trace.andThen_of_done ha]
      refine ⟨fun hdone => ?_, fun hfailed => ?_⟩
      · rw [Reader.bind_of_done ha] at hdone
        rw [List.filterMap_append, hbefore, hsecond.done hdone, List.nil_append]
      · rw [Reader.bind_of_done ha] at hfailed
        obtain ⟨hbuffer, hpos, hschema, hplace⟩ := hsecond.failed hfailed
        have hstart : c.pos ≤ (c.advance n hn).pos := Nat.le_add_right _ _
        rw [List.filterMap_append, hbefore, List.nil_append]
        exact ⟨hbuffer, hstart.trans hpos, hschema, hplace⟩

/-- A sequence in which nothing happens that is listed. -/
lemma bind_silent {f : α → Reader β} (hforward : Forward r) (hr : Reports least r [] c)
    (hf : ∀ {a m}, r c = .done a m → Reports least (f a) [] m) :
    Reports least (r >>= f) [] c := by
  have h : Reports least (r >>= f) (Trace.andThen .silent r (fun _ => .silent) c) c :=
    bind hforward hr hf
  rwa [Trace.andThen_silent] at h

lemma pure (a : α) : Reports least (Pure.pure a) [] c :=
  of_done rfl

/-! ## Primitive forms -/

lemma take (n : ℕ) : Reports least (Reader.take n) [] c := by
  by_cases h : n ≤ c.remaining
  · exact of_done (take_of_le h)
  · exact of_failed (take_of_not_le h) rfl le_rfl rfl ⟨rfl, Nat.not_le.1 h⟩

lemma skip (n : ℕ) : Reports least (Reader.skip n) [] c :=
  bind_silent (.take n) (take n) fun _ => pure _

lemma number (width : ℕ) : Reports least (Reader.number width) [] c :=
  bind_silent (.take width) (take width) fun _ => pure _

lemma uint32 : Reports least Reader.uint32 [] c :=
  bind_silent (.number 4) (number 4) fun _ => pure _

lemma position {f : ℕ → Reader α} (h : Reports least (f c.pos) events c) :
    Reports least (Reader.position >>= f) events c :=
  ⟨h.done, h.failed⟩

lemma ofExcept {x : Except Fault α}
    (h : ∀ fault, x = .error fault → fault.isOfSchema = false ∧ Points least c fault) :
    Reports least (Reader.ofExcept x) [] c := by
  cases x with
  | ok a => exact pure a
  | error fault => exact of_failed rfl rfl le_rfl (h fault rfl).1 (h fault rfl).2

lemma lengthMark : Reports least Reader.lengthMark [] c := by
  refine position (bind_silent (.number 1) (number 1) fun {first m} hfirst => ?_)
  split_ifs with hlong
  · refine of_failed rfl rfl le_rfl rfl (.inl ⟨rfl, ?_⟩)
    have hread := hasRead_of_number hfirst
    rwa [hlong] at hread
  · exact bind_silent (.number 3) (number 3) fun _ => pure _
  · exact pure _

lemma count : Reports least Reader.count [] c := by
  have hint32 : Reports least Reader.int32 [] c :=
    bind_silent (.number 4) (number 4) fun _ => pure _
  refine position (bind_silent .int32 hint32 fun {n m} hn => ?_)
  split_ifs with hnegative
  · refine of_failed rfl rfl le_rfl rfl (.inr ⟨hnegative, n, rfl, ?_⟩)
    exact hasRead_of_yields yields_int32 hn
  · exact pure _

/-- An octet string is read without opening anything. -/
lemma bytes : Reports least Reader.bytes (Trace.octets c) c := by
  have hplain : Reports least Reader.bytes [] c := by
    refine bind_silent .lengthMark lengthMark fun {mark m} _ => ?_
    refine bind_silent (.take _) (take _) fun {content m} _ => ?_
    exact bind_silent (.skip _) (skip _) fun _ => pure _
  exact hplain.congr (broken_octets c)

lemma randomBytes : Reports least (Reader.randomBytes least) (Trace.random least c) c := by
  have hplain : Reports least (Reader.randomBytes least) [] c := by
    refine position (bind_silent .lengthMark lengthMark fun {mark m} hmark => ?_)
    split_ifs with hshort
    · refine of_failed rfl rfl le_rfl rfl ⟨hshort, ?_⟩
      obtain ⟨n, hn, rfl, hwritten, -⟩ := yields_lengthMark _ _ _ hmark
      have hread := c.hasRead_advance hn
      rcases hwritten with ⟨hlt, hwritten⟩ | ⟨hlt, hwritten⟩
      · exact .inl ⟨hlt, hwritten ▸ hread⟩
      · exact .inr ⟨hlt, hwritten ▸ hread⟩
    · exact skip _
  exact hplain.congr (broken_random least c)

/-! ## Behind a tag -/

lemma unknownTag {tag : UInt32} (hc : c.IsBehind (some tag)) (expected : String) :
    Reports least (Reader.unknownTag expected : Reader α) [] c :=
  of_failed (unknownTag_of_isBehind expected hc) rfl le_rfl rfl hc.hasRead

/-- An envelope that cannot be opened is reported at its tag, from behind it. -/
lemma opened (hc : c.IsBehind (some Tag.gzipPacked)) (limit : ℕ) :
    Reports least (Reader.opened limit) (Trace.octets c) c := by
  have hplain : Reports least (Reader.opened limit) [] c := by
    have hbytes : Reports least Reader.bytes [] c := bytes.congr (broken_octets c).symm
    refine position (bind_silent .bytes hbytes fun {packed m} hpacked => ofExcept fun fault h => ?_)
    obtain ⟨n, hn, rfl, hreads⟩ := local_bytes _ _ _ hpacked
    cases hcontent : Compression.inflate limit packed with
    | ok content => simp [hcontent, Except.mapError] at h
    | error cause =>
        rw [hcontent] at h
        cases h
        exact ⟨rfl, _, packed, hreads, hc.hasRead.append hn⟩
  exact hplain.congr (broken_octets c)

/-- What comes out of an envelope has a fault of its own, or none. -/
lemma within {content : List UInt8} {inner : Reader α} {m : Cursor} (start : ℕ)
    (hinner : ∀ {fault stop}, inner (.start content) = .failed fault stop →
      fault.isOfSchema = false) :
    Reports least (Reader.within content inner)
      [.envelope start m.pos (inner (.start content)).fault?] m := by
  cases hread : inner (.start content) with
  | done a after =>
      have hwithin : Reader.within content inner m = .done a m := by
        unfold Reader.within
        rw [hread]
      exact (of_done hwithin).congr rfl
  | failed fault stop =>
      have hwithin : Reader.within content inner m = .failed fault m := by
        unfold Reader.within
        rw [hread]
      refine ⟨fun hdone => ?_, fun hfailed => ?_⟩
      · rw [hwithin] at hdone
        cases hdone
      · rw [hwithin] at hfailed
        cases hfailed
        exact ⟨rfl, le_rfl, hinner hread, .inr rfl⟩

/-- Behind the tag of envelopes, an envelope is opened and its content read. -/
lemma packed (hc : c.IsBehind (some Tag.gzipPacked)) {limit : ℕ} {inner : Reader α}
    (hinner : ∀ {content fault stop}, inner (.start content) = .failed fault stop →
      fault.isOfSchema = false) :
    Reports least (Reader.opened limit >>= fun octets => Reader.within octets inner)
      (Trace.opened limit inner c) c :=
  bind (.opened limit) (opened hc limit) fun _ => within _ hinner

end Reports

end TypeLang.Wire
