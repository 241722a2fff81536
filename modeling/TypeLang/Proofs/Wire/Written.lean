import TypeLang.Proofs.Results
import TypeLang.Proofs.Text.Utf8
import TypeLang.Proofs.Wire.Following
import TypeLang.Wire.Writer

/-!
# Reading what is written

Every primitive form is read back from the octets that write it.  Numbers, tags and counts have one
form only, so for these the octets that were read are also the ones that would be written.  Octet
strings do not, since their length has a long form and their filling is not looked at; the octets
that are read for one are all that `IsOctetString` admits.
-/

namespace TypeLang.Wire

/-! ## Little-endian numbers -/

lemma ofLittleEndian_lt (bytes : List UInt8) :
    ofLittleEndian bytes < 256 ^ bytes.length := by
  induction bytes with
  | nil => simp [ofLittleEndian]
  | cons b rest ih =>
    have := b.toNat_lt
    simp only [ofLittleEndian, List.length_cons, Nat.pow_succ]
    omega

lemma ofLittleEndian_littleEndian (width n : Nat) :
    ofLittleEndian (littleEndian width n) = n % 256 ^ width := by
  induction width generalizing n with
  | zero => simp [littleEndian, ofLittleEndian, Nat.mod_one]
  | succ width ih =>
    have low : (UInt8.ofNat n).toNat = n % 256 := UInt8.toNat_ofNat'
    rw [littleEndian, ofLittleEndian, ih, low, Nat.pow_succ', Nat.mod_mul]

lemma littleEndian_ofLittleEndian (w : List UInt8) :
    littleEndian w.length (ofLittleEndian w) = w := by
  induction w with
  | nil => rfl
  | cons b rest ih =>
      have hb := b.toNat_lt
      have hlow : UInt8.ofNat (b.toNat + 256 * ofLittleEndian rest) = b := by
        rw [← UInt8.toNat_inj, UInt8.toNat_ofNat']
        omega
      have hhigh : (b.toNat + 256 * ofLittleEndian rest) / 256 = ofLittleEndian rest := by omega
      rw [List.length_cons, ofLittleEndian, littleEndian, hlow, hhigh, ih]

/-- The octets that write a number are those that stand for it. -/
lemma eq_littleEndian_iff {w : List UInt8} {n : ℕ} (h : n < 256 ^ w.length) :
    w = littleEndian w.length n ↔ ofLittleEndian w = n := by
  constructor
  · intro hw
    rw [hw, ofLittleEndian_littleEndian, Nat.mod_eq_of_lt h]
  · rintro rfl
    exact (littleEndian_ofLittleEndian w).symm

/-- The bits of a little-endian number are those of its octets. -/
lemma testBit_ofLittleEndian (octets : List UInt8) (i : ℕ) :
    (ofLittleEndian octets).testBit i = (octets.getD (i / 8) 0).toNat.testBit (i % 8) := by
  induction octets generalizing i with
  | nil => simp [ofLittleEndian]
  | cons b rest ih =>
      rw [ofLittleEndian, Nat.add_comm, show 256 = 2 ^ 8 from rfl,
        Nat.testBit_two_pow_mul_add _ b.toNat_lt]
      split_ifs with hi
      · rw [Nat.div_eq_of_lt hi, Nat.mod_eq_of_lt hi, List.getD_cons_zero]
      · rw [ih, show i / 8 = (i - 8) / 8 + 1 by omega, List.getD_cons_succ,
          show i % 8 = (i - 8) % 8 by omega]

lemma reads_number {width n : ℕ} (h : n < 256 ^ width) :
    Reads (Reader.number width) (littleEndian width n) n := by
  have htake := reads_take (littleEndian width n)
  rw [length_littleEndian] at htake
  refine reads_bind_pure htake ?_
  rw [ofLittleEndian_littleEndian, Nat.mod_eq_of_lt h]

lemma yields_number (width : ℕ) :
    Yields (Reader.number width) fun w n => w = littleEndian width n ∧ n < 256 ^ width := by
  refine yields_bind_pure (yields_take width) fun w octets => ?_
  rintro ⟨rfl, rfl⟩
  exact ⟨(littleEndian_ofLittleEndian octets).symm, ofLittleEndian_lt octets⟩

/-! ## Numbers of the wire -/

lemma int32_ofNat_toUInt32 (n : Int32) : Int32.ofNat n.toUInt32.toNat = n := by
  rw [← UInt32.toInt32_ofNat', UInt32.ofNat_toNat, Int32.toInt32_toUInt32]

lemma int64_ofNat_toUInt64 (n : Int64) : Int64.ofNat n.toUInt64.toNat = n := by
  rw [← UInt64.toInt64_ofNat', UInt64.ofNat_toNat, Int64.toInt64_toUInt64]

lemma write_int32_ofNat {n : ℕ} (h : n < 2 ^ 32) :
    Write.int32 (Int32.ofNat n) = littleEndian 4 n := by
  rw [Write.int32, Int32.toUInt32_ofNat', UInt32.toNat_ofNat', Nat.mod_eq_of_lt h]

lemma reads_uint32 (n : UInt32) : Reads Reader.uint32 (Write.uint32 n) n :=
  reads_bind_pure (reads_number n.toNat_lt) (by rw [UInt32.ofNat_toNat])

lemma reads_int32 (n : Int32) : Reads Reader.int32 (Write.int32 n) n :=
  reads_bind_pure (reads_number n.toUInt32.toNat_lt) (by rw [int32_ofNat_toUInt32])

lemma reads_int64 (n : Int64) : Reads Reader.int64 (Write.int64 n) n :=
  reads_bind_pure (reads_number n.toUInt64.toNat_lt) (by rw [int64_ofNat_toUInt64])

lemma reads_double (d : Double) : Reads Reader.double (Write.double d) d :=
  reads_bind_pure (reads_number d.bits.toNat_lt) (by rw [UInt64.ofNat_toNat])

lemma yields_uint32 : Yields Reader.uint32 fun w n => w = Write.uint32 n := by
  refine yields_bind_pure (yields_number 4) fun w n => ?_
  rintro ⟨rfl, hn⟩
  rw [Write.uint32, UInt32.toNat_ofNat', Nat.mod_eq_of_lt (by omega)]

lemma yields_int32 : Yields Reader.int32 fun w n => w = Write.int32 n := by
  refine yields_bind_pure (yields_number 4) fun w n => ?_
  rintro ⟨rfl, hn⟩
  rw [write_int32_ofNat hn]

lemma yields_int64 : Yields Reader.int64 fun w n => w = Write.int64 n := by
  refine yields_bind_pure (yields_number 8) fun w n => ?_
  rintro ⟨rfl, hn⟩
  rw [Write.int64, Int64.toUInt64_ofNat', UInt64.toNat_ofNat', Nat.mod_eq_of_lt (by omega)]

lemma yields_double : Yields Reader.double fun w d => w = Write.double d := by
  refine yields_bind_pure (yields_number 8) fun w n => ?_
  rintro ⟨rfl, hn⟩
  rw [Write.double, UInt64.toNat_ofNat', Nat.mod_eq_of_lt (by omega)]

lemma reads_bool (b : Bool) : Reads Reader.bool (Write.bool b) b := by
  cases b with
  | true => exact reads_bind_pure (reads_uint32 Tag.boolTrue) rfl
  | false => exact reads_bind_pure (reads_uint32 Tag.boolFalse) rfl

lemma yields_bool : Yields Reader.bool fun w b => w = Write.bool b := by
  refine yields_bind yields_uint32 fun w tag hw => ?_
  refine yields_ite (fun htrue => yields_pure ?_) fun _ =>
    yields_ite (fun hfalse => yields_pure ?_) fun _ => yields_unknownTag "Bool"
  · rw [List.append_nil, hw, htrue]
    rfl
  · rw [List.append_nil, hw, hfalse]
    rfl

/-! ## Tags behind which reading goes on -/

/-- Whether the cursor stands right behind a tag, if one is given. -/
def Cursor.IsBehind (c : Cursor) : Option UInt32 → Prop
  | none => True
  | some tag => ∃ (m : Cursor) (h : m.Holds (Write.uint32 tag)), c = m.advance 4 h.length_le

lemma isBehind_of_uint32 {c m : Cursor} {tag : UInt32} (h : Reader.uint32 c = .done tag m) :
    m.IsBehind (some tag) := by
  obtain ⟨n, hn, rfl, hwritten⟩ := yields_uint32 _ _ _ h
  have hfour : n = 4 := by
    rw [← Cursor.length_next hn, hwritten]
    rfl
  subst hfour
  have hholds := c.holds_next 4
  rw [hwritten] at hholds
  exact ⟨c, hholds, rfl⟩

/-- A tag that is reported is read again where it stands. -/
lemma unknownTag_behind (expected : String) (tag : UInt32) {α : Type} {c : Cursor}
    (h : c.Holds (Write.uint32 tag)) :
    (Reader.unknownTag expected : Reader α) (c.advance 4 h.length_le) =
      .failed (.unknownTag tag c.pos expected) (c.advance 4 h.length_le) := by
  have hrewind : (c.advance 4 h.length_le).rewind 4 = c := by
    simp [Cursor.advance, Cursor.rewind]
  have htag : Reader.uint32 c = .done tag (c.advance 4 h.length_le) := reads_uint32 tag c h
  show (Reader.position >>= fun start => Reader.uint32 >>= fun tag =>
    (Reader.fail (.unknownTag tag start expected) : Reader α))
      ((c.advance 4 h.length_le).rewind 4) = _
  rw [hrewind]
  show (Reader.uint32 >>= fun tag =>
    (Reader.fail (.unknownTag tag c.pos expected) : Reader α)) c = _
  rw [Reader.bind_of_done htag]
  rfl

lemma unknownTag_of_isBehind (expected : String) {tag : UInt32} {α : Type} {c : Cursor}
    (h : c.IsBehind (some tag)) : (Reader.unknownTag expected : Reader α) c =
      .failed (.unknownTag tag (c.pos - 4) expected) c := by
  obtain ⟨m, hm, rfl⟩ := h
  exact unknownTag_behind expected tag hm

/-! ## Octet strings -/

/-- The octets say that `length` octets are to come: in one octet, or in three behind a mark, also
where one would do. -/
def IsMark (length : ℕ) (mark : List UInt8) : Prop :=
  length < 254 ∧ mark = [UInt8.ofNat length] ∨
    length < 2 ^ 24 ∧ mark = 0xFE :: littleEndian 3 length

/-- The octets hold an octet string: how long it is, its content, and as few octets of any kind as
fill it up to a multiple of four. -/
def IsOctetString (content w : List UInt8) : Prop :=
  ∃ mark filling, IsMark content.length mark ∧ w = mark ++ (content ++ filling) ∧
    filling.length < 4 ∧ 4 ∣ w.length

/-- Octet strings of less than 2²⁴ octets. -/
abbrev IsShort (content : List UInt8) : Prop :=
  content.length < 2 ^ 24

/-! ### Marks -/

lemma IsMark.lt {length : ℕ} {mark : List UInt8} (h : IsMark length mark) : length < 2 ^ 24 := by
  unfold IsMark at h
  omega

lemma isMark_write {length : ℕ} (h : length < 2 ^ 24) :
    IsMark length (Write.lengthMark length) := by
  unfold Write.lengthMark Write.maxShort
  split_ifs with hshort
  · exact .inl ⟨Nat.lt_succ_of_le hshort, rfl⟩
  · exact .inr ⟨h, rfl⟩

lemma reads_lengthMark {length : ℕ} {mark : List UInt8} (h : IsMark length mark) :
    Reads Reader.lengthMark mark ⟨length, mark.length⟩ := by
  refine reads_position fun start => ?_
  rcases h with ⟨hlt, rfl⟩ | ⟨hlt, rfl⟩
  · have hoctet : Reads (Reader.number 1) [UInt8.ofNat length] length := reads_number (by omega)
    refine reads_bind_pure hoctet ?_
    rw [if_neg (by omega), if_neg (by omega)]
    rfl
  · have hmark : Reads (Reader.number 1) [0xFE] 0xFE := reads_number (by decide)
    refine reads_bind hmark ?_
    rw [if_neg (by decide), if_pos rfl]
    exact reads_bind_pure (reads_number (by omega)) rfl

lemma yields_lengthMark : Yields Reader.lengthMark fun w mark =>
    IsMark mark.length w ∧ mark.width = w.length := by
  refine yields_position fun _ => yields_bind (yields_number 1) fun w first hfirst => ?_
  obtain ⟨rfl, hlt⟩ := hfirst
  refine yields_ite (fun _ => yields_fail _) fun hnot255 =>
    yields_ite (fun hlong => ?_) fun hnot254 => ?_
  · subst hlong
    refine yields_bind_pure (yields_number 3) fun w n hn => ?_
    obtain ⟨rfl, hn⟩ := hn
    exact ⟨.inr ⟨hn, rfl⟩, by simp⟩
  · have hshort : first < 254 := by omega
    exact yields_pure ⟨.inl ⟨hshort, rfl⟩, rfl⟩

/-! ### Contents -/

/-- What fills up to a multiple of four is told by its length. -/
lemma eq_padding_iff {octets filling : ℕ} :
    filling = Reader.padding octets ↔ filling < 4 ∧ 4 ∣ octets + filling := by
  unfold Reader.padding
  omega

section

variable {content w : List UInt8}

lemma IsOctetString.four_dvd (h : IsOctetString content w) : 4 ∣ w.length := by
  obtain ⟨mark, filling, -, -, -, haligned⟩ := h
  exact haligned

lemma IsOctetString.ne_nil (h : IsOctetString content w) : w ≠ [] := by
  obtain ⟨mark, filling, hmark, rfl, -⟩ := h
  rcases hmark with ⟨-, rfl⟩ | ⟨-, rfl⟩
  · exact List.cons_ne_nil _ _
  · exact List.cons_ne_nil _ _

lemma isOctetString_iff : IsOctetString content w ↔ ∃ mark filling, IsMark content.length mark ∧
    w = mark ++ (content ++ filling) ∧
      filling.length = Reader.LengthMark.padding ⟨content.length, mark.length⟩ := by
  refine exists_congr fun mark => exists_congr fun filling => and_congr_right fun _ =>
    and_congr_right fun hw => ?_
  rw [hw, List.length_append, List.length_append, ← Nat.add_assoc]
  exact eq_padding_iff.symm

lemma isOctetString_write (h : IsShort content) : IsOctetString content (Write.bytes content) := by
  refine isOctetString_iff.2 ⟨_, _, isMark_write h, List.append_assoc _ _ _, ?_⟩
  rw [Write.filling, List.length_replicate, List.length_append]
  rfl

lemma reads_octetString (h : IsOctetString content w) : Reads Reader.bytes w content := by
  obtain ⟨mark, filling, hmark, rfl, hfilling⟩ := isOctetString_iff.1 h
  refine reads_bind (reads_lengthMark hmark) (reads_bind (reads_take content) ?_)
  rw [← hfilling]
  exact reads_bind_pure (reads_skip filling) rfl

lemma reads_randomBytes {least : ℕ} (hleast : least ≤ content.length)
    (h : IsOctetString content w) : Reads (Reader.randomBytes least) w () := by
  obtain ⟨mark, filling, hmark, rfl, hfilling⟩ := isOctetString_iff.1 h
  refine reads_position fun start => reads_bind (reads_lengthMark hmark) ?_
  rw [if_neg (Nat.not_lt.2 hleast), ← hfilling, ← List.length_append]
  exact reads_skip (content ++ filling)

lemma yields_bytes : Yields Reader.bytes fun w content => IsOctetString content w := by
  refine yields_bind yields_lengthMark fun w mark hmark => ?_
  refine yields_bind (yields_take _) fun w' content hcontent => ?_
  refine yields_bind_pure (yields_skip _) fun filling _ hfilling => ?_
  obtain ⟨length, width⟩ := mark
  obtain ⟨hmark, rfl⟩ := hmark
  obtain ⟨rfl, rfl⟩ := hcontent
  exact isOctetString_iff.2 ⟨w, filling, hmark, rfl, hfilling⟩

end

lemma yields_randomBytes (least : ℕ) : Yields (Reader.randomBytes least) fun w _ =>
    ∃ content, least ≤ content.length ∧ IsOctetString content w := by
  refine yields_position fun _ => yields_bind yields_lengthMark fun w mark hmark => ?_
  refine yields_ite (fun _ => yields_fail _) fun hleast => ?_
  refine (yields_skip _).imp fun octets _ hlength => ?_
  obtain ⟨length, width⟩ := mark
  obtain ⟨hmark, rfl⟩ := hmark
  dsimp only at hmark hleast hlength
  have hcontent : (octets.take length).length = length := by
    rw [List.length_take]
    omega
  refine ⟨octets.take length, by omega, isOctetString_iff.2 ⟨w, octets.drop length, ?_, ?_, ?_⟩⟩
  · rwa [hcontent]
  · rw [List.take_append_drop]
  · rw [hcontent, List.length_drop, hlength, Nat.add_sub_cancel_left]

lemma reads_bytes {content : List UInt8} (h : IsShort content) :
    Reads Reader.bytes (Write.bytes content) content :=
  reads_octetString (isOctetString_write h)

/-! ### Texts -/

lemma reads_text {t : String} {w : List UInt8} (h : IsOctetString (Text.utf8 t.toList) w) :
    Reads Reader.string w t := by
  refine reads_bind_pure (reads_octetString h) ?_
  rw [Text.unutf8_utf8]
  show pure (String.ofList t.toList) = _
  rw [String.ofList_toList]

lemma yields_string : Yields Reader.string fun w t => IsOctetString (Text.utf8 t.toList) w := by
  refine yields_bind yields_bytes fun w content hcontent => ?_
  cases hchars : Text.unutf8 content with
  | error fault => exact yields_fail _
  | ok chars =>
      refine yields_pure ?_
      rw [List.append_nil, String.toList_ofList, Text.utf8_of_unutf8 hchars]
      exact hcontent

lemma reads_string {s : String} (h : IsShort (Text.utf8 s.toList)) :
    Reads Reader.string (Write.string s) s :=
  reads_text (isOctetString_write h)

/-! ## Envelopes -/

/-- The octets hold an octet string that packs `content`, which comes out of it within a limit. -/
def IsPacked (limit : ℕ) (content w : List UInt8) : Prop :=
  ∃ packed, IsOctetString packed w ∧ Compression.inflate limit packed = .ok content

lemma reads_opened {limit : ℕ} {content w : List UInt8} (h : IsPacked limit content w) :
    Reads (Reader.opened limit) w content := by
  obtain ⟨packed, hpacked, hinflated⟩ := h
  refine reads_position fun start => reads_bind_pure (reads_octetString hpacked) ?_
  rw [hinflated]
  rfl

lemma yields_opened (limit : ℕ) :
    Yields (Reader.opened limit) fun w content => IsPacked limit content w := by
  refine yields_position fun start => yields_bind yields_bytes fun w packed hpacked => ?_
  refine yields_ofExcept fun content hcontent => ?_
  rw [List.append_nil]
  exact ⟨packed, hpacked, mapError_eq_ok.1 hcontent⟩

/-! ## Vectors -/

lemma reads_count {n : ℕ} (h : n < 2 ^ 31) : Reads Reader.count (littleEndian 4 n) n := by
  refine reads_position fun start => ?_
  have htoInt : (Int32.ofNat n).toInt = n := Int32.toInt_ofNat_of_lt h
  rw [← write_int32_ofNat (by omega)]
  refine reads_bind_pure (reads_int32 _) ?_
  rw [htoInt, if_neg (by omega), Int.toNat_natCast]

lemma yields_count : Yields Reader.count fun w n => w = littleEndian 4 n ∧ n < 2 ^ 31 := by
  refine yields_position fun start => ?_
  refine yields_bind yields_int32 fun w n hn => yields_ite (fun _ => yields_fail _) fun hsign => ?_
  have hlt := n.toInt_lt
  have hofNat : n = Int32.ofNat n.toInt.toNat := by
    rw [← Int32.toInt_inj, Int32.toInt_ofNat_of_lt (by omega)]
    omega
  have hbound : n.toInt.toNat < 2 ^ 31 := by omega
  refine yields_pure ⟨?_, hbound⟩
  rw [List.append_nil, hn, ← write_int32_ofNat (by omega), ← hofNat]

section

variable {α : Type} {elem : Reader α} {ws : List (List UInt8)} {as : List α}

lemma reads_bareVector (h : List.Forall₂ (Reads elem) ws as) (hlength : as.length < 2 ^ 31) :
    Reads (Reader.bareVector elem) (Write.bareVector ws) as := by
  rw [Write.bareVector, h.length_eq]
  exact reads_bind (reads_count hlength) (reads_items h)

lemma reads_boxedVector (limit : ℕ) (h : List.Forall₂ (Reads elem) ws as)
    (hlength : as.length < 2 ^ 31) :
    Reads (Reader.boxedVector limit elem) (Write.boxedVector ws) as := by
  refine reads_bind (reads_uint32 Tag.vector) ?_
  rw [if_pos rfl]
  exact reads_bareVector h hlength

lemma yields_bareVector {P : List UInt8 → α → Prop} (h : Yields elem P) :
    Yields (Reader.bareVector elem) fun w as =>
      as.length < 2 ^ 31 ∧ ∃ ws, List.Forall₂ P ws as ∧ w = Write.bareVector ws := by
  refine yields_bind yields_count fun w n hn => (yields_items h n).imp fun w' as => ?_
  obtain ⟨rfl, hbound⟩ := hn
  rintro ⟨rfl, ws, hws, rfl⟩
  exact ⟨hbound, ws, hws, by rw [Write.bareVector, hws.length_eq]⟩

end

end TypeLang.Wire
