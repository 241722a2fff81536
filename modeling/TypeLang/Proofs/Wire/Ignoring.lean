import TypeLang.Proofs.Wire.Forward
import TypeLang.Proofs.Wire.Trace
import TypeLang.Proofs.Wire.Written

/-!
# Readers that ignore what their traces ignore

Two wires of one length are read alike from one place if they agree in every bit that the reading of
the first of them looks at: those behind its start and before its end that its trace does not
ignore.  `Ignoring` says so of a reader and a trace.  The wires may differ as they like everywhere
else, so that a law of this form passes through sequences: what lies behind the first part cannot
disturb it, and what lies before the second cannot disturb that one.  For this, a trace must ignore
nothing outside of what its reader consumes.
-/

namespace TypeLang.Wire

variable {α β : Type}

/-! ## Bits of a wire -/

namespace Cursor

/-- A bit of the wire; behind the end, none is set. -/
def bit (c : Cursor) (i : ℕ) : Bool :=
  (c.buffer.getD (i / 8) 0).toNat.testBit (i % 8)

/-- The same place on a wire of the same length with the same bits wherever `seen`. -/
structure Agrees (c c' : Cursor) (seen : ℕ → Prop) : Prop where
  pos : c.pos = c'.pos
  size : c.buffer.size = c'.buffer.size
  bit : ∀ i, seen i → c.bit i = c'.bit i

section

variable {c c' : Cursor} {seen seen' : ℕ → Prop}

lemma Agrees.mono (h : c.Agrees c' seen) (hseen : ∀ i, seen' i → seen i) : c.Agrees c' seen' :=
  ⟨h.pos, h.size, fun i hi => h.bit i (hseen i hi)⟩

lemma Agrees.remaining_eq (h : c.Agrees c' seen) : c.remaining = c'.remaining := by
  rw [remaining, remaining, h.pos, h.size]

/-- Cursors that have gone on alike agree where the cursors before them do. -/
lemma Agrees.goOn (h : c.Agrees c' seen) {m m' : Cursor} (hm : m.buffer = c.buffer)
    (hm' : m'.buffer = c'.buffer) (hpos : m.pos = m'.pos) : m.Agrees m' seen := by
  refine ⟨hpos, by rw [hm, hm', h.size], fun i hi => ?_⟩
  unfold Cursor.bit
  rw [hm, hm']
  exact h.bit i hi

lemma bit_of_le {i : ℕ} (h : 8 * c.buffer.size ≤ i) : c.bit i = false := by
  unfold bit
  rw [Array.getD_eq_getD_getElem?, Array.getElem?_eq_none (by omega), Option.getD_none]
  simp

lemma bit_octet (c : Cursor) (k : ℕ) {j : ℕ} (hj : j < 8) :
    c.bit (8 * k + j) = (c.buffer.getD k 0).toNat.testBit j := by
  unfold bit
  rw [show (8 * k + j) / 8 = k by omega, show (8 * k + j) % 8 = j by omega]

lemma octet_eq {k : ℕ} (h : ∀ j < 8, c.bit (8 * k + j) = c'.bit (8 * k + j)) :
    c.buffer.getD k 0 = c'.buffer.getD k 0 := by
  rw [← UInt8.toNat_inj]
  refine Nat.eq_of_testBit_eq fun j => ?_
  by_cases hj : j < 8
  · rw [← bit_octet c k hj, ← bit_octet c' k hj, h j hj]
  · have hlarge : ∀ b : UInt8, b.toNat.testBit j = false := fun b =>
      Nat.testBit_lt_two_pow (b.toNat_lt.trans_le (Nat.pow_le_pow_right (by decide) (by omega)))
    rw [hlarge, hlarge]

lemma getD_next (c : Cursor) {n k : ℕ} (hk : k < n) :
    (c.next n).getD k 0 = c.buffer.getD (c.pos + k) 0 := by
  rw [next, List.getD_eq_getElem?_getD, Array.getElem?_toList, Array.getElem?_extract,
    Array.getD_eq_getD_getElem?]
  split_ifs with hlt
  · rfl
  · rw [Array.getElem?_eq_none (by omega), Option.getD_none]

/-- The next octets are the same if their bits are. -/
lemma next_eq {n : ℕ} (h : c.Agrees c' fun i => 8 * c.pos ≤ i ∧ i < 8 * (c.pos + n))
    (hn : n ≤ c.remaining) : c.next n = c'.next n := by
  have hlength := length_next hn
  have hlength' := length_next (h.remaining_eq ▸ hn)
  refine List.ext_getElem (hlength.trans hlength'.symm) fun k hk hk' => ?_
  have hkn : k < n := hlength ▸ hk
  have hoctet : c.buffer.getD (c.pos + k) 0 = c'.buffer.getD (c.pos + k) 0 :=
    octet_eq fun j hj => h.bit _ (by constructor <;> omega)
  rw [← getD_next c hkn, h.pos, ← getD_next c' hkn] at hoctet
  simpa [List.getD_eq_getElem?_getD, hk, hk'] using hoctet

end

end Cursor

/-! ## Reading alike -/

/-- The same value or the same fault, and the cursor at the same place. -/
def Outcome.Alike : Outcome α → Outcome α → Prop
  | done a after, done a' after' => a = a' ∧ after.pos = after'.pos
  | failed fault stop, failed fault' stop' => fault = fault' ∧ stop.pos = stop'.pos
  | _, _ => False

lemma Outcome.Alike.failed_left {fault : Fault} {stop : Cursor} {o : Outcome α}
    (h : (Outcome.failed fault stop).Alike o) :
    ∃ stop', o = .failed fault stop' ∧ stop.pos = stop'.pos := by
  cases o with
  | done a after => cases h
  | failed fault' stop' =>
      obtain ⟨rfl, hpos⟩ := h
      exact ⟨stop', rfl, hpos⟩

lemma Outcome.Alike.done_left {a : α} {after : Cursor} {o : Outcome α}
    (h : (Outcome.done a after).Alike o) :
    ∃ after', o = .done a after' ∧ after.pos = after'.pos := by
  cases o with
  | failed fault stop => cases h
  | done a' after' =>
      obtain ⟨rfl, hpos⟩ := h
      exact ⟨after', rfl, hpos⟩

/-- The bits that a reading looks at, for all that its trace says. -/
def Sees (r : Reader α) (t : Trace) (c : Cursor) (i : ℕ) : Prop :=
  8 * c.pos ≤ i ∧ (∀ a after, r c = .done a after → i < 8 * after.pos) ∧ ¬Ignored (t c) i

/-- A reader is read alike from wires that agree where it sees them; if a tag is given, then where
the cursor stands behind that tag. -/
structure Ignoring (tag? : Option UInt32) (r : Reader α) (t : Trace) : Prop where
  forward : Forward r
  bounds : ∀ {c i}, Ignored (t c) i →
    8 * c.pos ≤ i ∧ ∀ a after, r c = .done a after → i < 8 * after.pos
  alike : ∀ {c c'}, c.IsBehind tag? → c'.IsBehind tag? → c.Agrees c' (Sees r t c) →
    (r c).Alike (r c')

lemma Forward.buffer_eq {r : Reader α} (hr : Forward r) {c after : Cursor} {a : α}
    (h : r c = .done a after) : after.buffer = c.buffer := by
  obtain ⟨n, hn, rfl, -⟩ := hr.yields c after a h
  rfl

namespace Ignoring

variable {r : Reader α} {t t' : Trace} {tag? : Option UInt32}

/-- What looks at nothing leaves no trace. -/
lemma still (hr : Forward r) (halike : ∀ c c' : Cursor, c.pos = c'.pos → c.IsBehind tag? →
      c'.IsBehind tag? → (r c).Alike (r c')) : Ignoring tag? r .silent where
  forward := hr
  bounds h := absurd h (not_ignored_nil _)
  alike hc hc' h := halike _ _ h.pos hc hc'

lemma pure (a : α) : Ignoring none (Pure.pure a) .silent :=
  still (.pure a) fun _ _ hpos _ _ => ⟨rfl, hpos⟩

lemma fail (fault : Fault) : Ignoring none (Reader.fail fault : Reader α) .silent :=
  still (.fail fault) fun _ _ hpos _ _ => ⟨rfl, hpos⟩

lemma unknownTag (tag : UInt32) (expected : String) :
    Ignoring (some tag) (Reader.unknownTag expected : Reader α) .silent := by
  refine still (.unknownTag expected) fun c c' hpos hc hc' => ?_
  rw [unknownTag_of_isBehind expected hc, unknownTag_of_isBehind expected hc', hpos]
  exact ⟨rfl, hpos⟩

lemma within (octets : List UInt8) {inner : Reader α} (hinner : Forward inner) :
    Ignoring none (Reader.within octets inner) .silent := by
  refine still (.within octets hinner) fun c c' hpos _ _ => ?_
  unfold Reader.within
  cases inner (.start octets) with
  | done a after => exact ⟨rfl, hpos⟩
  | failed fault stop => exact ⟨rfl, hpos⟩

lemma anywhere (tag : UInt32) (h : Ignoring none r t) : Ignoring (some tag) r t :=
  ⟨h.forward, h.bounds, fun _ _ hagrees => h.alike trivial trivial hagrees⟩

lemma ite {p : Prop} [Decidable p] {r' : Reader α} (hr : Ignoring tag? r t)
    (hr' : Ignoring tag? r' t') :
    Ignoring tag? (if p then r else r') (if p then t else t') := by
  by_cases h : p
  · rwa [if_pos h, if_pos h]
  · rwa [if_neg h, if_neg h]

lemma ite_still {p : Prop} [Decidable p] {r' : Reader α} (hr : Ignoring tag? r t)
    (hr' : Ignoring tag? r' t) : Ignoring tag? (if p then r else r') t := by
  have h := ite (p := p) hr hr'
  rwa [ite_self] at h

lemma ofExcept (x : Except Fault α) : Ignoring none (Reader.ofExcept x) .silent := by
  cases x with
  | error fault => exact fail fault
  | ok a => exact pure a

/-- Traces that ignore the same bits are as good as each other. -/
lemma congr (h : Ignoring tag? r t) (ht : ∀ c i, Ignored (t' c) i ↔ Ignored (t c) i) :
    Ignoring tag? r t' where
  forward := h.forward
  bounds hi := h.bounds ((ht _ _).1 hi)
  alike hc hc' hagrees := by
    refine h.alike hc hc' (hagrees.mono fun i hi => ⟨hi.1, hi.2.1, ?_⟩)
    rw [ht]
    exact hi.2.2

/-! ## Sequences -/

section

variable {f : α → Reader β} {next : α → Trace}

/-- The bits that the second part of a sequence sees are seen by the sequence. -/
lemma sees_second (hr : Ignoring none r t) {c m : Cursor} {a : α} (ha : r c = .done a m) {i : ℕ}
    (hi : Sees (f a) (next a) m i) : Sees (r >>= f) (t.andThen r next) c i := by
  obtain ⟨hstart, hend, hnot⟩ := hi
  have hpos := hr.forward.pos_le ha
  refine ⟨by omega, ?_, ?_⟩
  · rw [Reader.bind_of_done ha]
    exact hend
  · rw [Trace.andThen_of_done ha, ignored_append, not_or]
    refine ⟨fun hbefore => ?_, hnot⟩
    have := (hr.bounds hbefore).2 a m ha
    omega

/-- The bits that the first part sees are seen by the sequence, since the second part ignores none
of them. -/
lemma sees_first {tag? : α → Option UInt32} (hf : ∀ a, Ignoring (tag? a) (f a) (next a))
    {c : Cursor} {i : ℕ} (hi : Sees r t c i) : Sees (r >>= f) (t.andThen r next) c i := by
  obtain ⟨hstart, hend, hnot⟩ := hi
  refine ⟨hstart, fun b after hb => ?_, ?_⟩
  · obtain ⟨a, m, ha, hb⟩ := Reader.bind_eq_done.1 hb
    have := hend a m ha
    have := (hf a).forward.pos_le hb
    omega
  · cases ha : r c with
    | failed fault stop => rwa [Trace.andThen_of_failed ha]
    | done a m =>
        rw [Trace.andThen_of_done ha, ignored_append, not_or]
        refine ⟨hnot, fun hbehind => ?_⟩
        have := ((hf a).bounds hbehind).1
        have := hend a m ha
        omega

/-- A sequence whose second part may rely on standing behind what the first has read. -/
lemma bind_behind {tag? : α → Option UInt32} (hr : Ignoring none r t)
    (hf : ∀ a, Ignoring (tag? a) (f a) (next a))
    (hbehind : ∀ {c m a}, r c = .done a m → m.IsBehind (tag? a)) :
    Ignoring none (r >>= f) (t.andThen r next) where
  forward := .bind hr.forward fun a => (hf a).forward
  bounds := by
    intro c i hi
    cases ha : r c with
    | failed fault stop =>
        rw [Trace.andThen_of_failed ha] at hi
        refine ⟨(hr.bounds hi).1, fun b after hb => ?_⟩
        rw [Reader.bind_apply, ha] at hb
        cases hb
    | done a m =>
        have hpos := hr.forward.pos_le ha
        rw [Trace.andThen_of_done ha, ignored_append] at hi
        rw [Reader.bind_of_done ha]
        rcases hi with hi | hi
        · refine ⟨(hr.bounds hi).1, fun b after hb => ?_⟩
          have := (hr.bounds hi).2 a m ha
          have := (hf a).forward.pos_le hb
          omega
        · refine ⟨?_, ((hf a).bounds hi).2⟩
          have := ((hf a).bounds hi).1
          omega
  alike := by
    intro c c' _ _ hagrees
    have hfirst := hr.alike trivial trivial (hagrees.mono fun i hi => sees_first hf hi)
    rw [Reader.bind_apply, Reader.bind_apply]
    cases ha : r c with
    | failed fault stop =>
        rw [ha] at hfirst
        obtain ⟨stop', hfailed, hpos⟩ := hfirst.failed_left
        rw [hfailed]
        exact ⟨rfl, hpos⟩
    | done a m =>
        rw [ha] at hfirst
        obtain ⟨m', ha', hpos⟩ := hfirst.done_left
        rw [ha']
        have hm := hagrees.goOn (hr.forward.buffer_eq ha) (hr.forward.buffer_eq ha') hpos
        exact (hf a).alike (hbehind ha) (hbehind ha') (hm.mono fun i hi => sees_second hr ha hi)

lemma bind (hr : Ignoring none r t) (hf : ∀ a, Ignoring none (f a) (next a)) :
    Ignoring none (r >>= f) (t.andThen r next) :=
  hr.bind_behind hf fun _ => trivial

lemma bind_still (hr : Ignoring none r t) (hf : ∀ a, Ignoring none (f a) .silent) :
    Ignoring none (r >>= f) t := by
  have h := hr.bind hf
  rwa [Trace.andThen_silent] at h

lemma bind_pure (hr : Ignoring none r t) (g : α → β) :
    Ignoring none (r >>= fun a => Pure.pure (g a)) t :=
  hr.bind_still fun _ => pure _

/-- A place that is looked up is the same on both wires. -/
lemma position {f : ℕ → Reader β} (hf : ∀ n, Ignoring none (f n) t) :
    Ignoring none (Reader.position >>= f) t where
  forward := .bind .position fun n => (hf n).forward
  bounds {c _} hi := (hf c.pos).bounds hi
  alike := by
    intro c c' _ _ hagrees
    show (f c.pos c).Alike (f c'.pos c')
    rw [← hagrees.pos]
    exact (hf c.pos).alike trivial trivial hagrees

end

/-! ## Primitive forms -/

lemma take (n : ℕ) : Ignoring none (Reader.take n) .silent where
  forward := .take n
  bounds h := absurd h (not_ignored_nil _)
  alike := by
    intro c c' _ _ hagrees
    by_cases hn : n ≤ c.remaining
    · have hn' := hagrees.remaining_eq ▸ hn
      rw [take_of_le hn, take_of_le hn']
      have hseen : c.Agrees c' fun i => 8 * c.pos ≤ i ∧ i < 8 * (c.pos + n) := by
        refine hagrees.mono fun i hi => ⟨hi.1, fun octets after htake => ?_, not_ignored_nil i⟩
        cases (take_of_le hn).symm.trans htake
        exact hi.2
      exact ⟨Cursor.next_eq hseen hn, congrArg (· + n) hagrees.pos⟩
    · rw [take_of_not_le hn, take_of_not_le (hagrees.remaining_eq ▸ hn), hagrees.pos]
      exact ⟨rfl, hagrees.pos⟩

lemma skip (n : ℕ) : Ignoring none (Reader.skip n) (.skipped n) where
  forward := .skip n
  bounds := by
    intro c i hi
    obtain ⟨hstart, hend⟩ : 8 * c.pos ≤ i ∧ i < 8 * (c.pos + n) := by
      simpa [Trace.skipped, Event.Ignores] using hi
    refine ⟨hstart, fun u after hskip => ?_⟩
    obtain ⟨octets, m, htake, hpure⟩ := Reader.bind_eq_done.1 hskip
    cases hpure
    by_cases hn : n ≤ c.remaining
    · cases (take_of_le hn).symm.trans htake
      exact hend
    · cases (take_of_not_le hn).symm.trans htake
  alike := by
    intro c c' _ _ hagrees
    unfold Reader.skip
    rw [Reader.bind_apply, Reader.bind_apply]
    by_cases hn : n ≤ c.remaining
    · rw [take_of_le hn, take_of_le (hagrees.remaining_eq ▸ hn)]
      exact ⟨rfl, congrArg (· + n) hagrees.pos⟩
    · rw [take_of_not_le hn, take_of_not_le (hagrees.remaining_eq ▸ hn), hagrees.pos]
      exact ⟨rfl, hagrees.pos⟩

lemma number (width : ℕ) : Ignoring none (Reader.number width) .silent :=
  (take width).bind_pure _

lemma uint32 : Ignoring none Reader.uint32 .silent :=
  (number 4).bind_pure _

lemma lengthMark : Ignoring none Reader.lengthMark .silent := by
  refine position fun start => (number 1).bind_still fun first => ?_
  exact ite_still (fail _) (ite_still ((number 3).bind_pure _) (pure _))

lemma count : Ignoring none Reader.count .silent := by
  have hint32 : Ignoring none Reader.int32 .silent := (number 4).bind_pure _
  exact position fun start => hint32.bind_still fun n => ite_still (fail _) (pure _)

lemma bytes : Ignoring none Reader.bytes .octets :=
  lengthMark.bind fun mark => (take _).bind fun _ => (skip mark.padding).bind_pure _

lemma randomBytes (least : ℕ) : Ignoring none (Reader.randomBytes least) (.random least) :=
  position fun _ => lengthMark.bind fun _ => ite (fail _) (skip _)

/-- What comes out of an envelope depends on the packed octets alone. -/
lemma packed (limit : ℕ) {inner : Reader α} (hinner : Forward inner) :
    Ignoring none (Reader.opened limit >>= fun octets => Reader.within octets inner)
      (.opened limit inner) := by
  have hopened : Ignoring none (Reader.opened limit) .octets :=
    position fun _ => bytes.bind_still fun _ => ofExcept _
  refine (hopened.bind_still fun octets => within octets hinner).congr fun c i => ?_
  unfold Trace.opened Trace.andThen
  cases Reader.opened limit c <;> simp [Event.Ignores]

/-! ## Flag words -/

/-- A word is there if four octets are left, and has their bits. -/
lemma word_of_le {c : Cursor} (h : 4 ≤ c.remaining) :
    ∃ word, Reader.uint32 c = .done word (c.advance 4 h) ∧
      ∀ i < 32, word.toNat.testBit i = c.bit (8 * c.pos + i) := by
  refine ⟨_, uint32_of_le h, fun i hi => ?_⟩
  have hlt := ofLittleEndian_lt (c.next 4)
  rw [Cursor.length_next h] at hlt
  rw [UInt32.toNat_ofNat', Nat.mod_eq_of_lt (by omega), testBit_ofLittleEndian,
    Cursor.getD_next c (by omega), ← Cursor.bit_octet c _ (Nat.mod_lt _ (by decide))]
  congr 1
  omega

lemma testBit_of_not_lt (word : UInt32) {i : ℕ} (h : ¬i < 32) : word.toNat.testBit i = false :=
  Nat.testBit_lt_two_pow (word.toNat_lt.trans_le (Nat.pow_le_pow_right (by decide) (by omega)))

section

variable {f : UInt32 → Reader α} {next : UInt32 → Trace} {gating : List ℕ}

lemma ignored_word {c m : Cursor} {word : UInt32} (h : Reader.uint32 c = .done word m) (i : ℕ) :
    Ignored (Trace.word gating next c) i ↔
      (Event.word c.pos gating).Ignores i ∨ Ignored (next word m) i := by
  rw [Trace.word, ignored_cons, Trace.andThen_of_done h]
  simp [Trace.silent]

variable {c : Cursor} {hroom : 4 ≤ c.remaining} {word : UInt32}
  (hword : Reader.uint32 c = .done word (c.advance 4 hroom))

include hword

/-- A gating bit of a flag word is seen. -/
lemma sees_gating (hf : Ignoring none (f word) (next word)) {bit : ℕ} (hbit : bit ∈ gating)
    (hlt : bit < 32) : Sees (Reader.uint32 >>= f) (.word gating next) c (8 * c.pos + bit) := by
  have hadvance : (c.advance 4 hroom).pos = c.pos + 4 := rfl
  refine ⟨by omega, fun b after hb => ?_, ?_⟩
  · rw [Reader.bind_of_done hword] at hb
    have := hf.forward.pos_le hb
    omega
  · rw [ignored_word hword, not_or]
    refine ⟨?_, fun hi => ?_⟩
    · rintro ⟨-, -, hnot⟩
      exact hnot (by rwa [Nat.add_sub_cancel_left])
    · have := (hf.bounds hi).1
      omega

/-- What is seen behind a flag word is seen. -/
lemma sees_behind_word {i : ℕ} (hi : Sees (f word) (next word) (c.advance 4 hroom) i) :
    Sees (Reader.uint32 >>= f) (.word gating next) c i := by
  obtain ⟨hstart, hend, hnot⟩ := hi
  have hadvance : (c.advance 4 hroom).pos = c.pos + 4 := rfl
  refine ⟨by omega, ?_, ?_⟩
  · rw [Reader.bind_of_done hword]
    exact hend
  · rw [ignored_word hword, not_or]
    refine ⟨?_, hnot⟩
    rintro ⟨-, hbefore, -⟩
    omega

end

/-- A word of which two wires have the same gating bits is gone on from alike. -/
lemma word {f : UInt32 → Reader α} {next : UInt32 → Trace} (gating : List ℕ)
    (hf : ∀ word, Ignoring none (f word) (next word))
    (hgating : ∀ word word' : UInt32,
      (∀ bit ∈ gating, word.toNat.testBit bit = word'.toNat.testBit bit) →
        f word = f word' ∧ next word = next word') :
    Ignoring none (Reader.uint32 >>= f) (.word gating next) := by
  have hwhole : Ignoring none (Reader.uint32 >>= f) (Trace.silent.andThen Reader.uint32 next) :=
    uint32.bind hf
  refine ⟨hwhole.forward, ?bounds, ?alike⟩
  case bounds =>
    intro c i hi
    rw [Trace.word, ignored_cons] at hi
    rcases hi with ⟨hstart, hend, -⟩ | hi
    · refine ⟨hstart, fun b after hb => ?_⟩
      obtain ⟨word, m, hword, hb⟩ := Reader.bind_eq_done.1 hb
      have hafter := (hf word).forward.pos_le hb
      by_cases hroom : 4 ≤ c.remaining
      · have hdone := uint32_of_le hroom
        cases hdone.symm.trans hword
        have hadvance : (c.advance 4 hroom).pos = c.pos + 4 := rfl
        omega
      · cases (uint32_of_not_le hroom).symm.trans hword
    · exact hwhole.bounds hi
  case alike =>
    intro c c' _ _ hagrees
    have hremaining := hagrees.remaining_eq
    rw [Reader.bind_apply, Reader.bind_apply]
    by_cases hroom : 4 ≤ c.remaining
    case neg =>
      rw [uint32_of_not_le hroom, uint32_of_not_le (hremaining ▸ hroom), hagrees.pos]
      exact ⟨rfl, hagrees.pos⟩
    case pos =>
      have hroom' : 4 ≤ c'.remaining := hremaining ▸ hroom
      obtain ⟨word, hword, hbits⟩ := word_of_le hroom
      obtain ⟨word', hword', hbits'⟩ := word_of_le hroom'
      -- The two words need not be equal; only their gating bits are known to be the same.
      have hgates : ∀ bit ∈ gating, word.toNat.testBit bit = word'.toNat.testBit bit := by
        intro bit hbit
        by_cases hlt : bit < 32
        · rw [hbits bit hlt, hbits' bit hlt, ← hagrees.pos]
          exact hagrees.bit _ (sees_gating hword (hf word) hbit hlt)
        · rw [testBit_of_not_lt word hlt, testBit_of_not_lt word' hlt]
      have hbehind : (c.advance 4 hroom).Agrees (c'.advance 4 hroom')
          (Sees (Reader.uint32 >>= f) (.word gating next) c) :=
        hagrees.goOn rfl rfl (congrArg (· + 4) hagrees.pos)
      rw [hword, hword']
      show (f word (c.advance 4 hroom)).Alike (f word' (c'.advance 4 hroom'))
      rw [← (hgating word word' hgates).1]
      exact (hf word).alike trivial trivial (hbehind.mono fun i hi => sees_behind_word hword hi)

end Ignoring

end TypeLang.Wire
