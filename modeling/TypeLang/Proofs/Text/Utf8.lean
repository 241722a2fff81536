import Mathlib.Tactic
import TypeLang.Text.Utf8

/-!
# Reading characters back

Octets that write characters are read as these characters.  Each character is read by itself,
whatever follows it, so the law goes by the characters of the text.  The numbers that are no
characters, and the forms that are longer than needed, are never written; these are the two things
that the bounds on a second octet keep out.  Hence also the other direction: octets that are read as
a text are the ones that write it (`utf8_of_unutf8`).
-/

namespace TypeLang.Text

/-! ## Octets -/

lemma toNat_octet {n : ℕ} (h : n < 256) : (UInt8.ofNat n).toNat = n := by
  rw [UInt8.toNat_ofNat']
  exact Nat.mod_eq_of_lt h

lemma not_lt_iff_toNat_le {a b : UInt8} : ¬a < b ↔ b.toNat ≤ a.toNat := by
  rw [UInt8.lt_iff_toNat_lt, Nat.not_lt]

lemma isContinuation_iff {b : UInt8} :
    isContinuation b = true ↔ 0x80 ≤ b.toNat ∧ b.toNat ≤ 0xBF := by
  simp [isContinuation, UInt8.le_iff_toNat_le]

lemma isSecondOfThree_iff {a b : UInt8} :
    isSecondOfThree a b = true ↔ isContinuation b = true ∧
      (a.toNat = 0xE0 → 0xA0 ≤ b.toNat) ∧ (a.toNat = 0xED → b.toNat ≤ 0x9F) := by
  simp [isSecondOfThree, UInt8.le_iff_toNat_le, ← UInt8.toNat_inj, imp_iff_not_or, and_assoc]

lemma isSecondOfFour_iff {a b : UInt8} :
    isSecondOfFour a b = true ↔ isContinuation b = true ∧
      (a.toNat = 0xF0 → 0x90 ≤ b.toNat) ∧ (a.toNat = 0xF4 → b.toNat ≤ 0x8F) := by
  simp [isSecondOfFour, UInt8.le_iff_toNat_le, ← UInt8.toNat_inj, imp_iff_not_or, and_assoc]

/-! ## Characters by their number of octets -/

section

variable {index : ℕ} {read : List Char} {rest : List UInt8} {a b c d : UInt8}

lemma unutf8From_one (ha : a.toNat < 0x80) :
    unutf8From index read (a :: rest) =
      unutf8From (index + 1) (Char.ofNat a.toNat :: read) rest := by
  have hlt : a < 0x80 := UInt8.lt_iff_toNat_lt.2 ha
  rw [unutf8From.eq_def]
  simp only [hlt, if_true]

lemma unutf8From_two (hlow : 0xC2 ≤ a.toNat) (hhigh : a.toNat < 0xE0)
    (hb : isContinuation b = true) :
    unutf8From index read (a :: b :: rest) =
      unutf8From (index + 2) (Char.ofNat (a.toNat % 32 * 64 + payload b) :: read) rest := by
  have h₁ : ¬a < 0x80 := not_lt_iff_toNat_le.2 (le_trans (by decide) hlow)
  have h₂ : ¬a < 0xC2 := not_lt_iff_toNat_le.2 (le_trans (by decide) hlow)
  have h₃ : a < 0xE0 := UInt8.lt_iff_toNat_lt.2 hhigh
  rw [unutf8From.eq_def]
  simp only [h₁, h₂, h₃, hb, if_true, if_false]

lemma unutf8From_three (hlow : 0xE0 ≤ a.toNat) (hhigh : a.toNat < 0xF0)
    (hb : isSecondOfThree a b = true) (hc : isContinuation c = true) :
    unutf8From index read (a :: b :: c :: rest) =
      unutf8From (index + 3)
        (Char.ofNat (a.toNat % 16 * 4096 + payload b * 64 + payload c) :: read) rest := by
  have h₁ : ¬a < 0x80 := not_lt_iff_toNat_le.2 (le_trans (by decide) hlow)
  have h₂ : ¬a < 0xC2 := not_lt_iff_toNat_le.2 (le_trans (by decide) hlow)
  have h₃ : ¬a < 0xE0 := not_lt_iff_toNat_le.2 (le_trans (by decide) hlow)
  have h₄ : a < 0xF0 := UInt8.lt_iff_toNat_lt.2 hhigh
  rw [unutf8From.eq_def]
  simp only [h₁, h₂, h₃, h₄, hb, hc, if_true, if_false]

lemma unutf8From_four (hlow : 0xF0 ≤ a.toNat) (hhigh : a.toNat < 0xF5)
    (hb : isSecondOfFour a b = true) (hc : isContinuation c = true)
    (hd : isContinuation d = true) :
    unutf8From index read (a :: b :: c :: d :: rest) =
      unutf8From (index + 4)
        (Char.ofNat (a.toNat % 8 * 262144 + payload b * 4096 + payload c * 64 + payload d) ::
          read) rest := by
  have h₁ : ¬a < 0x80 := not_lt_iff_toNat_le.2 (le_trans (by decide) hlow)
  have h₂ : ¬a < 0xC2 := not_lt_iff_toNat_le.2 (le_trans (by decide) hlow)
  have h₃ : ¬a < 0xE0 := not_lt_iff_toNat_le.2 (le_trans (by decide) hlow)
  have h₄ : ¬a < 0xF0 := not_lt_iff_toNat_le.2 (le_trans (by decide) hlow)
  have h₅ : a < 0xF5 := UInt8.lt_iff_toNat_lt.2 hhigh
  rw [unutf8From.eq_def]
  simp only [h₁, h₂, h₃, h₄, h₅, hb, hc, hd, if_true, if_false]

end

/-! ## Characters and texts -/

/-- An octet of payload after the first. -/
lemma toNat_continuation (n : ℕ) : (UInt8.ofNat (n % 64 + 128)).toNat = n % 64 + 128 :=
  toNat_octet (by omega)

lemma isContinuation_octet (n : ℕ) : isContinuation (UInt8.ofNat (n % 64 + 128)) = true := by
  rw [isContinuation_iff, toNat_continuation]
  omega

lemma payload_octet (n : ℕ) : payload (UInt8.ofNat (n % 64 + 128)) = n % 64 := by
  rw [payload, toNat_continuation]
  omega

/-- A character is read from the octets that write it. -/
lemma unutf8From_encode (c : Char) (index : ℕ) (read : List Char) (rest : List UInt8) :
    ∃ index', unutf8From index read (String.utf8EncodeChar c ++ rest) =
      unutf8From index' (c :: read) rest := by
  have hvalid : c.toNat < 0xD800 ∨ 0xDFFF < c.toNat ∧ c.toNat < 0x110000 := c.valid
  have hchar : ∀ n, n = c.toNat → Char.ofNat n = c := fun n hn => by rw [hn, Char.ofNat_toNat]
  have hval : c.val.toNat = c.toNat := rfl
  simp only [String.utf8EncodeChar, hval]
  split_ifs with hone htwo hthree
  · have ha : (UInt8.ofNat c.toNat).toNat = c.toNat := toNat_octet (by omega)
    refine ⟨index + 1, ?_⟩
    rw [List.singleton_append, unutf8From_one (by omega), hchar _ ha]
  · have ha : (UInt8.ofNat (c.toNat / 64 % 32 + 192)).toNat = c.toNat / 64 % 32 + 192 :=
      toNat_octet (by omega)
    refine ⟨index + 2, ?_⟩
    simp only [List.cons_append, List.nil_append]
    rw [unutf8From_two (by omega) (by omega) (isContinuation_octet _), payload_octet, ha,
      hchar _ (by omega)]
  · have ha : (UInt8.ofNat (c.toNat / 4096 % 16 + 224)).toNat = c.toNat / 4096 % 16 + 224 :=
      toNat_octet (by omega)
    have hb := isSecondOfThree_iff (a := UInt8.ofNat (c.toNat / 4096 % 16 + 224))
      (b := UInt8.ofNat (c.toNat / 64 % 64 + 128))
    rw [ha, toNat_continuation] at hb
    refine ⟨index + 3, ?_⟩
    simp only [List.cons_append, List.nil_append]
    rw [unutf8From_three (by omega) (by omega)
      (hb.2 ⟨isContinuation_octet _, by omega, by omega⟩) (isContinuation_octet _),
      payload_octet, payload_octet, ha, hchar _ (by omega)]
  · have ha : (UInt8.ofNat (c.toNat / 262144 % 8 + 240)).toNat = c.toNat / 262144 % 8 + 240 :=
      toNat_octet (by omega)
    have hb := isSecondOfFour_iff (a := UInt8.ofNat (c.toNat / 262144 % 8 + 240))
      (b := UInt8.ofNat (c.toNat / 4096 % 64 + 128))
    rw [ha, toNat_continuation] at hb
    refine ⟨index + 4, ?_⟩
    simp only [List.cons_append, List.nil_append]
    rw [unutf8From_four (by omega) (by omega)
      (hb.2 ⟨isContinuation_octet _, by omega, by omega⟩) (isContinuation_octet _)
      (isContinuation_octet _), payload_octet, payload_octet, payload_octet, ha,
      hchar _ (by omega)]

lemma unutf8From_utf8 (cs : List Char) (index : ℕ) (read : List Char) :
    unutf8From index read (utf8 cs) = .ok (read.reverse ++ cs) := by
  induction cs generalizing index read with
  | nil =>
      rw [utf8, List.flatMap_nil, unutf8From.eq_def]
      simp
  | cons c rest ih =>
      obtain ⟨index', hchar⟩ := unutf8From_encode c index read (utf8 rest)
      rw [utf8, List.flatMap_cons, ← utf8, hchar, ih]
      simp

/-- A text is read from the octets that write it. -/
theorem unutf8_utf8 (cs : List Char) : unutf8 (utf8 cs) = .ok cs :=
  unutf8From_utf8 cs 0 []

/-! ## The octets of a text that was read -/

section

variable {a b c d : UInt8}

/-- The number of a character, where it is one. -/
lemma toNat_val_char {n : ℕ} (h : n.isValidChar) : (Char.ofNat n).val.toNat = n := by
  unfold Char.ofNat
  rw [dif_pos h]
  rfl

lemma ofNat_eq_octet {n : ℕ} (h : n = a.toNat) : UInt8.ofNat n = a := by
  rw [h, UInt8.ofNat_toNat]

lemma encode_one (ha : a.toNat < 0x80) : String.utf8EncodeChar (Char.ofNat a.toNat) = [a] := by
  have hval := toNat_val_char (n := a.toNat) (.inl (by omega))
  simp only [String.utf8EncodeChar, hval]
  rw [if_pos (by omega), ofNat_eq_octet rfl]

lemma encode_two (hlow : 0xC2 ≤ a.toNat) (hhigh : a.toNat < 0xE0)
    (hb : isContinuation b = true) :
    String.utf8EncodeChar (Char.ofNat (a.toNat % 32 * 64 + payload b)) = [a, b] := by
  have hb := isContinuation_iff.1 hb
  unfold payload
  have hval := toNat_val_char (n := a.toNat % 32 * 64 + b.toNat % 64) (.inl (by omega))
  simp only [String.utf8EncodeChar, hval]
  rw [if_neg (by omega), if_pos (by omega), ofNat_eq_octet (a := a) (by omega),
    ofNat_eq_octet (a := b) (by omega)]

lemma encode_three (hlow : 0xE0 ≤ a.toNat) (hhigh : a.toNat < 0xF0)
    (hb : isSecondOfThree a b = true) (hc : isContinuation c = true) :
    String.utf8EncodeChar (Char.ofNat (a.toNat % 16 * 4096 + payload b * 64 + payload c)) =
      [a, b, c] := by
  obtain ⟨hb, hlowest, hsurrogate⟩ := isSecondOfThree_iff.1 hb
  have hb := isContinuation_iff.1 hb
  have hc := isContinuation_iff.1 hc
  unfold payload
  have hval := toNat_val_char (n := a.toNat % 16 * 4096 + b.toNat % 64 * 64 + c.toNat % 64)
    (by unfold Nat.isValidChar; omega)
  simp only [String.utf8EncodeChar, hval]
  rw [if_neg (by omega), if_neg (by omega), if_pos (by omega), ofNat_eq_octet (a := a) (by omega),
    ofNat_eq_octet (a := b) (by omega), ofNat_eq_octet (a := c) (by omega)]

lemma encode_four (hlow : 0xF0 ≤ a.toNat) (hhigh : a.toNat < 0xF5)
    (hb : isSecondOfFour a b = true) (hc : isContinuation c = true)
    (hd : isContinuation d = true) :
    String.utf8EncodeChar (Char.ofNat
      (a.toNat % 8 * 262144 + payload b * 4096 + payload c * 64 + payload d)) = [a, b, c, d] := by
  obtain ⟨hb, hlowest, hhighest⟩ := isSecondOfFour_iff.1 hb
  have hb := isContinuation_iff.1 hb
  have hc := isContinuation_iff.1 hc
  have hd := isContinuation_iff.1 hd
  unfold payload
  have hval := toNat_val_char
    (n := a.toNat % 8 * 262144 + b.toNat % 64 * 4096 + c.toNat % 64 * 64 + d.toNat % 64)
    (by unfold Nat.isValidChar; omega)
  simp only [String.utf8EncodeChar, hval]
  rw [if_neg (by omega), if_neg (by omega), if_neg (by omega), ofNat_eq_octet (a := a) (by omega),
    ofNat_eq_octet (a := b) (by omega), ofNat_eq_octet (a := c) (by omega),
    ofNat_eq_octet (a := d) (by omega)]

end

/-- One character and the octets that write it belong to the text that is read from there on. -/
lemma utf8_step {c : Char} {octets rest : List UInt8} {read cs : List Char}
    (hc : String.utf8EncodeChar c = octets)
    (h : ∃ later, cs = (c :: read).reverse ++ later ∧ utf8 later = rest) :
    ∃ later, cs = read.reverse ++ later ∧ utf8 later = octets ++ rest := by
  obtain ⟨later, rfl, rfl⟩ := h
  exact ⟨c :: later, by simp, by rw [utf8, List.flatMap_cons, hc, ← utf8]⟩

lemma utf8_of_unutf8From {index : ℕ} {read cs : List Char} {bytes : List UInt8}
    (h : unutf8From index read bytes = .ok cs) :
    ∃ later, cs = read.reverse ++ later ∧ utf8 later = bytes := by
  fun_induction unutf8From index read bytes with
  | case1 index read =>
      cases h
      exact ⟨[], by simp, rfl⟩
  | case2 index read a rest ha ih =>
      exact utf8_step (encode_one (UInt8.lt_iff_toNat_lt.1 ha)) (ih h)
  | case5 index read a ha₁ ha₂ ha₃ b rest hb ih =>
      exact utf8_step
        (encode_two (not_lt_iff_toNat_le.1 ha₂) (UInt8.lt_iff_toNat_lt.1 ha₃) hb) (ih h)
  | case9 index read a ha₁ ha₂ ha₃ ha₄ b hb c rest hc ih =>
      exact utf8_step
        (encode_three (not_lt_iff_toNat_le.1 ha₃) (UInt8.lt_iff_toNat_lt.1 ha₄) hb hc) (ih h)
  | case15 index read a ha₁ ha₂ ha₃ ha₄ ha₅ b hb c hc d rest hd ih =>
      exact utf8_step
        (encode_four (not_lt_iff_toNat_le.1 ha₄) (UInt8.lt_iff_toNat_lt.1 ha₅) hb hc hd) (ih h)
  | _ => cases h

/-- Octets that are read as a text are the ones that write it: no text is written in two ways. -/
lemma utf8_of_unutf8 {bytes : List UInt8} {cs : List Char} (h : unutf8 bytes = .ok cs) :
    utf8 cs = bytes := by
  obtain ⟨later, hcs, hlater⟩ := utf8_of_unutf8From h
  rwa [hcs, List.reverse_nil, List.nil_append]

end TypeLang.Text
