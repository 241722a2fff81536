import Mathlib.Data.Nat.Digits.Lemmas
import TypeLang.Content.Waveform
import TypeLang.Proofs.Wire.Written

/-!
# Waveforms as numbers

Octets write a number in base 256, the lowest digit first.  The samples in them write the same
number in base 32, as far as whole samples go: what is left behind the last one is less than five
bits and is cut off.  Base and number of digits determine the digits, so samples that have been
packed into octets are found there again.  The octets may have room for one more sample, which is
zero.
-/

namespace TypeLang.Content.Waveform

open Wire

/-! ## Digits -/

/-- An octet is a digit of the number that the octets write. -/
lemma toNat_getD (octets : List UInt8) (k : ℕ) :
    (octets.getD k 0).toNat = ofLittleEndian octets / 256 ^ k % 256 := by
  induction octets generalizing k with
  | nil => simp [ofLittleEndian]
  | cons b rest ih =>
      have hb := b.toNat_lt
      cases k with
      | zero =>
          rw [List.getD_cons_zero, ofLittleEndian, pow_zero, Nat.div_one]
          omega
      | succ k =>
          have hrest : (b.toNat + 256 * ofLittleEndian rest) / 256 = ofLittleEndian rest := by
            omega
          rw [List.getD_cons_succ, ih, ofLittleEndian, pow_succ', ← Nat.div_div_eq_div_mul, hrest]

/-- Two octets in a row are two digits. -/
lemma two_octets (octets : List UInt8) (k : ℕ) :
    (octets.getD k 0).toNat + 256 * (octets.getD (k + 1) 0).toNat =
      ofLittleEndian octets / 256 ^ k % 2 ^ 16 := by
  rw [toNat_getD, toNat_getD, pow_succ, ← Nat.div_div_eq_div_mul, ← Nat.mod_mul]
  rfl

/-- Five bits from bit `shift` on do not reach beyond sixteen. -/
lemma five_bits_of_sixteen (n : ℕ) {shift : ℕ} (hshift : shift < 8) :
    n % 2 ^ 16 / 2 ^ shift % 2 ^ 5 = n / 2 ^ shift % 2 ^ 5 := by
  have hsplit : 2 ^ 16 = 2 ^ shift * 2 ^ (16 - shift) := by
    rw [← pow_add, Nat.add_sub_cancel' (by omega)]
  have hdvd : 2 ^ 5 ∣ 2 ^ (16 - shift) := Nat.pow_dvd_pow 2 (by omega)
  rw [hsplit, Nat.mod_mul_right_div_self, Nat.mod_mod_of_dvd _ hdvd]

lemma sample_toArray (octets : List UInt8) (i : ℕ) :
    sample octets.toArray i = ((octets.getD (i * 5 / 8) 0).toNat +
      256 * (octets.getD (i * 5 / 8 + 1) 0).toNat) / 2 ^ (i * 5 % 8) % 2 ^ 5 := by
  have hgetD : ∀ k, octets.toArray.getD k 0 = octets.getD k 0 := by
    intro k
    rw [Array.getD_eq_getD_getElem?, List.getElem?_toArray, List.getD_eq_getElem?_getD]
  rw [← hgetD, ← hgetD]
  rfl

/-- A sample is a digit of the number that the octets write. -/
lemma sample_eq (octets : List UInt8) (i : ℕ) :
    sample octets.toArray i = ofLittleEndian octets / 32 ^ i % 32 := by
  have hplace : 256 ^ (i * 5 / 8) * 2 ^ (i * 5 % 8) = 32 ^ i := by
    calc (2 ^ 8) ^ (i * 5 / 8) * 2 ^ (i * 5 % 8)
        = 2 ^ (8 * (i * 5 / 8) + i * 5 % 8) := by rw [pow_add, pow_mul]
      _ = 2 ^ (5 * i) := by rw [Nat.div_add_mod, Nat.mul_comm]
      _ = (2 ^ 5) ^ i := pow_mul 2 5 i
  calc sample octets.toArray i
      = ((octets.getD (i * 5 / 8) 0).toNat + 256 * (octets.getD (i * 5 / 8 + 1) 0).toNat) /
          2 ^ (i * 5 % 8) % 2 ^ 5 := sample_toArray octets i
    _ = ofLittleEndian octets / 256 ^ (i * 5 / 8) / 2 ^ (i * 5 % 8) % 2 ^ 5 := by
        rw [two_octets, five_bits_of_sixteen _ (Nat.mod_lt _ (by decide))]
    _ = ofLittleEndian octets / 32 ^ i % 32 := by rw [Nat.div_div_eq_div_mul, hplace]; rfl

/-- The lowest digits of a number. -/
lemma ofDigits_lowest (base n count : ℕ) :
    Nat.ofDigits base ((List.range count).map fun i => n / base ^ i % base) = n % base ^ count := by
  induction count with
  | zero => simp [Nat.mod_one]
  | succ count ih =>
      rw [List.range_succ, List.map_append, List.map_singleton, Nat.ofDigits_append, ih,
        Nat.ofDigits_singleton, List.length_map, List.length_range, Nat.mod_pow_succ]

/-! ## Samples -/

lemma length_samples (octets : List UInt8) :
    (samples octets).length = 8 * octets.length / 5 := by
  rw [samples, List.length_map, List.length_range, sampleCount, Nat.mul_comm]
  rfl

lemma lt_of_mem_samples {octets : List UInt8} {x : ℕ} (h : x ∈ samples octets) : x < 32 := by
  obtain ⟨i, -, rfl⟩ := List.mem_map.1 h
  rw [sample_eq]
  exact Nat.mod_lt _ (by decide)

lemma ofDigits_samples (octets : List UInt8) :
    Nat.ofDigits 32 (samples octets) =
      ofLittleEndian octets % 32 ^ (8 * octets.length / 5) := by
  have hdigits : samples octets = (List.range (8 * octets.length / 5)).map fun i =>
      ofLittleEndian octets / 32 ^ i % 32 := by
    rw [samples, sampleCount, Nat.mul_comm]
    exact List.map_congr_left fun i _ => sample_eq octets i
  rw [hdigits, ofDigits_lowest]

/-- A sample begins in an octet that is there, and goes on in the next one, if any. -/
lemma sample_begins (octets : List UInt8) {i : ℕ} (hi : i < 8 * octets.length / 5) :
    ∃ low, octets[i * 5 / 8]? = some low ∧
      sample octets.toArray i =
        (low.toNat + 256 * (octets[i * 5 / 8 + 1]?.getD 0).toNat) / 2 ^ (i * 5 % 8) % 32 := by
  have hlt : i * 5 / 8 < octets.length := by omega
  have hlow : octets.getD (i * 5 / 8) 0 = octets[i * 5 / 8] := by
    rw [List.getD_eq_getElem?_getD, List.getElem?_eq_getElem hlt, Option.getD_some]
  refine ⟨_, List.getElem?_eq_getElem hlt, ?_⟩
  rw [sample_toArray, hlow, List.getD_eq_getElem?_getD]
  rfl

/-! ## Packing -/

/-- Octets into which samples are packed, from the lowest bit of the first octet on.  What is left
of the last octet is filled up with zeros. -/
structure PackedInto (octets : List UInt8) (row : List ℕ) : Prop where
  length : octets.length = (5 * row.length + 7) / 8
  bits : ∀ k, (octets.getD (k / 8) 0).toNat.testBit (k % 8) = (row.getD (k / 5) 0).testBit (k % 5)

/-- The octets into which samples are packed. -/
def pack (row : List ℕ) : List UInt8 :=
  littleEndian ((5 * row.length + 7) / 8) (Nat.ofDigits 32 row)

section

variable {row : List ℕ} (hrow : ∀ x ∈ row, x < 32)

include hrow

/-- The bits of digits in base 32 stand one after another. -/
lemma testBit_ofDigits (k : ℕ) :
    (Nat.ofDigits 32 row).testBit k = (row.getD (k / 5) 0).testBit (k % 5) := by
  induction row generalizing k with
  | nil => simp
  | cons x rest ih =>
      obtain ⟨hx, hrest⟩ := List.forall_mem_cons.1 hrow
      have hbit : (x + 32 * Nat.ofDigits 32 rest).testBit k =
          if k < 5 then x.testBit k else (Nat.ofDigits 32 rest).testBit (k - 5) := by
        rw [Nat.add_comm]
        exact Nat.testBit_two_pow_mul_add _ (show x < 2 ^ 5 from hx) k
      rw [Nat.ofDigits_cons, hbit]
      split_ifs with hk
      · rw [Nat.div_eq_of_lt hk, Nat.mod_eq_of_lt hk, List.getD_cons_zero]
      · rw [ih hrest, show k / 5 = (k - 5) / 5 + 1 by omega, List.getD_cons_succ,
          show k % 5 = (k - 5) % 5 by omega]

lemma ofLittleEndian_pack : ofLittleEndian (pack row) = Nat.ofDigits 32 row := by
  have hdigits : Nat.ofDigits 32 row < 32 ^ row.length :=
    Nat.ofDigits_lt_base_pow_length (by decide) hrow
  have hroom : 32 ^ row.length ≤ 256 ^ ((5 * row.length + 7) / 8) := by
    calc (2 ^ 5) ^ row.length = 2 ^ (5 * row.length) := (pow_mul 2 5 _).symm
      _ ≤ 2 ^ (8 * ((5 * row.length + 7) / 8)) := Nat.pow_le_pow_right (by decide) (by omega)
      _ = (2 ^ 8) ^ ((5 * row.length + 7) / 8) := pow_mul 2 8 _
  rw [pack, ofLittleEndian_littleEndian, Nat.mod_eq_of_lt (hdigits.trans_le hroom)]

lemma packedInto_pack : PackedInto (pack row) row := by
  constructor
  · exact length_littleEndian _ _
  · intro k
    rw [← testBit_ofLittleEndian, ofLittleEndian_pack hrow, testBit_ofDigits hrow]

lemma PackedInto.ofLittleEndian_eq {octets : List UInt8} (h : PackedInto octets row) :
    ofLittleEndian octets = Nat.ofDigits 32 row := by
  refine Nat.eq_of_testBit_eq fun k => ?_
  rw [testBit_ofLittleEndian, h.bits, testBit_ofDigits hrow]

/-- Rows of one length that write one number are the same. -/
lemma PackedInto.samples_eq {octets : List UInt8} (h : PackedInto octets row) :
    ∃ k ≤ 1, samples octets = row ++ List.replicate k 0 := by
  obtain ⟨k, hk, hcount⟩ : ∃ k ≤ 1, 8 * octets.length / 5 = row.length + k := by
    rw [h.length]
    exact ⟨8 * ((5 * row.length + 7) / 8) / 5 - row.length, by omega, by omega⟩
  have hlengths : (samples octets).length = (row ++ List.replicate k 0).length := by
    rw [length_samples, hcount, List.length_append, List.length_replicate]
  have hfilled : ∀ x ∈ row ++ List.replicate k 0, x < 32 := by
    intro x hx
    rcases List.mem_append.1 hx with hx | hx
    · exact hrow x hx
    · rw [List.eq_of_mem_replicate hx]
      decide
  have hlt : Nat.ofDigits 32 row < 32 ^ (row.length + k) :=
    (Nat.ofDigits_lt_base_pow_length (by decide) hrow).trans_le
      (Nat.pow_le_pow_right (by decide) (Nat.le_add_right _ _))
  have hvalue : Nat.ofDigits 32 (samples octets) =
      Nat.ofDigits 32 (row ++ List.replicate k 0) := by
    rw [ofDigits_samples, hcount, h.ofLittleEndian_eq hrow, Nat.mod_eq_of_lt hlt,
      Nat.ofDigits_append_replicate_zero]
  exact ⟨k, hk, Nat.ofDigits_inj_of_len_eq (by decide) hlengths
    (fun x hx => lt_of_mem_samples hx) hfilled hvalue⟩

end

/-! ## The main result -/

/-- What the samples in octets are. -/
structure AreDigits (octets : List UInt8) (row : List ℕ) : Prop where
  /-- There are as many as fit, -/
  length : row.length = 8 * octets.length / 5
  /-- each of five bits, -/
  lt : ∀ x ∈ row, x < 32
  /-- each from an octet on that is there, the one behind it being zero if it is not, -/
  begins : ∀ (i : ℕ) (h : i < row.length), ∃ low, octets[i * 5 / 8]? = some low ∧
    row[i] = (low.toNat + 256 * (octets[i * 5 / 8 + 1]?.getD 0).toNat) / 2 ^ (i * 5 % 8) % 32
  /-- and they write the number that the octets write, as far as they go. -/
  value : (row.mapIdx fun i x => x * 32 ^ i).sum =
    ofLittleEndian octets % 32 ^ (8 * octets.length / 5)

/-- **Samples are digits.**  The samples in octets are the lowest digits in base 32 of the number
that the octets write.  Any row of such digits can be packed into octets, and is found again in all
octets into which it is packed, with at most one zero behind it. -/
theorem samples_areDigits :
    (∀ octets, AreDigits octets (samples octets)) ∧
      ∀ row : List ℕ, (∀ x ∈ row, x < 32) → PackedInto (pack row) row ∧
        ∀ octets, PackedInto octets row → ∃ k ≤ 1, samples octets = row ++ List.replicate k 0 := by
  constructor
  · intro octets
    constructor
    case length => exact length_samples octets
    case lt => exact fun x hx => lt_of_mem_samples hx
    case begins =>
      intro i hi
      have hsample : (samples octets)[i] = sample octets.toArray i := by simp [samples]
      rw [hsample]
      exact sample_begins octets (length_samples octets ▸ hi)
    case value =>
      rw [← Nat.ofDigits_eq_sum_mapIdx]
      exact ofDigits_samples octets
  · intro row hrow
    refine ⟨packedInto_pack hrow, ?_⟩
    intro octets hpacked
    exact hpacked.samples_eq hrow

/-- Two samples leave room for a third one in their two octets. -/
theorem twoSamples_areDigits : (∀ x ∈ [1, 31], x < 32) ∧ pack [1, 31] = [0xE1, 0x03] ∧
    PackedInto (pack [1, 31]) [1, 31] ∧
      (∃ k ≤ 1, samples (pack [1, 31]) = [1, 31] ++ List.replicate k 0) ∧
        samples (pack [1, 31]) = [1, 31, 0] := by
  have hrow : ∀ x ∈ [1, 31], x < 32 := by decide
  obtain ⟨hpacked, hfound⟩ := samples_areDigits.2 [1, 31] hrow
  exact ⟨hrow, by decide, hpacked, hfound _ hpacked, by decide⟩

end TypeLang.Content.Waveform
