import Mathlib.Tactic
import TypeLang.Number.Double

/-!
# Natural numbers as doubles

A natural number of at most 1022 bits is rounded to a finite double.  Its units have at most 2097
bits, of which the significand takes 53, so rounding ends below the exponent that stands for
infinity, also where it carries into one more bit.
-/

namespace TypeLang.Double

lemma isFinite_of_lt {d : Double} (h : d.bits.toNat < infinityBits) : d.isFinite = true := by
  have hexponent : d.bits.toNat / Nat.pow 2 52 < 2047 :=
    Nat.div_lt_of_lt_mul (Nat.mul_comm 2047 _ ▸ h)
  have hne : d.exponentBits ≠ 2047 := by
    unfold exponentBits
    exact ((Nat.mod_le _ _).trans_lt hexponent).ne
  exact bne_iff_ne.2 hne

lemma roundQuotient_le (num den : ℕ) : roundQuotient num den ≤ num / den + 1 := by
  unfold roundQuotient
  simp only
  split_ifs
  · exact le_rfl
  · exact Nat.le_succ _

/-- Shifted down to 53 bits, a number is below 2⁵³. -/
lemma shifted_lt (units : ℕ) : units / 2 ^ (units.log2 - 52) < 2 ^ 53 := by
  have hunits : units < 2 ^ (units.log2 + 1) := Nat.lt_log2_self
  have hbits : 2 ^ (units.log2 + 1) ≤ 2 ^ (units.log2 - 52) * 2 ^ 53 := by
    rw [← pow_add]
    exact Nat.pow_le_pow_right (by decide) (by omega)
  exact Nat.div_lt_of_lt_mul (hunits.trans_le hbits)

/-- A product has at most as many bits as both factors together. -/
lemma log2_mul_lt {m bits : ℕ} (h : m < 2 ^ bits) (n : ℕ) :
    (m * n).log2 < bits + (n.log2 + 1) := by
  by_cases hzero : m * n = 0
  · rw [hzero, Nat.log2_zero]
    exact Nat.add_pos_right bits (Nat.succ_pos _)
  · rw [Nat.log2_lt hzero, pow_add]
    exact Nat.mul_lt_mul'' h Nat.lt_log2_self

lemma isFinite_ofNat {n bits : ℕ} (h : n < 2 ^ bits) (hbits : bits ≤ 1022) :
    (ofNat n).isFinite = true := by
  have hlog : (n * one).log2 < bits + (one.log2 + 1) := log2_mul_lt h one
  have hone : one.log2 = 1074 := by decide +kernel
  generalize hunits : n * one = units at hlog
  have hround : roundQuotient units (2 ^ (units.log2 - 52)) ≤ 2 ^ 53 :=
    (roundQuotient_le _ _).trans (shifted_lt units)
  have hrounded : roundQuotient units (2 ^ (units.log2 - 52)) + (units.log2 - 52) * 2 ^ 52 <
      infinityBits := by
    have hinfinity : infinityBits = 2047 * 2 ^ 52 := rfl
    omega
  have hofNat : ofNat n = ⟨UInt64.ofNat
      (roundQuotient units (2 ^ (units.log2 - 52)) + (units.log2 - 52) * 2 ^ 52)⟩ := by
    unfold ofNat nearest
    simp only [hunits, Nat.div_one, Nat.one_mul, Nat.pow_eq]
    rw [Nat.min_eq_left hrounded.le]
  apply isFinite_of_lt
  rw [hofNat, UInt64.toNat_ofNat']
  exact (Nat.mod_le _ _).trans_lt hrounded

end TypeLang.Double
