import Mathlib.Tactic
import TypeLang.Text.Hex
import TypeLang.Text.Numeral

/-!
# Numerals are read as they are written

A row of digits is read from the left, so a row in two parts is read one part after the other.
Written digits come off a number at the end; by induction on their count they make the number again.
-/

namespace TypeLang.Text

lemma digits_append (radix limit acc : ℕ) (x y : List Char) :
    digits radix limit acc (x ++ y) = digits radix limit acc x >>= (digits radix limit · y) := by
  induction x generalizing acc with
  | nil => rfl
  | cons c rest ih =>
      rw [List.cons_append, digits, digits]
      cases digitValue? radix c with
      | none => rfl
      | some d =>
          simp only
          split_ifs
          · exact ih _
          · rfl

/-- Reading stops before a number grows over the limit. -/
lemma digits_le {radix limit acc n : ℕ} {s : List Char} (hacc : acc ≤ limit)
    (h : digits radix limit acc s = .ok n) : n ≤ limit := by
  induction s generalizing acc with
  | nil =>
      cases h
      exact hacc
  | cons c rest ih =>
      rw [digits] at h
      split at h
      case h_1 => cases h
      case h_2 d hd =>
        split_ifs at h with hle
        exact ih hle h

lemma natural_le {radix limit n : ℕ} {s : List Char} (h : natural radix limit s = .ok n) :
    n ≤ limit := by
  unfold natural at h
  split at h
  · cases h
  · cases h
  · exact digits_le (Nat.zero_le limit) h
  · exact digits_le (Nat.zero_le limit) h

lemma digitValue?_hexDigit {n : ℕ} (h : n < 16) : digitValue? 16 (hexDigit n) = some n := by
  have hall : ∀ n < 16, digitValue? 16 (hexDigit n) = some n := by decide
  exact hall n h

/-- By induction on the width: the last digit comes off the end. -/
lemma digits_hexDigits {limit : ℕ} (width n : ℕ) (h : n < 16 ^ width) (hlimit : n ≤ limit) :
    digits 16 limit 0 (hexDigits width n) = .ok n := by
  induction width generalizing n with
  | zero =>
      obtain rfl : n = 0 := by simpa using h
      rfl
  | succ width ih =>
      have hdiv : n / 16 < 16 ^ width := Nat.div_lt_of_lt_mul (by rwa [← Nat.pow_succ'])
      rw [hexDigits, digits_append, ih (n / 16) hdiv ((Nat.div_le_self n 16).trans hlimit)]
      have hvalue := digitValue?_hexDigit (Nat.mod_lt n (by decide : 0 < 16))
      have hsum : n / 16 * 16 + n % 16 = n := Nat.div_add_mod' n 16
      show digits 16 limit (n / 16) [hexDigit (n % 16)] = .ok n
      rw [digits, hvalue]
      simp only [hsum, if_pos hlimit, digits]

lemma mem_hexDigits {width n : ℕ} {c : Char} (h : c ∈ hexDigits width n) :
    ∃ k < 16, c = hexDigit k := by
  induction width generalizing n with
  | zero => cases h
  | succ width ih =>
      rcases List.mem_append.1 h with h | h
      · exact ih h
      · exact ⟨n % 16, Nat.mod_lt n (by decide), List.mem_singleton.1 h⟩

lemma natural_of_plain {radix limit : ℕ} {s : List Char} (hne : s ≠ []) (hplus : '+' ∉ s) :
    natural radix limit s = digits radix limit 0 s := by
  obtain ⟨c, rest, rfl⟩ := List.exists_cons_of_ne_nil hne
  have hc : c ≠ '+' := fun h => hplus (h ▸ List.mem_cons_self)
  unfold natural
  split
  · contradiction
  · simp_all
  · simp_all
  · rfl

end TypeLang.Text
