import Mathlib.Tactic
import TypeLang.Compression.Inflate

/-!
# Expansion under a bound

What comes out of packed octets under a bound either reaches the bound or is all there is, and then
comes out under every higher bound too.  A fault that shows under a bound shows under every higher
one.  The fallback from one format to the other rests on both: the reader of gzip members fails
under a higher bound where it fails under a lower one, so a content is never taken from one format
under one bound and from the other under another.
-/

namespace TypeLang.Compression

namespace Deflate

/-! ## Tokens -/

@[simp] lemma size_copyBack (distance count : ℕ) (out : Array UInt8) :
    (copyBack distance count out).size = out.size + count := by
  induction count generalizing out with
  | zero => rfl
  | succ count ih =>
      simp only [copyBack, ih, Array.size_push]
      omega

lemma expandedSize_eq_sum (tokens : List Token) :
    expandedSize tokens = (tokens.map Token.size).sum := by
  rw [List.sum_eq_foldl, List.foldl_map]
  rfl

@[simp] lemma expandedSize_nil : expandedSize [] = 0 :=
  rfl

@[simp] lemma expandedSize_cons (t : Token) (rest : List Token) :
    expandedSize (t :: rest) = t.size + expandedSize rest := by
  simp only [expandedSize_eq_sum, List.map_cons, List.sum_cons]

/-- Tokens are carried out up to the bound, and none beyond it. -/
lemma size_expandOnto {bound : ℕ} {out : Array UInt8} (h : out.size ≤ bound)
    (tokens : List Token) :
    (expandOnto bound out tokens).size = min bound (out.size + expandedSize tokens) := by
  induction tokens generalizing out with
  | nil =>
      simp only [expandOnto, expandedSize_nil]
      omega
  | cons t rest ih =>
      unfold expandOnto
      by_cases hfull : bound ≤ out.size
      · rw [if_pos hfull]
        omega
      · rw [if_neg hfull]
        cases t with
        | literal octet =>
            have hnext : (out.push octet).size ≤ bound := by
              rw [Array.size_push]
              omega
            simp only [ih hnext, Array.size_push, expandedSize_cons, Token.size]
            omega
        | copy length distance =>
            have hnext : (copyBack distance (min length (bound - out.size)) out).size ≤ bound := by
              rw [size_copyBack]
              omega
            simp only [ih hnext, size_copyBack, expandedSize_cons, Token.size]
            omega

lemma length_expand (bound : ℕ) (tokens : List Token) :
    (expand bound tokens).length = min bound (expandedSize tokens) := by
  unfold expand
  rw [Array.length_toList, size_expandOnto (Nat.zero_le _)]
  simp

/-! ## Streams -/

/-- All that a stream stands for. -/
def contentOf (data : List UInt8) : List UInt8 :=
  expand (expandedSize (tokens data).1) (tokens data).1

/-- How a stream ends: before which octets, or in which fault. -/
def endingOf (closing : Closing) (data : List UInt8) : Except StreamFault (List UInt8) :=
  close closing (contentOf data) (tokens data).2

/-- A stream is corrupt, and the bound reaches into the step in which this comes to light. -/
structure Shows (closing : Closing) (before bound : ℕ) (data : List UInt8) : Prop where
  corrupt : endingOf closing data = .error .corrupt
  window : windowStart (expandedSize (tokens data).1) < bound
  portion : portionStart closing before data < bound

section

variable {closing : Closing} {before bound bound' : ℕ} {data : List UInt8}

lemma Shows.mono (h : Shows closing before bound data) (hle : bound ≤ bound') :
    Shows closing before bound' data :=
  ⟨h.corrupt, h.window.trans_le hle, h.portion.trans_le hle⟩

lemma inflate_eq : inflate closing before bound data =
    if expandedSize (tokens data).1 < bound then
      (endingOf closing data).map (.whole (contentOf data))
    else if windowStart (expandedSize (tokens data).1) < bound then
      match endingOf closing data with
      | .error .corrupt =>
        if portionStart closing before data < bound then .error .corrupt
        else .ok (.full (expand bound (tokens data).1))
      | _ => .ok (.full (expand bound (tokens data).1))
    else .ok (.full (expand bound (tokens data).1)) := by
  unfold inflate endingOf contentOf
  generalize tokens data = read
  obtain ⟨tokens, ending⟩ := read
  simp only
  cases close closing (expand (expandedSize tokens) tokens) ending <;> rfl

lemma inflate_of_lt (h : expandedSize (tokens data).1 < bound) :
    inflate closing before bound data =
      (endingOf closing data).map (.whole (contentOf data)) := by
  rw [inflate_eq, if_pos h]

lemma inflate_of_shows (h : Shows closing before bound data) :
    inflate closing before bound data = .error .corrupt := by
  by_cases hsize : expandedSize (tokens data).1 < bound
  · rw [inflate_of_lt hsize, h.corrupt]
    rfl
  · rw [inflate_eq, if_neg hsize, if_pos h.window, h.corrupt]
    exact if_pos h.portion

lemma inflate_of_le (hsize : bound ≤ expandedSize (tokens data).1)
    (hshows : ¬Shows closing before bound data) :
    inflate closing before bound data = .ok (.full (expand bound (tokens data).1)) := by
  rw [inflate_eq, if_neg (not_lt.2 hsize)]
  by_cases hwindow : windowStart (expandedSize (tokens data).1) < bound
  · rw [if_pos hwindow]
    cases hending : endingOf closing data with
    | ok rest => rfl
    | error fault =>
        cases fault with
        | incomplete => rfl
        | corrupt => exact if_neg fun hportion => hshows ⟨hending, hwindow, hportion⟩
  · rw [if_neg hwindow]

/-- Under a bound a stream ends, or shows that it is corrupt, or fills the bound. -/
lemma inflate_cases (closing : Closing) (before bound : ℕ) (data : List UInt8) :
    (expandedSize (tokens data).1 < bound ∧ inflate closing before bound data =
        (endingOf closing data).map (.whole (contentOf data))) ∨
      Shows closing before bound data ∨
      (bound ≤ expandedSize (tokens data).1 ∧
        inflate closing before bound data = .ok (.full (expand bound (tokens data).1))) := by
  rcases lt_or_ge (expandedSize (tokens data).1) bound with hsize | hsize
  · exact .inl ⟨hsize, inflate_of_lt hsize⟩
  · by_cases hshows : Shows closing before bound data
    · exact .inr (.inl hshows)
    · exact .inr (.inr ⟨hsize, inflate_of_le hsize hshows⟩)

/-- A stream that ends below a bound ends there under every higher one. -/
lemma inflate_eq_whole (hle : bound ≤ bound') {content rest : List UInt8}
    (h : inflate closing before bound data = .ok (.whole content rest)) :
    inflate closing before bound' data = .ok (.whole content rest) := by
  rcases inflate_cases closing before bound data with ⟨hsize, hends⟩ | hshows | ⟨-, hfull⟩
  · rw [inflate_of_lt (hsize.trans_le hle), ← hends, h]
  · cases h.symm.trans (inflate_of_shows hshows)
  · cases h.symm.trans hfull

/-- A fault that shows under a bound shows under every higher one. -/
lemma inflate_eq_error (hle : bound ≤ bound') {fault : StreamFault}
    (h : inflate closing before bound data = .error fault) :
    inflate closing before bound' data = .error fault := by
  rcases inflate_cases closing before bound data with ⟨hsize, hends⟩ | hshows | ⟨-, hfull⟩
  · rw [inflate_of_lt (hsize.trans_le hle), ← hends, h]
  · rw [← h, inflate_of_shows hshows, inflate_of_shows (hshows.mono hle)]
  · cases h.symm.trans hfull

/-- What is not all there is reaches the bound. -/
lemma length_of_full {octets : List UInt8}
    (h : inflate closing before bound data = .ok (.full octets)) : octets.length = bound := by
  rcases inflate_cases closing before bound data with ⟨-, hends⟩ | hshows | ⟨hsize, hfull⟩
  · have hmap := h.symm.trans hends
    cases hending : endingOf closing data <;> rw [hending] at hmap <;> cases hmap
  · cases h.symm.trans (inflate_of_shows hshows)
  · cases h.symm.trans hfull
    rw [length_expand, min_eq_left hsize]

end

end Deflate

/-! ## Formats -/

variable {bound bound' limit limit' : ℕ} {data content : List UInt8}

lemma gunzip?_eq_none (hle : bound ≤ bound') (h : gunzip? bound data = none) :
    gunzip? bound' data = none := by
  unfold gunzip? at h ⊢
  cases hheader : skipGzipHeader? data with
  | none => rfl
  | some body =>
      simp only [hheader, Option.bind_eq_bind, Option.bind_some] at h ⊢
      cases hbody : Deflate.inflate Deflate.noClosing (data.length - body.length) bound body with
      | error fault => rw [Deflate.inflate_eq_error hle hbody]
      | ok expansion =>
          rw [hbody] at h
          cases expansion with
          | full octets => cases h
          | whole octets rest =>
              rw [Deflate.inflate_eq_whole hle hbody]
              exact h

lemma gunzip?_eq_some (hle : bound ≤ bound') (h : gunzip? bound data = some content)
    (hbelow : content.length ≠ bound) : gunzip? bound' data = some content := by
  unfold gunzip? at h ⊢
  cases hheader : skipGzipHeader? data with
  | none => simp [hheader] at h
  | some body =>
      simp only [hheader, Option.bind_eq_bind, Option.bind_some] at h ⊢
      cases hbody : Deflate.inflate Deflate.noClosing (data.length - body.length) bound body with
      | error fault => simp [hbody] at h
      | ok expansion =>
          rw [hbody] at h
          cases expansion with
          | full octets =>
              cases h
              exact absurd (Deflate.length_of_full hbody) hbelow
          | whole octets rest =>
              rw [Deflate.inflate_eq_whole hle hbody]
              exact h

lemma unzlib_eq_ok (hle : bound ≤ bound') (h : unzlib bound data = .ok content)
    (hbelow : content.length ≠ bound) : unzlib bound' data = .ok content := by
  unfold unzlib at h ⊢
  split at h
  case h_2 => cases h
  case h_1 method flags body =>
    split_ifs at h ⊢
    cases hbody : Deflate.inflate adlerClosing 2 bound body with
    | error fault => simp [hbody] at h
    | ok expansion =>
        rw [hbody] at h
        cases expansion with
        | full octets =>
            cases h
            exact absurd (Deflate.length_of_full hbody) hbelow
        | whole octets rest =>
            rw [Deflate.inflate_eq_whole hle hbody]
            exact h

lemma unpackUpTo_eq_ok (hle : bound ≤ bound') (h : unpackUpTo bound data = .ok content)
    (hbelow : content.length ≠ bound) : unpackUpTo bound' data = .ok content := by
  unfold unpackUpTo at h ⊢
  cases hgzip : gunzip? bound data with
  | some octets =>
      rw [hgzip] at h
      cases h
      rw [gunzip?_eq_some hle hgzip hbelow]
  | none =>
      rw [hgzip] at h
      rw [gunzip?_eq_none hle hgzip]
      exact unzlib_eq_ok hle h hbelow

/-- **What comes out within a limit comes out within every higher one.** -/
theorem inflate_eq_ok (hle : limit ≤ limit') (h : inflate limit data = .ok content) :
    inflate limit' data = .ok content := by
  unfold inflate at h ⊢
  cases hunpack : unpackUpTo (limit + 1) data with
  | error cause => simp [hunpack] at h
  | ok octets =>
      simp only [hunpack] at h
      split_ifs at h with hlarge
      cases h
      have hsame := unpackUpTo_eq_ok (Nat.succ_le_succ hle) hunpack (by omega)
      simp only [hsame]
      rw [if_neg (by omega)]

end TypeLang.Compression
