import Mathlib.Data.List.DropRight
import TypeLang.Declaration.Combinator
import TypeLang.Proofs.Text.Words

/-!
# How a declaration is spelled

A declaration is read by its words: which blanks stand between them, and how many, makes no
difference (`read_eq_of_words`).  Its parts are cut at blanks and at an equals sign, which the words
tell, and a number that is derived is derived from the words.

Semicolons at the end are not part of a declaration, so all this is about texts without any.
-/

namespace TypeLang.Declaration.Combinator

open Text

variable {s t : List Char}

/-! ## Without semicolons -/

lemma dropEndWhile_semicolons (h : ';' ∉ s) : dropEndWhile (· == ';') s = s := by
  rcases List.eq_nil_or_concat s with rfl | ⟨before, c, rfl⟩
  · rfl
  · have hc : c ≠ ';' := by
      rintro rfl
      exact h (by simp)
    simp [dropEndWhile, hc]

lemma mem_of_mem_trim {c : Char} (h : c ∈ trim s) : c ∈ s := by
  obtain ⟨lead, trail, -, -, hs⟩ := exists_trim s
  rw [hs]
  exact List.mem_append_left _ (List.mem_append_right _ h)

lemma strip_eq_trim (h : ';' ∉ s) : strip s = trim (trim s) := by
  rw [strip, dropEndWhile_semicolons (mt mem_of_mem_trim h)]

lemma words_strip (h : ';' ∉ s) : words (strip s) = words s := by
  rw [strip_eq_trim h, words_trim, words_trim]

/-- Semicolons behind a declaration are taken off, and the blanks around it. -/
lemma strip_append_semicolons (h : ';' ∉ s) (n : Nat) :
    strip (s ++ List.replicate (n + 1) ';') = trim s := by
  have hmem : ∀ c ∈ List.replicate (n + 1) ';', isBlank c = false := by
    intro c hc
    rw [List.eq_of_mem_replicate hc]
    rfl
  have htrim := trim_append_of_ends (by simp [List.replicate_succ])
    (fun c hc => hmem c (List.mem_of_mem_head? hc))
    (fun c hc => hmem c (List.mem_of_mem_getLast? hc)) s
  have hsemicolons : dropEndWhile (· == ';') (trimStart s ++ List.replicate (n + 1) ';') =
      dropEndWhile (· == ';') (trimStart s) := by
    simp [dropEndWhile]
  have hfree : ';' ∉ trimStart s := mt (List.dropWhile_sublist isBlank).mem h
  have hidem : trimStart (trimStart s) = trimStart s :=
    List.dropWhile_idempotent _ _
  rw [strip, htrim, hsemicolons, dropEndWhile_semicolons hfree, trim, hidem, trim]

/-! ## The parts of a declaration -/

/-- What is left of a blank is the first word, and what is right of it has the other words. -/
lemma halves_trim (s : List Char) :
    (halves isBlank (trim s)).1 = (words s).headD [] ∧
      words ((halves isBlank (trim s)).2.getD []) = (words s).tail := by
  rw [← words_trim s]
  rcases (trimmed_trim s).unbroken_or with hs | ⟨w, b, rest, hs, hb, hw, hne, -⟩
  · have hhalves : halves isBlank (trim s) = (trim s, none) := by
      rw [halves, cutAt_eq_none.2 hs]
    rw [hhalves]
    by_cases hempty : trim s = []
    · simp [hempty]
    · simp [words_of_unbroken hs hempty]
  · have hhalves : halves isBlank (trim s) = (w, some rest) := by
      rw [hs, halves, cutAt_eq_some_of_first hw hb]
    rw [hhalves, hs, words_append_blank hb, words_of_unbroken hw hne]
    simp

/-- What a result of some words is read as.  It is one word. -/
def readResultOf : List (List Char) → Except CombinatorFault TypeTerm
  | [] => .error .missingType
  | [w] => (TypeTerm.read w).mapError fun _ => .missingType
  | _ => .error .unsupported

lemma readResult_trim (s : List Char) : readResult (trim s) = readResultOf (words s) := by
  rw [← words_trim s]
  rcases (trimmed_trim s).unbroken_or with hs | ⟨w, b, rest, hs, hb, hw, hne, hrest⟩
  · by_cases hempty : trim s = []
    · simp [hempty, readResult, readResultOf]
    · have hany : (trim s).any isBlank = false := List.any_eq_false.2 (by simpa [Unbroken] using hs)
      simp [words_of_unbroken hs hempty, readResult, readResultOf, hempty, hany]
  · obtain ⟨next, more, hwords⟩ := List.exists_cons_of_ne_nil hrest
    rw [hs, words_append_blank hb, words_of_unbroken hw hne, hwords, readResult]
    simp [hb, readResultOf]

/-- What is read of the words left and right of an equals sign, if `number` reads what stands behind
a `#`. -/
def readSides (left right : List (List Char))
    (number : Option (List Char) → Except CombinatorFault UInt32) :
    Except CombinatorFault Combinator := do
  let result ← readResultOf right
  let (full, digits?) := halves (· == '#') (left.headD [])
  match QualifiedName.read? full with
  | none => throw .missingName
  | some name =>
    let id ← number digits?
    let (vars, args) ← readArgs [] [] left.tail
    let result := if vars.contains result.head.name.last then result.markGeneric else result
    return ⟨name, id, args, result, .types⟩

/-- A declaration is read by the words on the two sides of its first equals sign. -/
lemma read_of_cut {left right : List Char} (h : cutAtChar '=' (strip s) = some (left, right)) :
    read s = readSides (words left) (words right) (readId (strip s)) := by
  have hempty : (strip s).isEmpty = false := by
    cases hs : strip s with
    | nil => simp [hs, cutAtChar, cutAt] at h
    | cons _ _ => rfl
  obtain ⟨hhead, hrest⟩ := halves_trim left
  simp only [read, hempty, h, readResult_trim, hhead, hrest, readSides]
  rfl

lemma readId_eq_of_words (h : words s = words t) : readId s = readId t := by
  funext digits?
  rw [readId.eq_def, readId.eq_def, derivedId, derivedId, squeeze, squeeze, h]

lemma isEmpty_strip (s : List Char) : (strip s).isEmpty = (words (strip s)).isEmpty := by
  have h : words (strip s) = [] ↔ strip s = [] := (trimmed_trim _).words_eq_nil
  rw [Bool.eq_iff_iff, List.isEmpty_iff, List.isEmpty_iff, h]

/-- **A declaration is read by its words.** -/
theorem read_eq_of_words (hs : ';' ∉ s) (ht : ';' ∉ t) (h : words s = words t) :
    read s = read t := by
  have hstrip : words (strip s) = words (strip t) := by
    rw [words_strip hs, words_strip ht, h]
  have hcut : (cutAtChar '=' (strip s)).map (Prod.map words words) =
      (cutAtChar '=' (strip t)).map (Prod.map words words) := by
    rw [map_cutAtChar (by decide), map_cutAtChar (by decide), hstrip]
  cases hs : cutAtChar '=' (strip s) with
  | none =>
      have ht : cutAtChar '=' (strip t) = none := by simpa [hs] using hcut
      have hempty : (strip s).isEmpty = (strip t).isEmpty := by
        rw [isEmpty_strip, isEmpty_strip, hstrip]
      simp only [read, hempty, hs, ht]
  | some parts =>
      obtain ⟨parts', ht, hleft, hright⟩ : ∃ parts', cutAtChar '=' (strip t) = some parts' ∧
          words parts'.1 = words parts.1 ∧ words parts'.2 = words parts.2 := by
        simpa [hs, Prod.map, eq_comm] using hcut
      rw [read_of_cut hs, read_of_cut ht, hleft, hright, readId_eq_of_words hstrip]

end TypeLang.Declaration.Combinator
