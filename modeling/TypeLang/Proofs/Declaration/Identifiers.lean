import TypeLang.Declaration.Combinator
import TypeLang.Proofs.Text.Words

/-!
# Identifiers

An identifier is an ASCII letter and then letters, digits or underscores.  A name may be made of
anything that is not cut off when a declaration is read; one of identifiers is more: no character of
it is a blank, a sigil or a separator, so that it may be put next to these and be found again.
-/

namespace TypeLang.Declaration

open Text

/-- A letter, a digit or an underscore of ASCII. -/
def isPlain (c : Char) : Bool :=
  c.isAlphanum || c == '_'

/-- Whether a name is an identifier. -/
def isIdentifier (name : String) : Bool :=
  match name.toList with
  | [] => false
  | c :: rest => c.isAlpha && rest.all isPlain

/-- Whether every part of a name is an identifier. -/
def QualifiedName.isProper (n : QualifiedName) : Bool :=
  n.path.all isIdentifier && isIdentifier n.last

/-! Letters by their numbers. -/

lemma isUpper_iff {c : Char} : c.isUpper = true ↔ 65 ≤ c.toNat ∧ c.toNat ≤ 90 :=
  decide_eq_true_iff

lemma isLower_iff {c : Char} : c.isLower = true ↔ 97 ≤ c.toNat ∧ c.toNat ≤ 122 :=
  Bool.and_eq_true_iff.trans (and_congr decide_eq_true_iff decide_eq_true_iff)

lemma isAlpha_iff {c : Char} : c.isAlpha = true ↔ c.isUpper = true ∨ c.isLower = true :=
  Bool.or_eq_true_iff

lemma isPlain_iff {c : Char} :
    isPlain c = true ↔ (c.isAlpha = true ∨ c.isDigit = true) ∨ c = '_' :=
  Bool.or_eq_true_iff.trans (or_congr Bool.or_eq_true_iff beq_iff_eq)

/-- The plain characters by their numbers. -/
lemma bounds_of_isPlain {c : Char} (h : isPlain c = true) :
    65 ≤ c.toNat ∧ c.toNat ≤ 90 ∨ 97 ≤ c.toNat ∧ c.toNat ≤ 122 ∨ 48 ≤ c.toNat ∧ c.toNat ≤ 57 ∨
      c.toNat = 95 := by
  rcases isPlain_iff.1 h with (h | h) | rfl
  · rcases isAlpha_iff.1 h with h | h
    · exact .inl (isUpper_iff.1 h)
    · exact .inr (.inl (isLower_iff.1 h))
  · exact .inr (.inr (.inl (Char.isDigit_iff_toNat.1 h)))
  · exact .inr (.inr (.inr rfl))

lemma isBlank_of_isPlain {c : Char} (h : isPlain c = true) : isBlank c = false := by
  have hbounds := bounds_of_isPlain h
  simp only [isBlank, Bool.or_eq_false_iff, Bool.and_eq_false_iff, decide_eq_false_iff_not,
    beq_eq_false_iff_ne]
  omega

lemma isPlain_of_isAlpha {c : Char} (h : c.isAlpha = true) : isPlain c = true :=
  isPlain_iff.2 (.inl (.inl h))

section

variable {name : String} (h : isIdentifier name = true)

include h

lemma exists_letter : ∃ c rest, name.toList = c :: rest ∧ c.isAlpha = true := by
  unfold isIdentifier at h
  split at h
  case h_1 => cases h
  case h_2 c rest hchars => exact ⟨c, rest, hchars, (Bool.and_eq_true_iff.1 h).1⟩

lemma isPlain_of_mem {c : Char} (hc : c ∈ name.toList) : isPlain c = true := by
  unfold isIdentifier at h
  split at h
  case h_1 => cases h
  case h_2 first rest hchars =>
    obtain ⟨hfirst, hrest⟩ := Bool.and_eq_true_iff.1 h
    rw [hchars] at hc
    rcases List.mem_cons.1 hc with rfl | hc
    · exact isPlain_of_isAlpha hfirst
    · exact List.all_eq_true.1 hrest c hc

end

namespace QualifiedName

variable {n : QualifiedName}

lemma isProper_iff : n.isProper = true ↔
    (∀ part ∈ n.path, isIdentifier part = true) ∧ isIdentifier n.last = true := by
  simp [isProper]

lemma mem_chars {c : Char} (h : n.isProper = true) (hc : c ∈ n.chars) :
    isPlain c = true ∨ c = '.' := by
  obtain ⟨hpath, hlast⟩ := isProper_iff.1 h
  rcases List.mem_append.1 hc with hc | hc
  · obtain ⟨part, hpart, hc⟩ := List.mem_flatMap.1 hc
    rcases List.mem_append.1 hc with hc | hc
    · exact .inl (isPlain_of_mem (hpath part hpart) hc)
    · exact .inr (List.mem_singleton.1 hc)
  · exact .inl (isPlain_of_mem hlast hc)

/-- A name begins with a letter. -/
lemma exists_chars (h : n.isProper = true) : ∃ c rest, n.chars = c :: rest ∧ c.isAlpha = true := by
  obtain ⟨hpath, hlast⟩ := isProper_iff.1 h
  unfold chars
  cases hn : n.path with
  | nil => simpa using exists_letter hlast
  | cons part path =>
      obtain ⟨c, rest, hpart, hc⟩ := exists_letter (hpath part (by simp [hn]))
      refine ⟨c, rest ++ '.' :: (path.flatMap (fun part => part.toList ++ ['.']) ++ n.last.toList),
        ?_, hc⟩
      simp [hpart]

lemma pieces_chars (h : n.isProper = true) :
    pieces '.' n.chars = (n.path ++ [n.last]).map String.toList := by
  obtain ⟨hpath, hlast⟩ := isProper_iff.1 h
  have hpoint : ∀ {part}, isIdentifier part = true → '.' ∉ part.toList :=
    fun hpart hmem => absurd (isPlain_of_mem hpart hmem) (by decide)
  unfold chars
  generalize n.path = path at hpath
  induction path with
  | nil => simp [pieces_of_not_mem (hpoint hlast)]
  | cons part path ih =>
      obtain ⟨hpart, hrest⟩ := List.forall_mem_cons.1 hpath
      simp only [List.flatMap_cons, List.append_assoc, List.cons_append, List.nil_append,
        pieces_append_cons (hpoint hpart), ih hrest, List.map_cons]

/-- A dotted text of identifiers is read as the name that it is the text of. -/
lemma read?_chars (h : n.isProper = true) : read? n.chars = some n := by
  obtain ⟨hpath, hlast⟩ := isProper_iff.1 h
  have hempty : ((n.path ++ [n.last]).map String.toList).any List.isEmpty = false := by
    rw [List.any_eq_false]
    intro chars hchars
    obtain ⟨part, hpart, rfl⟩ := List.mem_map.1 hchars
    have hidentifier : isIdentifier part = true := by
      rcases List.mem_append.1 hpart with hpart | hpart
      · exact hpath part hpart
      · exact List.mem_singleton.1 hpart ▸ hlast
    obtain ⟨c, rest, hcons, -⟩ := exists_letter hidentifier
    simp [hcons]
  rw [read?, pieces_chars h, ofParts?, hempty]
  simp

/-- The dotted text is that of the parts with a point between them. -/
lemma chars_eq (n : QualifiedName) :
    n.chars = ['.'].intercalate ((n.path ++ [n.last]).map String.toList) := by
  unfold chars
  induction n.path with
  | nil => simp
  | cons part path ih =>
      have hrest : (path ++ [n.last]).map String.toList ≠ [] := by simp
      rw [List.cons_append, List.map_cons, List.intercalate_cons_of_ne_nil hrest, ← ih]
      simp

/-- A name that was read has the text from which it was read. -/
lemma chars_of_read? {s : List Char} (h : read? s = some n) : n.chars = s := by
  unfold read? ofParts? at h
  split_ifs at h
  split at h
  case h_1 => cases h
  case h_2 last path hparts =>
    cases h
    have hparts : pieces '.' s = (path.reverse ++ [last]).map String.toList := by
      have hreverse := congrArg List.reverse hparts
      rw [List.reverse_reverse, List.reverse_cons] at hreverse
      rw [← hreverse, List.map_map]
      simp [Function.comp_def]
    rw [chars_eq, ← hparts, intercalate_pieces]

/-- A name that was read is the one of identifiers with its text, if there is one. -/
lemma eq_of_full {m : QualifiedName} {s : List Char} (hread : read? s = some m)
    (hn : n.isProper = true) (h : n.full = m.full) : m = n := by
  have hchars : n.chars = s := by
    rw [← chars_of_read? hread]
    simpa [full] using congrArg String.toList h
  have hagain := read?_chars hn
  rw [hchars, hread] at hagain
  exact Option.some.inj hagain

end QualifiedName

end TypeLang.Declaration
