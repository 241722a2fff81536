import TypeLang.Proofs.Declaration.Identifiers

/-!
# Type terms are read as they are written

A head is written with those sigils that its name does not show.  A name that begins with a small
letter is bare by itself, so a head says so too if it was read; then nothing is lost when it is
written, and the text is cut where the term was put together: the sigils before the first letter,
the brackets at the first `<` and at the end.
-/

namespace TypeLang

open Text

namespace Text

/-- A text with no blank at its ends is left as it is. -/
lemma trim_of_ends {s : List Char} (hhead : ∀ c ∈ s.head?, isBlank c = false)
    (hlast : ∀ c ∈ s.getLast?, isBlank c = false) : trim s = s := by
  by_cases hne : s = []
  · rw [hne]
    rfl
  · exact trim_append_of_ends hne hhead hlast []

lemma trim_of_unbroken {s : List Char} (h : Unbroken s) : trim s = s :=
  trim_of_ends (fun c hc => h c (List.mem_of_mem_head? hc))
    fun c hc => h c (List.mem_of_mem_getLast? hc)

end Text

namespace Declaration

/-! ## Cutting a text as it is read -/

namespace TypeTerm

/-- What is read behind the sigils of a text with no blanks at its ends. -/
structure Sigils (s : List Char) (generic percent : Bool) (name : List Char) : Prop where
  trim : trim s = s
  generic : (s.head? == some '!') = generic
  percent : ((afterSigil '!' s).head? == some '%') = percent
  name : afterSigil '%' (afterSigil '!' s) = name

section

variable {s name : List Char} {generic percent : Bool}

lemma read_of_sigils (h : Sigils s generic percent name) (hcut : cutAtChar '<' name = none) :
    read s = (TypeHead.read generic percent name).map plain := by
  obtain ⟨htrim, rfl, rfl, rfl⟩ := h
  rw [read.eq_def]
  -- The cuts keep their equations, for the proof that reading ends, so they are taken by cases.
  simp only
  split
  case h_1 => rw [htrim]
  case h_2 name rest hopen =>
    rw [htrim, hcut] at hopen
    cases hopen

lemma read_of_brackets {inner : List Char} {arg : TypeTerm}
    (h : Sigils s generic percent (name ++ '<' :: (inner ++ ['>']))) (hname : '<' ∉ name)
    (harg : read inner = .ok arg) :
    read s = (TypeHead.read generic percent name).map (applied · arg) := by
  obtain ⟨htrim, rfl, rfl, hs⟩ := h
  have hcut : cutAtChar '<' (name ++ '<' :: (inner ++ ['>'])) = some (name, inner ++ ['>']) :=
    cutAt_eq_some_of_first (fun c hc => beq_false_of_ne fun h => hname (h ▸ hc)) (by decide)
  rw [read.eq_def]
  simp only
  split
  case h_1 hopen =>
    rw [htrim, hs, hcut] at hopen
    cases hopen
  case h_2 before rest hopen =>
    rw [htrim, hs, hcut] at hopen
    cases hopen
    split
    case h_1 hclosed =>
      rw [beforeTail?_append] at hclosed
      cases hclosed
    case h_2 content hclosed =>
      rw [beforeTail?_append] at hclosed
      cases hclosed
      rw [htrim, harg]

end

end TypeTerm

/-! ## Heads -/

namespace TypeHead

/-- A head whose name is made of identifiers, and which says that it is bare if its name does. -/
structure IsProper (h : TypeHead) : Prop where
  name : h.name.isProper = true
  bare : h.name.isSmall = true → h.bare = true

variable {h : TypeHead}

/-- A head that was read has the name that was read, and is bare if that begins small. -/
lemma eq_of_read {generic percent : Bool} {s : List Char}
    (hread : TypeHead.read generic percent s = .ok h) :
    QualifiedName.read? s = some h.name ∧ (h.name.isSmall = true → h.bare = true) := by
  unfold TypeHead.read at hread
  split at hread
  case h_1 => cases hread
  case h_2 name hname =>
    cases hread
    exact ⟨hname, fun hsmall => by simp [hsmall]⟩

lemma isCapitalised_of_isSmall {n : QualifiedName} (hsmall : n.isSmall = true) :
    n.isCapitalised = false := by
  unfold QualifiedName.isSmall at hsmall
  unfold QualifiedName.isCapitalised
  cases hfirst : n.last.toList.head? with
  | none => rfl
  | some c =>
      rw [hfirst] at hsmall
      rw [Option.any_some] at hsmall ⊢
      have hsmall := isLower_iff.1 hsmall
      refine Bool.eq_false_iff.2 fun hcapital => ?_
      have hcapital := isUpper_iff.1 hcapital
      omega

lemma isSmall_of_not_isCapitalised {n : QualifiedName} (hn : n.isProper = true)
    (hcapital : n.isCapitalised = false) : n.isSmall = true := by
  obtain ⟨c, rest, hchars, hc⟩ := exists_letter (QualifiedName.isProper_iff.1 hn).2
  unfold QualifiedName.isCapitalised at hcapital
  unfold QualifiedName.isSmall
  rw [hchars] at hcapital ⊢
  exact (isAlpha_iff.1 hc).resolve_left (Bool.eq_false_iff.1 hcapital)

/-- A head is read from its name and the sigils that are written before it. -/
lemma read_name (hh : h.IsProper) :
    read h.generic (h.bare && h.name.isCapitalised) h.name.chars = .ok h := by
  have hbare : (h.bare && h.name.isCapitalised || h.name.isSmall) = h.bare := by
    cases hcapital : h.name.isCapitalised with
    | true =>
        cases hsmall : h.name.isSmall with
        | true => simp [hh.bare hsmall]
        | false => simp
    | false =>
        have hsmall := isSmall_of_not_isCapitalised hh.name hcapital
        simp [hsmall, hh.bare hsmall]
  simp only [read, QualifiedName.read?_chars hh.name, hbare]

/-- The sigils of a head are found again, whatever follows its name. -/
lemma sigils_append (hh : h.IsProper) {tail : List Char}
    (hlast : ∀ c ∈ (h.chars ++ tail).getLast?, isBlank c = false) :
    TypeTerm.Sigils (h.chars ++ tail) h.generic (h.bare && h.name.isCapitalised)
      (h.name.chars ++ tail) := by
  obtain ⟨c, rest, hchars, hc⟩ := QualifiedName.exists_chars hh.name
  have hplain : ∀ d, isPlain d = false → c ≠ d := by
    rintro d hd rfl
    rw [isPlain_of_isAlpha hc] at hd
    cases hd
  have hexclamation : c ≠ '!' := hplain '!' (by decide)
  have hpercent : c ≠ '%' := hplain '%' (by decide)
  have hblank : isBlank c = false := isBlank_of_isPlain (isPlain_of_isAlpha hc)
  unfold chars at hlast ⊢
  rw [hchars] at hlast ⊢
  generalize h.generic = generic at hlast ⊢
  generalize (h.bare && h.name.isCapitalised) = percent at hlast ⊢
  have hhead : ∀ d ∈ (((if generic then ['!'] else []) ++ if percent then ['%'] else []) ++
      c :: rest ++ tail).head?, isBlank d = false := by
    cases generic <;> cases percent <;> simp [hblank] <;> decide
  refine ⟨trim_of_ends hhead hlast, ?_, ?_, ?_⟩
  all_goals cases generic <;> cases percent <;> simp [TypeTerm.afterSigil, hexclamation, hpercent]

/-- The characters of a head. -/
lemma mem_chars (hh : h.IsProper) {c : Char} (hc : c ∈ h.chars) :
    isPlain c = true ∨ c ∈ ['.', '!', '%'] := by
  unfold chars at hc
  rcases List.mem_append.1 hc with hc | hc
  · refine .inr ?_
    split_ifs at hc <;> simp_all
  · rcases QualifiedName.mem_chars hh.name hc with hc | rfl
    · exact .inl hc
    · exact .inr (by decide)

end TypeHead

/-! ## Terms -/

namespace TypeTerm

/-- Every head of a term is proper. -/
def IsProper : TypeTerm → Prop
  | plain head => head.IsProper
  | applied head arg => head.IsProper ∧ arg.IsProper

/-- The characters of a term. -/
lemma mem_chars {t : TypeTerm} (ht : t.IsProper) {c : Char} (hc : c ∈ t.chars) :
    isPlain c = true ∨ c ∈ ['.', '!', '%', '<', '>'] := by
  have hhead : ∀ {head : TypeHead}, head.IsProper → c ∈ head.chars →
      isPlain c = true ∨ c ∈ ['.', '!', '%', '<', '>'] := by
    intro head hhead hc
    refine (TypeHead.mem_chars hhead hc).imp_right fun h => ?_
    simp only [List.mem_cons, List.not_mem_nil, or_false] at h ⊢
    tauto
  induction t with
  | plain head => exact hhead ht hc
  | applied head arg ih =>
      simp only [chars, List.mem_append, List.mem_cons, List.not_mem_nil, or_false] at hc
      rcases hc with hc | rfl | hc | rfl
      · exact hhead ht.1 hc
      · exact .inr (by decide)
      · exact ih ht.2 hc
      · exact .inr (by decide)

lemma chars_ne_nil {t : TypeTerm} (ht : t.IsProper) : t.chars ≠ [] := by
  have hhead : ∀ {head : TypeHead}, head.IsProper → head.chars ≠ [] := by
    intro head hhead
    obtain ⟨c, rest, hchars, -⟩ := QualifiedName.exists_chars hhead.name
    simp [TypeHead.chars, hchars]
  cases t with
  | plain head => exact hhead ht
  | applied head arg => exact List.append_ne_nil_of_left_ne_nil (hhead ht.1) _

lemma unbroken_chars {t : TypeTerm} (ht : t.IsProper) : Unbroken t.chars := by
  intro c hc
  rcases mem_chars ht hc with hc | hc
  · exact isBlank_of_isPlain hc
  · have hsigils : ['.', '!', '%', '<', '>'].all (isBlank · == false) = true := by decide
    exact eq_of_beq (List.all_eq_true.1 hsigils c hc)

/-- A head before brackets is read with what stands in them. -/
lemma read_applied {head : TypeHead} (hh : head.IsProper) {inner : List Char} {arg : TypeTerm}
    (harg : read inner = .ok arg) :
    read (head.chars ++ '<' :: (inner ++ ['>'])) = .ok (applied head arg) := by
  have hlast : ∀ c ∈ (head.chars ++ '<' :: (inner ++ ['>'])).getLast?, isBlank c = false := by
    have hend : (head.chars ++ '<' :: (inner ++ ['>'])).getLast? = some '>' := by
      simp [List.getLast?_append, List.getLast?_cons]
    rw [hend]
    rintro c ⟨⟩
    rfl
  have hopen : '<' ∉ head.name.chars := fun h =>
    absurd (QualifiedName.mem_chars hh.name h) (by decide)
  rw [read_of_brackets (TypeHead.sigils_append hh hlast) hopen harg, TypeHead.read_name hh]
  rfl

/-- **A proper term is read as it is written.** -/
lemma read_chars {t : TypeTerm} (ht : t.IsProper) : read t.chars = .ok t := by
  induction t with
  | plain head =>
      have hopen : cutAtChar '<' (head.name.chars ++ []) = none := by
        rw [List.append_nil]
        refine cutAt_eq_none.2 fun c hc => beq_false_of_ne ?_
        rintro rfl
        exact absurd (QualifiedName.mem_chars ht.name hc) (by decide)
      have hlast : ∀ c ∈ (head.chars ++ []).getLast?, isBlank c = false := by
        rw [List.append_nil]
        exact fun c hc => unbroken_chars (t := plain head) ht c (List.mem_of_mem_getLast? hc)
      have hread := read_of_sigils (TypeHead.sigils_append ht hlast) hopen
      rw [List.append_nil, List.append_nil, TypeHead.read_name ht] at hread
      exact hread
  | applied head arg ih => exact read_applied ht.1 (ih ht.2)

end TypeTerm

end Declaration

end TypeLang
