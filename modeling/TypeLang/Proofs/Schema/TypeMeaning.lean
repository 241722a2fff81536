import TypeLang.Proofs.Declaration.Printing
import TypeLang.Proofs.Schema.TypeText

/-!
# What a type expression keeps of a type term

A type expression has a place for a reference and for the two spellings of the vector type, and for
nothing else.  A term that is put together of these is represented: its type expression means what
was written, level by level, and is written as the term was.

Every other term loses something when a type is made of it.  An argument of a head that is no vector
is dropped, and so are the sigils before the head of a vector, where `%` would have said that no tag
precedes the elements.  Such terms are not refused (`sigil_and_argument_dropped`).
-/

namespace TypeLang

open Declaration

namespace Declaration

/-- Whether a head is one of the two spellings of the vector type, without a sigil that its name
does not show. -/
def TypeHead.isVectorSpelling (h : TypeHead) : Bool :=
  h == vectorHead true || h == vectorHead false

/-- Whether a head is written with at most one sigil. -/
def TypeHead.hasOneSigil (h : TypeHead) : Bool :=
  !(h.generic && (h.bare && h.name.isCapitalised))

namespace TypeTerm

/-- Whether every head of a term is written with at most one sigil. -/
def hasOneSigil : TypeTerm → Bool
  | plain head => head.hasOneSigil
  | applied head arg => head.hasOneSigil && arg.hasOneSigil

/-- Whether a term is a reference within vectors. -/
def isRepresentable : TypeTerm → Bool
  | plain head => !head.isVector
  | applied head arg => head.isVectorSpelling && arg.isRepresentable

end TypeTerm

end Declaration

/-- A type expression means a term: level by level, the same reference, or a vector that is preceded
by a tag exactly if the term's head is not bare. -/
inductive TypeExpr.Means : TypeExpr → TypeTerm → Prop where
  | named {head : TypeHead} : head.isVector = false →
      Means (.named (TypeRef.ofHead head)) (.plain head)
  | vector {boxed : Bool} {elem : TypeExpr} {head : TypeHead} {arg : TypeTerm} :
      head.isVector = true → head.generic = false → (boxed = true ↔ head.bare = false) →
      Means elem arg → Means (.vector boxed elem) (.applied head arg)

/-! ## Heads -/

namespace Declaration.TypeHead

variable {head : TypeHead}

lemma isVectorSpelling_iff : head.isVectorSpelling = true ↔ ∃ boxed, head = vectorHead boxed := by
  simp [isVectorSpelling, or_comm]

lemma name_of_isVector (h : head.isVector = true) :
    head.name = ⟨[], if head.name.last == "Vector" then "Vector" else "vector"⟩ := by
  obtain ⟨⟨path, last⟩, bare, generic⟩ := head
  simp only [isVector, Bool.and_eq_true, List.isEmpty_iff, Bool.or_eq_true, beq_iff_eq] at h
  obtain ⟨rfl, rfl | rfl⟩ := h <;> rfl

/-- The head of a vector is a spelling, if it is no type variable and is bare as its name is. -/
lemma eq_vectorHead (h : head.isVector = true) (hgeneric : head.generic = false)
    (hbare : (head.name.last == "Vector") = !head.bare) :
    head = vectorHead (head.name.last == "Vector") := by
  have hname := name_of_isVector h
  obtain ⟨name, bare, generic⟩ := head
  simp only at hname hgeneric hbare
  rw [vectorHead, TypeHead.mk.injEq]
  exact ⟨hname, by rw [hbare, Bool.not_not], hgeneric⟩

/-- The head of a vector begins with a sigil, or is a spelling. -/
lemma sigil_or_eq_vectorHead (hh : head.IsProper) (h : head.isVector = true) :
    (∃ c rest, head.chars = c :: rest ∧ (c = '!' ∨ c = '%')) ∨
      head = vectorHead (head.name.last == "Vector") := by
  cases hgeneric : head.generic with
  | true =>
      have hchars : head.chars = ['!'] ++ ((if head.bare && head.name.isCapitalised then ['%']
          else []) ++ head.name.chars) := by
        rw [chars, hgeneric, if_pos rfl, List.append_assoc]
      exact .inl ⟨'!', _, hchars, .inl rfl⟩
  | false =>
      by_cases hbare : (head.name.last == "Vector") = !head.bare
      · exact .inr (eq_vectorHead h hgeneric hbare)
      · -- A small letter shows that the head is bare, so the name begins with a capital.
        have hname := name_of_isVector h
        have hcapital : (head.bare && head.name.isCapitalised) = true := by
          cases hlast : head.name.last == "Vector" with
          | true =>
              rw [hlast] at hname hbare
              simp only [hname, Bool.and_eq_true]
              exact ⟨by simpa using hbare, by decide⟩
          | false =>
              rw [hlast] at hname hbare
              have hsmall : head.name.isSmall = true := by rw [hname]; decide
              simp [hh.bare hsmall] at hbare
        refine .inl ⟨'%', head.name.chars, ?_, .inr rfl⟩
        rw [chars, hgeneric, if_neg Bool.false_ne_true, if_pos hcapital]
        rfl

end Declaration.TypeHead

namespace TypeRef

variable {head : TypeHead}

lemma chars_ofHead (hname : head.name.isProper = true) (hone : head.hasOneSigil = true) :
    (ofHead head).chars = head.chars := by
  unfold TypeHead.hasOneSigil at hone
  unfold chars TypeHead.chars
  rw [isCapitalised_ofHead hname]
  simp only [ofHead, QualifiedName.full, String.toList_ofList]
  cases hgeneric : head.generic with
  | true =>
      rw [hgeneric, Bool.true_and, Bool.not_eq_true'] at hone
      simp [hone]
  | false =>
      simp only [Bool.false_eq_true, if_false, List.nil_append]
      split_ifs <;> rfl

end TypeRef

namespace TypeExpr

/-! ## Terms -/

lemma ofTerm_vectorHead (boxed : Bool) (arg : TypeTerm) :
    ofTerm (.applied (vectorHead boxed) arg) = (ofTerm arg).map (vector boxed) := by
  cases boxed <;> rfl

lemma chars_applied_vectorHead (boxed : Bool) (arg : TypeTerm) :
    (TypeTerm.applied (vectorHead boxed) arg).chars = vectorText boxed arg.chars := by
  cases boxed <;> rfl

/-- What is represented is kept. -/
lemma exists_ofTerm_of_isRepresentable {t : TypeTerm} (ht : t.IsProper)
    (hone : t.hasOneSigil = true) (h : t.isRepresentable = true) :
    ∃ e, ofTerm t = .ok e ∧ e.Means t ∧ e.chars = t.chars := by
  induction t with
  | plain head =>
      have hvector : head.isVector = false := by simpa [TypeTerm.isRepresentable] using h
      refine ⟨named (TypeRef.ofHead head), ?_, .named hvector, TypeRef.chars_ofHead ht.name hone⟩
      rw [ofTerm, hvector]
      rfl
  | applied head arg ih =>
      obtain ⟨hspelling, harg⟩ := Bool.and_eq_true_iff.1 h
      obtain ⟨boxed, rfl⟩ := TypeHead.isVectorSpelling_iff.1 hspelling
      obtain ⟨elem, helem, hmeans, hchars⟩ := ih ht.2 (Bool.and_eq_true_iff.1 hone).2 harg
      refine ⟨vector boxed elem, ?_, ?_, ?_⟩
      · rw [ofTerm_vectorHead, helem]
        rfl
      · exact .vector (by cases boxed <;> rfl) rfl (by cases boxed <;> simp [vectorHead]) hmeans
      · rw [chars_vector, chars_applied_vectorHead, hchars]

/-- What means the term is of a term that is represented. -/
lemma isRepresentable_of_means {t : TypeTerm} {e : TypeExpr} (he : ofTerm t = .ok e)
    (h : e.Means t) : t.isRepresentable = true := by
  induction h with
  | named hvector => simp [TypeTerm.isRepresentable, hvector]
  | @vector boxed elem head arg hvector hgeneric hboxed _ ih =>
      rw [ofTerm, if_pos hvector] at he
      obtain ⟨made, hmade, heq⟩ := map_eq_ok.1 he
      cases heq
      have hbare : (head.name.last == "Vector") = !head.bare := by
        rw [Bool.eq_iff_iff, hboxed, Bool.not_eq_true']
      have hspelling := TypeHead.eq_vectorHead hvector hgeneric hbare
      rw [TypeTerm.isRepresentable, TypeHead.isVectorSpelling_iff.2 ⟨_, hspelling⟩, ih hmade]
      rfl

/-- What is written as the term is of a term that is represented. -/
lemma isRepresentable_of_chars {t : TypeTerm} (ht : t.IsProper) (hone : t.hasOneSigil = true)
    {e : TypeExpr} (he : ofTerm t = .ok e) (h : e.chars = t.chars) :
    t.isRepresentable = true := by
  induction t generalizing e with
  | plain head =>
      rw [ofTerm] at he
      split_ifs at he with hvector
      simp [TypeTerm.isRepresentable, hvector]
  | applied head arg ih =>
      obtain ⟨hhead, harg⟩ := Bool.and_eq_true_iff.1 hone
      rw [ofTerm] at he
      split_ifs at he with hvector
      · obtain ⟨elem, helem, rfl⟩ := map_eq_ok.1 he
        rw [chars_vector] at h
        rcases TypeHead.sigil_or_eq_vectorHead ht.1 hvector with ⟨c, rest, hchars, hc⟩ | hspelling
        · -- The text of the expression begins with a letter.
          rw [TypeTerm.chars, hchars] at h
          have hfirst := (List.cons.inj h).1
          rcases hc with rfl | rfl <;> split_ifs at hfirst <;> cases hfirst
        · generalize (head.name.last == "Vector") = boxed at h hspelling
          subst hspelling
          rw [chars_applied_vectorHead] at h
          have hinner : elem.chars = arg.chars := by
            have h := List.append_cancel_left h
            exact List.append_cancel_right (List.cons.inj h).2
          rw [TypeTerm.isRepresentable, TypeHead.isVectorSpelling_iff.2 ⟨boxed, rfl⟩,
            ih ht.2 harg helem hinner]
          rfl
      · cases he
        -- The text of the term goes on behind its head.
        have hlength := congrArg List.length h
        rw [chars, TypeRef.chars_ofHead ht.1.name hhead, TypeTerm.chars, List.length_append,
          List.length_cons] at hlength
        omega

/-- **A type keeps what was written exactly if there is a place for it.**  A term that is
represented has a type that means the term and has its text.  Any other term is refused, or has a
type that neither means the term nor has its text. -/
theorem ofTerm_keeps {s : List Char} {t : TypeTerm} (hread : TypeTerm.read s = .ok t)
    (hnames : t.hasIdentifiers = true) (hone : t.hasOneSigil = true) :
    (t.isRepresentable = true → ∃ e, ofTerm t = .ok e ∧ e.Means t ∧ e.text = t.text) ∧
      (t.isRepresentable = false → ∀ e, ofTerm t = .ok e → ¬ e.Means t ∧ e.text ≠ t.text) := by
  have ht := TypeTerm.isProper_of_read hread hnames
  constructor
  · intro h
    obtain ⟨e, he, hmeans, hchars⟩ := exists_ofTerm_of_isRepresentable ht hone h
    exact ⟨e, he, hmeans, congrArg String.ofList hchars⟩
  · intro h e he
    rw [Bool.eq_false_iff] at h
    exact ⟨fun hmeans => h (isRepresentable_of_means he hmeans),
      fun htext => h (isRepresentable_of_chars ht hone he (String.ofList_injective htext))⟩

section

/-- Vectors of both spellings around a bare reference. -/
def levelsTerm : TypeTerm :=
  .applied (vectorHead false) (.applied (vectorHead true)
    (.plain ⟨⟨["storage"], "FileType"⟩, true, false⟩))

/-- A vector that is bare by its sigil. -/
def barredTerm : TypeTerm :=
  .applied ⟨⟨[], "Vector"⟩, true, false⟩ (.plain ⟨⟨[], "int"⟩, true, false⟩)

/-- An argument of a head that is no vector. -/
def pairedTerm : TypeTerm :=
  .applied ⟨⟨[], "Foo"⟩, false, false⟩ (.plain ⟨⟨[], "int"⟩, true, false⟩)

theorem levelsTerm_kept :
    (TypeTerm.read "vector<Vector<%storage.FileType>>".toList = .ok levelsTerm ∧
      ∃ e, ofTerm levelsTerm = .ok e ∧ e.Means levelsTerm ∧ e.text = levelsTerm.text) ∧
    (TypeTerm.read "%Vector<int>".toList = .ok barredTerm ∧
      ∀ e, ofTerm barredTerm = .ok e → ¬ e.Means barredTerm ∧ e.text ≠ barredTerm.text) := by
  have hlevels : TypeTerm.read "vector<Vector<%storage.FileType>>".toList = .ok levelsTerm := by
    decide +kernel
  have hbarred : TypeTerm.read "%Vector<int>".toList = .ok barredTerm := by decide +kernel
  exact ⟨⟨hlevels, (ofTerm_keeps hlevels (by decide) (by decide)).1 (by decide)⟩,
    hbarred, (ofTerm_keeps hbarred (by decide) (by decide)).2 (by decide)⟩

theorem sigil_and_argument_dropped :
    (TypeTerm.read "%Vector<int>".toList = .ok barredTerm ∧ barredTerm.head.bare = true ∧
      ∃ elem, ofTerm barredTerm = .ok (.vector true elem) ∧
        (vector true elem).text = "Vector<int>" ∧ barredTerm.text = "%Vector<int>") ∧
    (TypeTerm.read "Foo<int>".toList = .ok pairedTerm ∧
      ofTerm pairedTerm = .ok (.named ⟨"Foo", false, false⟩)) := by
  refine ⟨⟨by decide +kernel, rfl, .named ⟨"int", true, false⟩, ?_⟩, by decide +kernel, by decide⟩
  exact ⟨by decide, by decide, by decide⟩

end

end TypeExpr

end TypeLang
