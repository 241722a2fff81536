import TypeLang.Proofs.Declaration.TermText
import TypeLang.Proofs.Schema.Building

/-!
# Reading the text of a type

The text of a vector type is its spelling and the text of the element type in angle brackets.  Its
spelling is a head without sigils, so that the text is read as a term with that head, whatever the
element type is read as.

So it is the reference inside all vectors that decides what the text of a type is read for.  Its
text is that of a proper head, and is read for the reference again, but for one thing: a type
variable is written without the sigil of bareness, and comes back as its name alone suggests.
-/

namespace TypeLang

open Declaration

/-! ## Vector types -/

/-- The spelling of a vector type. -/
def vectorSpelling (boxed : Bool) : List Char :=
  (if boxed then 'V' else 'v') :: ['e', 'c', 't', 'o', 'r']

/-- The text of a vector type, given that of its element type. -/
def vectorText (boxed : Bool) (elem : List Char) : List Char :=
  vectorSpelling boxed ++ '<' :: (elem ++ ['>'])

/-- The head of a vector type. -/
def vectorHead (boxed : Bool) : TypeHead :=
  ⟨⟨[], if boxed then "Vector" else "vector"⟩, !boxed, false⟩

lemma chars_vector (boxed : Bool) (elem : TypeExpr) :
    (TypeExpr.vector boxed elem).chars = vectorText boxed elem.chars := by
  cases boxed <;> rfl

lemma isProper_vectorHead (boxed : Bool) : (vectorHead boxed).IsProper := by
  cases boxed <;> exact ⟨by decide, by decide⟩

lemma readTerm_vector {elem : List Char} {arg : TypeTerm} (h : TypeTerm.read elem = .ok arg)
    (boxed : Bool) :
    TypeTerm.read (vectorText boxed elem) = .ok (.applied (vectorHead boxed) arg) := by
  have htext : vectorText boxed elem = (vectorHead boxed).chars ++ '<' :: (elem ++ ['>']) := by
    cases boxed <;> rfl
  rw [htext]
  exact TypeTerm.read_applied (isProper_vectorHead boxed) h

/-- The text of a vector type is read for the vector of what the text in it is read for. -/
lemma read_vectorText {elem : List Char} {e : TypeExpr} (h : TypeExpr.read elem = .ok e)
    (boxed : Bool) : TypeExpr.read (vectorText boxed elem) = .ok (.vector boxed e) := by
  unfold TypeExpr.read at h ⊢
  cases hterm : TypeTerm.read elem with
  | error fault =>
      rw [hterm] at h
      cases h
  | ok arg =>
      rw [hterm] at h
      have he : TypeExpr.ofTerm arg = .ok e := h
      have hhead : (vectorHead boxed).isVector = true := by cases boxed <;> decide
      have hboxed : ((vectorHead boxed).name.last == "Vector") = boxed := by
        cases boxed <;> decide
      rw [readTerm_vector hterm]
      show TypeExpr.ofTerm (.applied (vectorHead boxed) arg) = _
      rw [TypeExpr.ofTerm, if_pos hhead, he, hboxed]
      rfl

/-! ## References -/

namespace TypeRef

/-- The name of a reference is a dotted text of identifiers. -/
def HasIdentifiers (r : TypeRef) : Prop :=
  ∃ name : QualifiedName, name.isProper = true ∧ name.full = r.name

/-- A reference made by a proper head other than a vector's. -/
def IsProper (r : TypeRef) : Prop :=
  ∃ head : TypeHead, head.IsProper ∧ head.isVector = false ∧ ofHead head = r

/-- What the text of a reference is read for: a type variable without its own sigil of bareness. -/
def reread (r : TypeRef) : TypeRef :=
  if r.generic then { r with bare := !r.isCapitalised } else r

lemma isCapitalised_ofHead {head : TypeHead} (h : head.name.isProper = true) :
    (ofHead head).isCapitalised = head.name.isCapitalised := by
  have hpieces := QualifiedName.pieces_chars h
  simp only [isCapitalised, ofHead, QualifiedName.full, String.toList_ofList, hpieces,
    List.map_append, List.map_cons, List.map_nil, List.getLast?_append, List.getLast?_singleton,
    Option.some_or, Option.bind_some, QualifiedName.isCapitalised]

/-- A head that was read makes a proper reference, if its name is made of identifiers. -/
lemma isProper_of_read {generic percent : Bool} {s : List Char} {head : TypeHead}
    (hread : TypeHead.read generic percent s = .ok head) (hvector : head.isVector = false)
    (hnames : (ofHead head).HasIdentifiers) : (ofHead head).IsProper := by
  obtain ⟨name, hproper, hfull⟩ := hnames
  obtain ⟨hname, hbare⟩ := TypeHead.eq_of_read hread
  have heq : head.name = name := QualifiedName.eq_of_full hname hproper hfull
  exact ⟨head, ⟨heq ▸ hproper, hbare⟩, hvector, rfl⟩

lemma read_chars_ofHead {head : TypeHead} (hhead : head.IsProper)
    (hvector : head.isVector = false) :
    TypeExpr.read head.chars = .ok (.named (ofHead head)) := by
  have hterm : TypeTerm.read (TypeTerm.plain head).chars = .ok (.plain head) :=
    TypeTerm.read_chars hhead
  show (TypeTerm.read (TypeTerm.plain head).chars >>= TypeExpr.ofTerm) = _
  rw [hterm]
  show TypeExpr.ofTerm (.plain head) = _
  rw [TypeExpr.ofTerm, hvector]
  rfl

lemma read_chars {r : TypeRef} (h : r.IsProper) :
    TypeExpr.read r.chars = .ok (.named r.reread) := by
  obtain ⟨head, hhead, hvector, rfl⟩ := h
  have hcapital := isCapitalised_ofHead hhead.name
  have hname : (ofHead head).name.toList = head.name.chars := String.toList_ofList
  unfold chars reread
  rw [hcapital, hname]
  cases hgeneric : (ofHead head).generic with
  | true =>
      -- The sigil that is not written would have stood before a capital letter only.
      have hbare : head.name.isSmall = true → (!head.name.isCapitalised) = true :=
        fun hsmall => by rw [TypeHead.isCapitalised_of_isSmall hsmall]; rfl
      have hproper : TypeHead.IsProper ⟨head.name, !head.name.isCapitalised, true⟩ :=
        ⟨hhead.name, hbare⟩
      have hread := read_chars_ofHead hproper hvector
      have hchars : TypeHead.chars ⟨head.name, !head.name.isCapitalised, true⟩ =
          '!' :: head.name.chars := by
        simp [TypeHead.chars]
      rw [hchars] at hread
      rw [if_pos rfl, if_pos rfl, hread]
      congr 2
  | false =>
      have hread := read_chars_ofHead hhead hvector
      have hchars : head.chars = if head.bare && head.name.isCapitalised then
          '%' :: head.name.chars else head.name.chars := by
        have hnot : head.generic = false := hgeneric
        simp only [TypeHead.chars, hnot, Bool.false_eq_true, if_false, List.nil_append]
        split_ifs <;> rfl
      rw [hchars] at hread
      rw [if_neg Bool.false_ne_true, if_neg Bool.false_ne_true, ← hread]
      rfl

end TypeRef

/-! ## Type expressions -/

namespace TypeExpr

/-- What the text of a type expression is read for. -/
def reread : TypeExpr → TypeExpr
  | named ref => named ref.reread
  | vector boxed elem => vector boxed elem.reread

/-- **A type is read again from its text**, but for the bareness of a type variable. -/
lemma read_chars {e : TypeExpr} (h : e.leaf.IsProper) : read e.chars = .ok e.reread := by
  induction e with
  | named ref => exact TypeRef.read_chars h
  | vector boxed elem ih =>
      rw [chars_vector]
      exact read_vectorText (ih h) boxed

/-- The reference inside all vectors is proper if the type was read, and its name is made of
identifiers. -/
lemma isProper_leaf {s : List Char} {t : TypeTerm} (ht : TypeTerm.read s = .ok t) :
    ∀ e, ofTerm t = .ok e → e.leaf.HasIdentifiers → e.leaf.IsProper := by
  fun_induction TypeTerm.read s generalizing t with
  | case1 s marked unmarked bare generic percent =>
      intro e he hnames
      obtain ⟨head, hhead, rfl⟩ := map_eq_ok.1 ht
      unfold ofTerm at he
      split_ifs at he with hvector
      cases he
      exact TypeRef.isProper_of_read hhead (Bool.eq_false_iff.2 hvector) hnames
  | case2 => cases ht
  | case3 => cases ht
  | case4 s marked unmarked bare generic percent name rest hopen inner hclosed arg harg =>
      rename_i ih
      intro e he hnames
      obtain ⟨head, hhead, rfl⟩ := map_eq_ok.1 ht
      unfold ofTerm at he
      split_ifs at he with hvector
      · obtain ⟨elem, helem, rfl⟩ := map_eq_ok.1 he
        exact ih harg elem helem hnames
      · cases he
        exact TypeRef.isProper_of_read hhead (Bool.eq_false_iff.2 hvector) hnames

end TypeExpr

end TypeLang
