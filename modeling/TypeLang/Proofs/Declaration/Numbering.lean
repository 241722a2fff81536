import TypeLang.Proofs.Declaration.Spelling
import TypeLang.Proofs.Results

/-!
# What a derived number depends on

The tokens of a declaration are its words, an equals sign being a token of its own wherever it
stands.  A declaration is read by its tokens, but for its number: one that is derived is the
checksum of the words, and it depends on the blanks around the first equals sign whether that is a
word of its own.

So two declarations of the same tokens are equal but for their numbers, and altogether equal where
they state a number or have blanks around the equals sign alike (`eq_of_tokens`).  Otherwise their
numbers may differ (`tightText_numbered_otherwise`), although a derived number is meant to be that
of a text with one space between each two tokens.
-/

namespace TypeLang.Declaration.Combinator

open Text

variable {s t : List Char}

/-! ## Tokens -/

/-- A text with blanks around each equals sign. -/
def apart (s : List Char) : List Char :=
  s.flatMap fun c => if c = '=' then [' ', '=', ' '] else [c]

/-- The tokens of a declaration. -/
def tokensOf (s : List Char) : List (List Char) :=
  words (apart (strip s))

/-- Whether there is a blank before the first equals sign of a declaration, and behind it. -/
def spacing (s : List Char) : Option (Bool × Bool) :=
  (cutAtChar '=' (strip s)).map fun (left, right) => (endsBlank left, startsBlank right)

lemma apart_append (x y : List Char) : apart (x ++ y) = apart x ++ apart y :=
  List.flatMap_append

lemma apart_of_not_mem (h : '=' ∉ s) : apart s = s := by
  induction s with
  | nil => rfl
  | cons c rest ih =>
      rw [List.mem_cons, not_or] at h
      rw [apart, List.flatMap_cons, if_neg (Ne.symm h.1), ← apart, ih h.2]
      rfl

lemma flatten_words_apart (s : List Char) : (words (apart s)).flatten = (words s).flatten := by
  rw [flatten_words, flatten_words]
  induction s with
  | nil => rfl
  | cons c rest ih =>
      have hself : (if c = '=' then [' ', '=', ' '] else [c]).filter (!isBlank ·) =
          [c].filter (!isBlank ·) := by
        split_ifs with hc
        · rw [hc]
          rfl
        · rfl
      rw [apart, List.flatMap_cons, ← apart, List.filter_append, ih, hself, ← List.filter_append]
      rfl

section

variable {left right : List Char}

lemma strip_of_cut (h : cutAtChar '=' (strip s) = some (left, right)) :
    strip s = left ++ '=' :: right ∧ '=' ∉ left := by
  obtain ⟨c, hs, hc, hleft⟩ := cutAt_eq_some h
  refine ⟨by simpa [beq_iff_eq.1 hc] using hs, ?_⟩
  intro hmem
  simpa using hleft _ hmem

/-- The first equals sign is the first token that is one. -/
lemma tokensOf_of_cut (h : cutAtChar '=' (strip s) = some (left, right)) :
    tokensOf s = words left ++ ['='] :: words (apart right) := by
  obtain ⟨hs, hleft⟩ := strip_of_cut h
  have hblank : isBlank ' ' = true := by decide
  have hapart : apart ('=' :: right) = ' ' :: (['='] ++ ' ' :: apart right) := rfl
  rw [tokensOf, hs, apart_append, apart_of_not_mem hleft, hapart, words_append_blank hblank,
    words_append_blank hblank]
  rfl

lemma equals_not_mem_words (h : '=' ∉ left) : ['='] ∉ words left := by
  intro hmem
  have hflat : '=' ∈ (words left).flatten := List.mem_flatten.2 ⟨_, hmem, List.mem_singleton_self _⟩
  rw [flatten_words] at hflat
  exact h (List.mem_of_mem_filter hflat)

end

/-! ## The two sides of a declaration -/

/-- The number is what is read behind the `#` of the first word, and nothing else depends on it. -/
lemma number_of_readSides {left right : List (List Char)}
    {number : Option (List Char) → Except CombinatorFault UInt32} {d : Combinator}
    (h : readSides left right number = .ok d) :
    number (halves (· == '#') (left.headD [])).2 = .ok d.id ∧
      ∀ other id, other (halves (· == '#') (left.headD [])).2 = .ok id →
        readSides left right other = .ok { d with id } := by
  unfold readSides at h
  obtain ⟨result, hresult, h⟩ := bind_eq_ok.1 h
  cases hname : QualifiedName.read? (halves (· == '#') (left.headD [])).1 with
  | none =>
      simp only [hname] at h
      cases h
  | some name =>
      simp only [hname] at h
      obtain ⟨id, hid, h⟩ := bind_eq_ok.1 h
      obtain ⟨⟨vars, args⟩, hargs, h⟩ := bind_eq_ok.1 h
      cases h
      refine ⟨hid, fun other id' hother => ?_⟩
      simp only [readSides, hresult, hname, hother, hargs]
      rfl

lemma exists_digits {w : List Char} (h : '#' ∈ w) :
    ∃ digits, (halves (· == '#') w).2 = some digits := by
  cases hcut : cutAt (· == '#') w with
  | none => exact absurd (cutAt_eq_none.1 hcut _ h) (by decide)
  | some parts => exact ⟨parts.2, by rw [halves, hcut]⟩

lemma exists_result_of_readSides {left right : List (List Char)}
    {number : Option (List Char) → Except CombinatorFault UInt32} {d : Combinator}
    (h : readSides left right number = .ok d) : ∃ w, right = [w] := by
  obtain ⟨result, hresult, -⟩ := bind_eq_ok.1 h
  unfold readResultOf at hresult
  split at hresult
  case h_1 => cases hresult
  case h_2 w => exact ⟨w, rfl⟩
  case h_3 => cases hresult

/-- A declaration that is read has an equals sign. -/
lemma exists_sides {d : Combinator} (h : read s = .ok d) :
    ∃ left right, cutAtChar '=' (strip s) = some (left, right) ∧
      readSides (words left) (words right) (readId (strip s)) = .ok d := by
  cases hcut : cutAtChar '=' (strip s) with
  | none =>
      simp only [read, hcut] at h
      split_ifs at h
      cases h
  | some parts =>
      obtain ⟨left, right⟩ := parts
      exact ⟨left, right, rfl, read_of_cut hcut ▸ h⟩

section

variable {left right left' right' w w' : List Char}

lemma eq_of_append_cons {α : Type} {a : α} {x x' y y' : List α} (hx : a ∉ x) (hx' : a ∉ x')
    (h : x ++ a :: y = x' ++ a :: y') : x = x' ∧ y = y' := by
  induction x generalizing x' with
  | nil =>
      cases x' with
      | nil => exact ⟨rfl, (List.cons.inj h).2⟩
      | cons b x' => exact absurd (List.cons.inj h).1 (List.ne_of_not_mem_cons hx')
  | cons b x ih =>
      cases x' with
      | nil => exact absurd (List.cons.inj h).1.symm (List.ne_of_not_mem_cons hx)
      | cons b' x' =>
          obtain ⟨rfl, hrest⟩ := List.cons.inj h
          obtain ⟨rfl, hy⟩ := ih (List.not_mem_of_not_mem_cons hx)
            (List.not_mem_of_not_mem_cons hx') hrest
          exact ⟨rfl, hy⟩

/-- Where the result is one word, the tokens tell the words on either side. -/
lemma sides_eq_of_tokens (hs : cutAtChar '=' (strip s) = some (left, right))
    (ht : cutAtChar '=' (strip t) = some (left', right')) (h : tokensOf s = tokensOf t)
    (hw : words right = [w]) (hw' : words right' = [w']) :
    words left = words left' ∧ words right = words right' := by
  rw [tokensOf_of_cut hs, tokensOf_of_cut ht] at h
  obtain ⟨hleft, hright⟩ := eq_of_append_cons (equals_not_mem_words (strip_of_cut hs).2)
    (equals_not_mem_words (strip_of_cut ht).2) h
  have hflat : (words right).flatten = (words right').flatten := by
    rw [← flatten_words_apart, hright, flatten_words_apart]
  refine ⟨hleft, ?_⟩
  simpa [hw, hw'] using hflat

/-- The words on either side and the spacing between them tell the words of a declaration. -/
lemma words_strip_of_sides (hs : cutAtChar '=' (strip s) = some (left, right))
    (ht : cutAtChar '=' (strip t) = some (left', right')) (hleft : words left = words left')
    (hright : words right = words right') (hspacing : spacing s = spacing t) :
    words (strip s) = words (strip t) := by
  obtain ⟨hlast, hhead⟩ :
      endsBlank left = endsBlank left' ∧ startsBlank right = startsBlank right' := by
    simpa [spacing, hs, ht] using hspacing
  have hsign : words (left ++ ['=']) = words (left' ++ ['=']) :=
    words_append_congr hleft hlast rfl rfl
  have hends : endsBlank (left ++ ['=']) = endsBlank (left' ++ ['=']) := by simp [endsBlank]
  rw [(strip_of_cut hs).1, (strip_of_cut ht).1, List.append_cons left, List.append_cons left']
  exact words_append_congr hsign hends hright hhead

end

/-! ## Declarations of the same tokens -/

/-- **Declarations of the same tokens are equal, but for their numbers**, and these are equal too if
they are stated, or if there are blanks around the equals signs alike. -/
theorem eq_of_tokens {d e : Combinator} (hs : read s = .ok d) (ht : read t = .ok e)
    (h : tokensOf s = tokensOf t) :
    e = { d with id := e.id } ∧
      (spacing s = spacing t ∨ '#' ∈ (tokensOf s).headD [] → e = d) := by
  obtain ⟨left, right, hcut, hd⟩ := exists_sides hs
  obtain ⟨left', right', hcut', he⟩ := exists_sides ht
  obtain ⟨w, hw⟩ := exists_result_of_readSides hd
  obtain ⟨w', hw'⟩ := exists_result_of_readSides he
  obtain ⟨hleft, hright⟩ := sides_eq_of_tokens hcut hcut' h hw hw'
  rw [← hleft, ← hright] at he
  obtain ⟨hid, hother⟩ := number_of_readSides hd
  have hid' := (number_of_readSides he).1
  have heq : e = { d with id := e.id } := by
    have := hother _ _ hid'
    rw [he] at this
    exact Except.ok.inj this
  refine ⟨heq, fun hsame => ?_⟩
  have hnumber : readId (strip s) (halves (· == '#') ((words left).headD [])).2 =
      readId (strip t) (halves (· == '#') ((words left).headD [])).2 := by
    rcases hsame with hspacing | hstated
    · rw [readId_eq_of_words (words_strip_of_sides hcut hcut' hleft hright hspacing)]
    · rw [tokensOf_of_cut hcut] at hstated
      have hword : '#' ∈ (words left).headD [] := by
        cases hwords : words left with
        | nil => simp [hwords] at hstated
        | cons w rest => simpa [hwords] using hstated
      obtain ⟨digits, hdigits⟩ := exists_digits hword
      rw [hdigits, readId, readId]
  rw [hnumber, hid'] at hid
  rw [heq, Except.ok.inj hid]

/-- A constructor with a space between each two tokens. -/
def spacedText : List Char :=
  "boolFalse = Bool".toList

/-- The same with more blanks, over two lines, and a semicolon. -/
def looseText : List Char :=
  "  boolFalse\n\t =  Bool ;".toList

/-- The same without blanks. -/
def tightText : List Char :=
  "boolFalse=Bool".toList

theorem looseText_numbered_alike :
    tokensOf spacedText = tokensOf looseText ∧ spacing spacedText = spacing looseText ∧
      '#' ∉ (tokensOf spacedText).headD [] ∧
      ∃ d, read spacedText = .ok d ∧ read looseText = .ok d ∧ d.id = 0xbc799737 := by
  have htokens : tokensOf spacedText = tokensOf looseText := by decide +kernel
  have hspacing : spacing spacedText = spacing looseText := by decide +kernel
  have hspaced : (read spacedText).toOption.map (·.id) = some 0xbc799737 := by decide +kernel
  have hloose : (read looseText).toOption.isSome := by decide +kernel
  obtain ⟨d, hd, hid⟩ := Option.map_eq_some_iff.1 hspaced
  obtain ⟨e, he⟩ := Option.isSome_iff_exists.1 hloose
  have hread := eq_ok_of_toOption hd
  have hread' := eq_ok_of_toOption he
  have heq : e = d := (eq_of_tokens hread hread' htokens).2 (.inl hspacing)
  exact ⟨htokens, hspacing, by decide +kernel, d, hread, heq ▸ hread', hid⟩

theorem tightText_numbered_otherwise :
    tokensOf spacedText = tokensOf tightText ∧ '#' ∉ (tokensOf spacedText).headD [] ∧
      ∃ d e, read spacedText = .ok d ∧ read tightText = .ok e ∧ e.id ≠ d.id := by
  have hspaced : (read spacedText).toOption.map (·.id) = some 0xbc799737 := by decide +kernel
  have htight : (read tightText).toOption.any (·.id ≠ 0xbc799737) := by decide +kernel
  obtain ⟨d, hd, hid⟩ := Option.map_eq_some_iff.1 hspaced
  obtain ⟨e, he, hne⟩ := (Option.any_eq_true _ _).1 htight
  refine ⟨by decide +kernel, by decide +kernel, d, e, eq_ok_of_toOption hd,
    eq_ok_of_toOption he, ?_⟩
  rw [hid]
  simpa using hne

end TypeLang.Declaration.Combinator
