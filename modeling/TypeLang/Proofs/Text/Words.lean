import Mathlib.Data.List.TakeWhile
import Mathlib.Tactic
import TypeLang.Text.Blank
import TypeLang.Text.Cut

/-!
# Words and the blanks between them

A text is made of words and blanks, and the words of a text fall apart at every blank
(`words_append_blank`).  Everything here follows from that equation, by induction word by word.

What looks at a text through its words alone cannot tell blanks apart, nor how many there are.  So
cuts are carried over to words: a cut at the first blank is one behind the first word, and a cut at
a character that is not blank is one within a word.
-/

namespace TypeLang.Text

/-! ## Cuts -/

section

variable {p : Char → Bool} {s x y : List Char}

lemma cutAt_eq_none : cutAt p s = none ↔ ∀ c ∈ s, p c = false := by
  induction s with
  | nil => simp [cutAt]
  | cons c rest ih =>
      rw [cutAt]
      split_ifs with hc
      · simp [hc]
      · simp [hc, ih]

lemma cutAt_eq_some_of_first {c : Char} (hx : ∀ d ∈ x, p d = false) (hc : p c = true) :
    cutAt p (x ++ c :: y) = some (x, y) := by
  induction x with
  | nil => simp [cutAt, hc]
  | cons d rest ih =>
      obtain ⟨hd, hrest⟩ := List.forall_mem_cons.1 hx
      simp [cutAt, hd, ih hrest]

lemma cutAt_eq_some (h : cutAt p s = some (x, y)) :
    ∃ c, s = x ++ c :: y ∧ p c = true ∧ ∀ d ∈ x, p d = false := by
  induction s generalizing x with
  | nil => cases h
  | cons c rest ih =>
      rw [cutAt] at h
      split_ifs at h with hc
      · cases h
        exact ⟨c, rfl, hc, by simp⟩
      · obtain ⟨⟨before, after⟩, hcut, h⟩ := Option.map_eq_some_iff.1 h
        cases h
        obtain ⟨d, rfl, hd, hbefore⟩ := ih hcut
        exact ⟨d, rfl, hd, List.forall_mem_cons.2 ⟨by simpa using hc, hbefore⟩⟩

/-- The first character of a kind is in the first part of a text, or else in the second one. -/
lemma cutAt_append (p : Char → Bool) (x y : List Char) :
    cutAt p (x ++ y) =
      match cutAt p x with
      | some (before, after) => some (before, after ++ y)
      | none => (cutAt p y).map fun (before, after) => (x ++ before, after) := by
  induction x with
  | nil =>
      change cutAt p y = (cutAt p y).map fun (before, after) => (before, after)
      exact (congrFun Option.map_id _).symm
  | cons c rest ih =>
      rw [List.cons_append, cutAt, cutAt]
      split_ifs with hc
      · rfl
      · rw [ih]
        cases cutAt p rest <;> simp [Function.comp_def]

end

lemma pieces_of_not_mem {c : Char} {x : List Char} (h : c ∉ x) : pieces c x = [x] := by
  induction x with
  | nil => rfl
  | cons d rest ih =>
      rw [List.mem_cons, not_or] at h
      rw [pieces, if_neg (Ne.symm h.1), ih h.2]

lemma pieces_append_cons {c : Char} {x : List Char} (h : c ∉ x) (y : List Char) :
    pieces c (x ++ c :: y) = x :: pieces c y := by
  induction x with
  | nil => rw [List.nil_append, pieces, if_pos rfl]
  | cons d rest ih =>
      rw [List.mem_cons, not_or] at h
      rw [List.cons_append, pieces, if_neg (Ne.symm h.1), ih h.2]

lemma pieces_ne_nil (c : Char) (s : List Char) : pieces c s ≠ [] := by
  cases s with
  | nil => exact List.cons_ne_nil _ _
  | cons d rest =>
      rw [pieces]
      split_ifs
      · exact List.cons_ne_nil _ _
      · split <;> exact List.cons_ne_nil _ _

/-- The pieces of a text make it up again. -/
lemma intercalate_pieces (c : Char) (s : List Char) : [c].intercalate (pieces c s) = s := by
  induction s with
  | nil => rfl
  | cons d rest ih =>
      rw [pieces]
      cases hrest : pieces c rest with
      | nil => exact absurd hrest (pieces_ne_nil c rest)
      | cons piece more =>
          rw [hrest] at ih
          split_ifs with hd
          · rw [List.intercalate_cons_of_ne_nil (List.cons_ne_nil _ _), ih, hd]
            rfl
          · cases more with
            | nil => simpa using ih
            | cons p more =>
                rw [List.intercalate_cons_of_ne_nil (List.cons_ne_nil _ _)] at ih ⊢
                simp [← ih]

lemma isPrefixOf?_append (head rest : List Char) : head.isPrefixOf? (head ++ rest) = some rest := by
  induction head with
  | nil => rfl
  | cons c head ih => simp [List.isPrefixOf?, ih]

lemma beforeTail?_append (text tail : List Char) :
    beforeTail? tail (text ++ tail) = some text := by
  rw [beforeTail?, List.reverse_append, isPrefixOf?_append]
  simp

/-! ## Words -/

/-- Nothing but blanks. -/
def AllBlank (s : List Char) : Prop :=
  ∀ c ∈ s, isBlank c = true

/-- No blank at all. -/
def Unbroken (s : List Char) : Prop :=
  ∀ c ∈ s, isBlank c = false

instance (s : List Char) : Decidable (Unbroken s) :=
  List.decidableBAll (fun c => isBlank c = false) s

/-- To show something of all texts, show it of a text without blanks, and of one that goes on behind
a blank. -/
theorem by_words {P : List Char → Prop} (unbroken : ∀ w, Unbroken w → P w)
    (broken : ∀ w b rest, Unbroken w → isBlank b = true → P rest → P (w ++ b :: rest))
    (s : List Char) : P s := by
  induction hn : s.length using Nat.strong_induction_on generalizing s with
  | _ n ih =>
    cases hcut : cutAt isBlank s with
    | none => exact unbroken s (cutAt_eq_none.1 hcut)
    | some parts =>
        obtain ⟨w, rest⟩ := parts
        obtain ⟨b, rfl, hb, hw⟩ := cutAt_eq_some hcut
        refine broken w b rest hw hb (ih rest.length ?_ rest rfl)
        rw [← hn, List.length_append, List.length_cons]
        omega

lemma wordsFrom_append_blank {b : Char} (hb : isBlank b = true) (run x y : List Char) :
    wordsFrom run (x ++ b :: y) = wordsFrom run x ++ words y := by
  induction x generalizing run with
  | nil =>
      simp only [List.nil_append, wordsFrom, hb, if_true]
      split_ifs <;> rfl
  | cons c rest ih =>
      rw [List.cons_append, wordsFrom, wordsFrom]
      split_ifs <;> simp [ih]

/-- **Words fall apart at a blank.** -/
lemma words_append_blank {b : Char} (hb : isBlank b = true) (x y : List Char) :
    words (x ++ b :: y) = words x ++ words y :=
  wordsFrom_append_blank hb [] x y

lemma wordsFrom_of_unbroken {w : List Char} (hw : Unbroken w) (run : List Char) :
    wordsFrom run w = if run.isEmpty && w.isEmpty then [] else [run.reverse ++ w] := by
  induction w generalizing run with
  | nil => cases run <;> simp [wordsFrom]
  | cons c rest ih =>
      obtain ⟨hc, hrest⟩ := List.forall_mem_cons.1 hw
      simp [wordsFrom, hc, ih hrest]

@[simp] lemma words_nil : words [] = [] := rfl

/-- A text without blanks is one word, unless it is empty. -/
lemma words_of_unbroken {w : List Char} (hw : Unbroken w) (hne : w ≠ []) : words w = [w] := by
  rw [words, wordsFrom_of_unbroken hw]
  simp [hne]

lemma words_eq_nil {s : List Char} : words s = [] ↔ AllBlank s := by
  induction s using by_words with
  | unbroken w hw =>
      cases w with
      | nil => simp [AllBlank]
      | cons c rest =>
          have hc := hw c List.mem_cons_self
          simp [words_of_unbroken hw, AllBlank, hc]
  | broken w b rest hw hb ih =>
      rw [words_append_blank hb, List.append_eq_nil_iff, ih]
      have hword : words w = [] ↔ w = [] := by
        cases w with
        | nil => simp
        | cons c rest => simp [words_of_unbroken hw]
      rw [hword]
      constructor
      · rintro ⟨rfl, hrest⟩
        exact List.forall_mem_cons.2 ⟨hb, hrest⟩
      · intro hall
        refine ⟨List.eq_nil_iff_forall_not_mem.2 fun c hc => ?_, fun c hc => hall c (by simp [hc])⟩
        have hblank := hall c (List.mem_append_left _ hc)
        rw [hw c hc] at hblank
        cases hblank

/-! ## Trimming -/

lemma words_append_allBlank {trail : List Char} (h : AllBlank trail) (s : List Char) :
    words (s ++ trail) = words s := by
  cases trail with
  | nil => rw [List.append_nil]
  | cons b rest =>
      obtain ⟨hb, hrest⟩ := List.forall_mem_cons.1 h
      rw [words_append_blank hb, words_eq_nil.2 hrest, List.append_nil]

lemma words_allBlank_append {lead : List Char} (h : AllBlank lead) (s : List Char) :
    words (lead ++ s) = words s := by
  induction lead with
  | nil => rfl
  | cons b rest ih =>
      obtain ⟨hb, hrest⟩ := List.forall_mem_cons.1 h
      have hcons := words_append_blank hb [] (rest ++ s)
      simp only [List.nil_append, words_nil] at hcons
      rw [List.cons_append, hcons, ih hrest]

lemma exists_dropEndWhile (p : Char → Bool) (s : List Char) :
    ∃ dropped, (∀ c ∈ dropped, p c = true) ∧ s = dropEndWhile p s ++ dropped := by
  refine ⟨(s.reverse.takeWhile p).reverse, ?_, ?_⟩
  · exact fun c hc => List.mem_takeWhile_imp (List.mem_reverse.1 hc)
  · rw [dropEndWhile, ← List.reverse_append, List.takeWhile_append_dropWhile, List.reverse_reverse]

lemma exists_trim (s : List Char) :
    ∃ lead trail, AllBlank lead ∧ AllBlank trail ∧ s = lead ++ trim s ++ trail := by
  obtain ⟨trail, htrail, hstart⟩ := exists_dropEndWhile isBlank (trimStart s)
  refine ⟨s.takeWhile isBlank, trail, fun c hc => List.mem_takeWhile_imp hc, htrail, ?_⟩
  rw [trim, List.append_assoc, ← hstart, trimStart, List.takeWhile_append_dropWhile]

/-- Blanks around a text are not part of any word. -/
@[simp] lemma words_trim (s : List Char) : words (trim s) = words s := by
  obtain ⟨lead, trail, hlead, htrail, hs⟩ := exists_trim s
  conv_rhs => rw [hs]
  rw [words_append_allBlank htrail, words_allBlank_append hlead]

lemma words_trimStart (s : List Char) : words (trimStart s) = words s := by
  have hlead : AllBlank (s.takeWhile isBlank) := fun c hc => List.mem_takeWhile_imp hc
  conv_rhs => rw [← List.takeWhile_append_dropWhile (p := isBlank) (l := s)]
  rw [words_allBlank_append hlead, trimStart]

/-- A text that neither begins nor ends with a blank. -/
structure Trimmed (s : List Char) : Prop where
  head : ∀ c rest, s = c :: rest → isBlank c = false
  last : ∀ before c, s = before ++ [c] → isBlank c = false

lemma trimmed_trim (s : List Char) : Trimmed (trim s) where
  head c rest h := by
    obtain ⟨tail, hstart⟩ : ∃ tail, trimStart s = c :: tail := by
      obtain ⟨trail, -, hstart⟩ := exists_dropEndWhile isBlank (trimStart s)
      rw [← trim, h] at hstart
      exact ⟨rest ++ trail, hstart⟩
    have hhead := List.head?_dropWhile_not isBlank s
    rw [trimStart] at hstart
    simpa [hstart] using hhead
  last before c h := by
    have hend : (trimStart s).reverse.dropWhile isBlank = c :: before.reverse := by
      rw [← List.reverse_inj, ← dropEndWhile, ← trim, h]
      simp
    have hhead := List.head?_dropWhile_not isBlank (trimStart s).reverse
    simpa [hend] using hhead

/-- Blanks before a text that has none at its ends are taken off, and nothing else. -/
lemma trim_append_of_ends {s : List Char} (hne : s ≠ [])
    (hhead : ∀ c ∈ s.head?, isBlank c = false) (hlast : ∀ c ∈ s.getLast?, isBlank c = false)
    (before : List Char) : trim (before ++ s) = trimStart before ++ s := by
  have hself : s.dropWhile isBlank = s := by
    cases s with
    | nil => rfl
    | cons c rest => exact List.dropWhile_cons_of_neg (by simp [hhead c rfl])
  have hstart : trimStart (before ++ s) = trimStart before ++ s := by
    rw [trimStart, List.dropWhile_append]
    split_ifs with hempty
    · rw [hself, trimStart, List.isEmpty_iff.1 hempty, List.nil_append]
    · rfl
  obtain ⟨init, c, rfl⟩ := List.eq_nil_or_concat s |>.resolve_left hne
  have hc : isBlank c = false := hlast c (by simp)
  rw [trim, hstart, dropEndWhile, List.concat_eq_append, ← List.append_assoc]
  simp [hc]

lemma trim_concat_blank {b : Char} (hb : isBlank b = true) (s : List Char) :
    trim (s ++ [b]) = trim s := by
  have hstart : trimStart (s ++ [b]) =
      if (trimStart s).isEmpty then [] else trimStart s ++ [b] := by
    rw [trimStart, List.dropWhile_append]
    simp [trimStart, hb]
  rw [trim, hstart, trim]
  split_ifs with hempty
  · rw [List.isEmpty_iff.1 hempty]
  · simp [dropEndWhile, hb]

/-- Blanks behind a text are taken off. -/
lemma trim_append_allBlank {trail : List Char} (h : AllBlank trail) (s : List Char) :
    trim (s ++ trail) = trim s := by
  induction trail using List.reverseRecOn with
  | nil => rw [List.append_nil]
  | append_singleton before b ih =>
      rw [← List.append_assoc, trim_concat_blank (h b (by simp)),
        ih fun c hc => h c (List.mem_append_left _ hc)]

lemma words_ne_nil {s : List Char} {c : Char} (hc : c ∈ s) (hblank : isBlank c = false) :
    words s ≠ [] := by
  intro h
  have := words_eq_nil.1 h c hc
  simp [hblank] at this

lemma Trimmed.words_eq_nil {s : List Char} (h : Trimmed s) : words s = [] ↔ s = [] := by
  cases s with
  | nil => simp
  | cons c rest => simp [words_ne_nil List.mem_cons_self (h.head c rest rfl)]

/-- A trimmed text is a word, or it goes on behind the blank after its first word. -/
lemma Trimmed.unbroken_or {s : List Char} (h : Trimmed s) :
    Unbroken s ∨ ∃ w b rest, s = w ++ b :: rest ∧ isBlank b = true ∧ Unbroken w ∧ w ≠ [] ∧
      words rest ≠ [] := by
  cases hcut : cutAt isBlank s with
  | none => exact .inl (cutAt_eq_none.1 hcut)
  | some parts =>
      obtain ⟨w, rest⟩ := parts
      obtain ⟨b, rfl, hb, hw⟩ := cutAt_eq_some hcut
      refine .inr ⟨w, b, rest, rfl, hb, hw, ?_, ?_⟩
      · rintro rfl
        simp [h.head b rest rfl] at hb
      · rcases List.eq_nil_or_concat rest with rfl | ⟨before, c, rfl⟩
        · simp [h.last w b rfl] at hb
        · rw [List.concat_eq_append] at h ⊢
          exact words_ne_nil (by simp) (h.last (w ++ b :: before) c (by simp))

/-! ## Words with a blank before each -/

lemma words_append_spaced {w : List Char} (hw : Unbroken w) (hne : w ≠ []) (ws : List (List Char)) :
    words (w ++ ws.flatMap (' ' :: ·)) = w :: words (ws.flatMap (' ' :: ·)) := by
  cases ws with
  | nil => simp [words_of_unbroken hw hne]
  | cons v rest =>
      have hblank : isBlank ' ' = true := by decide
      have hrest := words_append_blank hblank [] (v ++ rest.flatMap (' ' :: ·))
      rw [List.flatMap_cons, List.cons_append, words_append_blank hblank, words_of_unbroken hw hne,
        ← List.nil_append (' ' :: _), hrest]
      rfl

lemma words_spaced {ws : List (List Char)} (h : ∀ w ∈ ws, Unbroken w ∧ w ≠ []) :
    words (ws.flatMap (' ' :: ·)) = ws := by
  induction ws with
  | nil => rfl
  | cons w rest ih =>
      obtain ⟨hw, hrest⟩ := List.forall_mem_cons.1 h
      have hblank := words_append_blank (b := ' ') (by decide) [] (w ++ rest.flatMap (' ' :: ·))
      rw [List.flatMap_cons, List.cons_append, ← List.nil_append (' ' :: _), hblank, words_nil,
        List.nil_append, words_append_spaced hw.1 hw.2, ih hrest]

/-- A text joined of words has a space before each but the first. -/
lemma intercalate_eq_append (w : List Char) (rest : List (List Char)) :
    [' '].intercalate (w :: rest) = w ++ rest.flatMap (' ' :: ·) := by
  induction rest generalizing w with
  | nil => simp
  | cons v rest ih =>
      rw [List.intercalate_cons_of_ne_nil (List.cons_ne_nil _ _), ih]
      simp

lemma words_intercalate {ws : List (List Char)} (h : ∀ w ∈ ws, Unbroken w ∧ w ≠ []) :
    words ([' '].intercalate ws) = ws := by
  cases ws with
  | nil => rfl
  | cons w rest =>
      obtain ⟨⟨hw, hne⟩, hrest⟩ := List.forall_mem_cons.1 h
      rw [intercalate_eq_append, words_append_spaced hw hne, words_spaced hrest]

/-! ## Words where two texts meet -/

/-- Whether a text begins with a blank. -/
def startsBlank (s : List Char) : Bool :=
  s.head?.any isBlank

/-- Whether a text ends with a blank. -/
def endsBlank (s : List Char) : Bool :=
  s.getLast?.any isBlank

/-- The first word of a text goes on with the text before it, unless there is a blank. -/
lemma words_append_right (x y : List Char) :
    words (x ++ y) =
      if startsBlank y then words x ++ words y
      else words (x ++ (words y).headD []) ++ (words y).tail := by
  induction y using by_words with
  | unbroken w hw =>
      cases w with
      | nil => simp [startsBlank]
      | cons c rest =>
          have hc : isBlank c = false := hw c List.mem_cons_self
          simp [startsBlank, hc, words_of_unbroken hw]
  | broken w b rest hw hb ih =>
      cases w with
      | nil =>
          have hrest : words (b :: rest) = words rest := words_append_blank hb [] rest
          simp [startsBlank, hb, words_append_blank hb, hrest]
      | cons c w =>
          have hc : isBlank c = false := hw c List.mem_cons_self
          rw [words_append_blank hb, words_of_unbroken hw (List.cons_ne_nil _ _),
            ← List.append_assoc, words_append_blank hb]
          simp [startsBlank, hc]

/-- The last word of a text goes on with the text behind it, unless there is a blank. -/
lemma words_append_left (x y : List Char) :
    words (x ++ y) =
      if endsBlank x then words x ++ words y
      else (words x).dropLast ++ words ((words x).getLastD [] ++ y) := by
  induction x using by_words with
  | unbroken w hw =>
      cases hlast : w.getLast? with
      | none => simp [List.getLast?_eq_none_iff.1 hlast, endsBlank]
      | some c =>
          have hmem := List.mem_of_getLast? hlast
          simp [endsBlank, hlast, hw c hmem, words_of_unbroken hw (List.ne_nil_of_mem hmem)]
  | broken w b rest hw hb ih =>
      rw [List.append_assoc, List.cons_append, words_append_blank hb, ih, words_append_blank hb]
      cases hlast : rest.getLast? with
      | none =>
          simp [List.getLast?_eq_none_iff.1 hlast, endsBlank, hb]
      | some c =>
          have hends : endsBlank (w ++ b :: rest) = endsBlank rest := by
            simp [endsBlank, List.getLast?_cons, hlast]
          cases hblank : endsBlank rest with
          | true => simp [hends, hblank]
          | false =>
              have hc : isBlank c = false := by simpa [endsBlank, hlast] using hblank
              have hne := words_ne_nil (List.mem_of_getLast? hlast) hc
              obtain ⟨before, last, hwords⟩ := List.eq_nil_or_concat _ |>.resolve_left hne
              simp [hends, hblank, hwords]

/-- **What two texts are together, their words tell**, and whether there is a blank where they
meet. -/
lemma words_append_congr {x x' y y' : List Char} (hx : words x = words x')
    (hlast : endsBlank x = endsBlank x') (hy : words y = words y')
    (hhead : startsBlank y = startsBlank y') : words (x ++ y) = words (x' ++ y') := by
  have hright (z : List Char) : words (z ++ y) = words (z ++ y') := by
    rw [words_append_right z y, words_append_right z y', hy, hhead]
  rw [hright x, words_append_left x y', words_append_left x' y', hx, hlast]

/-- Put together, the words of a text are the text without its blanks. -/
lemma flatten_words (s : List Char) : (words s).flatten = s.filter (!isBlank ·) := by
  have hword {w : List Char} (hw : Unbroken w) : (words w).flatten = w.filter (!isBlank ·) := by
    rw [List.filter_eq_self.2 (by simpa [Unbroken] using hw)]
    cases w with
    | nil => rfl
    | cons c rest => simp [words_of_unbroken hw]
  induction s using by_words with
  | unbroken w hw => exact hword hw
  | broken w b rest hw hb ih =>
      rw [words_append_blank hb, List.flatten_append, hword hw, ih, List.filter_append,
        List.filter_cons_of_neg (by simpa using hb)]

/-! ## Cuts within a word -/

/-- The words before and after the first `sep` that is in one of some words. -/
def cutWords (sep : Char) : List (List Char) → Option (List (List Char) × List (List Char))
  | [] => none
  | w :: rest =>
    match cutAtChar sep w with
    | some (before, after) => some (words before, words after ++ rest)
    | none => (cutWords sep rest).map fun (before, after) => (w :: before, after)

/-- **Where a text is cut at a character that is not blank, its words tell.** -/
lemma map_cutAtChar {sep : Char} (hsep : isBlank sep = false) (s : List Char) :
    (cutAtChar sep s).map (Prod.map words words) = cutWords sep (words s) := by
  induction s using by_words with
  | unbroken w hw =>
      by_cases hne : w = []
      · subst hne
        rfl
      · rw [words_of_unbroken hw hne, cutWords, cutWords]
        cases cutAtChar sep w <;> simp [Prod.map]
  | broken w b rest hw hb ih =>
      have hother : (b == sep) = false := by
        refine beq_eq_false_iff_ne.2 ?_
        rintro rfl
        simp [hsep] at hb
      have hrest : cutAtChar sep (b :: rest) =
          (cutAtChar sep rest).map fun (before, after) => (b :: before, after) := by
        simp [cutAtChar, cutAt, hother]
      rw [words_append_blank hb, cutAtChar, cutAt_append, ← cutAtChar, hrest]
      by_cases hne : w = []
      · subst hne
        rw [words_nil, List.nil_append, ← ih]
        have hlead (x : List Char) : words (b :: x) = words x := words_append_blank hb [] x
        cases cutAtChar sep rest <;> simp [cutAtChar, cutAt, hlead, Prod.map]
      · rw [words_of_unbroken hw hne, List.singleton_append, cutWords, ← ih]
        have hword (x : List Char) : words (w ++ b :: x) = w :: words x := by
          rw [words_append_blank hb, words_of_unbroken hw hne, List.singleton_append]
        cases cutAtChar sep w with
        | some parts => simp [words_append_blank hb]
        | none => cases cutAtChar sep rest <;> simp [hword]

end TypeLang.Text
