import TypeLang.Proofs.Declaration.Pieces
import TypeLang.Proofs.Text.Lines

/-!
# How a file is laid out

A declaration is a row of words, and a file may spread it over lines, indent it and explain it with
comments as its author likes.  `Sheet` is a file together with what its author meant: entries that
begin and end with a line, each a declaration, a section mark or nothing, and between the words of a
declaration any blanks, line breaks and comments.  `Sheet.chars` is the text.

None of this takes part in what the file declares (`outcomes_of_sheet`).  The reader sees lines, not
entries, so the proof follows it from character to character: `Reading` is where it stands, and
`Reading.Has` says which words of a declaration lie behind it, in the lines that it has collected
and in the line that it is on.
-/

namespace TypeLang.Declaration

open Text

namespace Layout

/-! ## Sheets -/

/-- A blank within a line. -/
inductive Blank where
  | space
  | tab

/-- What ends a line. -/
inductive Break where
  | feed
  /-- A carriage return and a line feed. -/
  | returnFeed

/-- Two slashes, and a text that goes to the end of the line. -/
structure Comment where
  text : List Char
  inLine : '\n' ∉ text

/-- What alone may part two words. -/
inductive Spacing where
  | blank (b : Blank)
  | lineBreak (b : Break)

/-- What may stand around words.  A comment takes the rest of its line. -/
inductive Filler where
  | spacing (s : Spacing)
  | comment (c : Comment) (b : Break)

/-- What stands between two words.  It does not begin with a comment, whose slashes would come right
behind a word. -/
structure Gap where
  first : Spacing
  more : List Filler

/-- A word of a declaration: no blanks, no semicolon, nothing that begins a comment. -/
structure Word where
  chars : List Char
  ne_nil : chars ≠ []
  unbroken : Unbroken chars
  slashes : ¬ ['/', '/'] <:+: chars
  semicolon : ';' ∉ chars
  mark : sectionMark? chars = none

/-- What may follow the last thing on a line. -/
structure Ending where
  blanks : List Blank
  comment : Option Comment

/-- A declaration, from its first word to the semicolon. -/
structure Body where
  first : Word
  /-- The other words, each behind the gap that parts it from the one before. -/
  others : List (Gap × Word)
  /-- What stands before the semicolon. -/
  close : Option Gap

/-- Some lines of a file without the last line break: nothing, a section mark or a declaration. -/
inductive Entry where
  | nothing (ending : Ending)
  | mark (indent : List Blank) (place : Section) (ending : Ending)
  | declaration (indent : List Blank) (body : Body) (ending : Ending)

/-- A file: entries with a line break between each two. -/
structure Sheet where
  first : Entry
  others : List (Break × Entry)

/-! ### As characters -/

def Blank.char : Blank → Char
  | space => ' '
  | tab => '\t'

def Break.chars : Break → List Char
  | feed => ['\n']
  | returnFeed => ['\r', '\n']

def Comment.chars (c : Comment) : List Char :=
  '/' :: '/' :: c.text

def Spacing.chars : Spacing → List Char
  | blank b => [b.char]
  | lineBreak b => b.chars

def Filler.chars : Filler → List Char
  | spacing s => s.chars
  | comment c b => c.chars ++ b.chars

def Gap.chars (g : Gap) : List Char :=
  g.first.chars ++ g.more.flatMap Filler.chars

def Ending.chars (e : Ending) : List Char :=
  e.blanks.map Blank.char ++ e.comment.elim [] Comment.chars

def Body.chars (d : Body) : List Char :=
  d.first.chars ++ d.others.flatMap (fun (gap, word) => gap.chars ++ word.chars)
    ++ d.close.elim [] Gap.chars ++ [';']

/-- The line that switches to a section. -/
def markText : Section → List Char
  | .functions => "---functions---".toList
  | .types => "---types---".toList

def Entry.chars : Entry → List Char
  | nothing ending => ending.chars
  | mark indent place ending => indent.map Blank.char ++ markText place ++ ending.chars
  | declaration indent body ending => indent.map Blank.char ++ body.chars ++ ending.chars

def Sheet.chars (s : Sheet) : List Char :=
  s.first.chars ++ s.others.flatMap fun (lineBreak, entry) => lineBreak.chars ++ entry.chars

/-! ### As declarations -/

/-- The words of a declaration, in order. -/
def Body.words (d : Body) : List (List Char) :=
  d.first.chars :: d.others.map (·.2.chars)

/-- What a file declares in one place. -/
structure Declared where
  /-- The section that the last mark before it names. -/
  place : Section
  words : List (List Char)
  deriving DecidableEq

/-- What the words are read as, with one space between each two. -/
def Declared.outcome (d : Declared) : Except CombinatorFault Combinator :=
  (Combinator.read ([' '].intercalate d.words)).map ({ · with place := d.place })

/-- What some entries declare, in order, when they begin in the section `place`. -/
def declared (place : Section) : List Entry → List Declared
  | [] => []
  | .nothing _ :: rest => declared place rest
  | .mark _ place _ :: rest => declared place rest
  | .declaration _ body _ :: rest => ⟨place, body.words⟩ :: declared place rest

/-- What a file declares.  Before the first mark is a section of types. -/
def Sheet.declared (s : Sheet) : List Declared :=
  Layout.declared .types (s.first :: s.others.map (·.2))

/-! ## Where the reader stands -/

/-- A place within a file: the number of the line, what the reader has collected of the lines before
it and of the line itself. -/
structure Reading where
  number : ℕ
  pending : List Char
  line : List Char

namespace Reading

/-- The place at the start of a line where nothing is pending. -/
def start (number : ℕ) : Reading :=
  ⟨number, [], []⟩

/-- What is read from a place on. -/
def items (r : Reading) (place : Section) (text : List Char) : List Item :=
  itemsFrom r.number place r.pending (linesFrom r.line.reverse text)

/-- A place further on in the line. -/
def onto (r : Reading) (x : List Char) : Reading :=
  { r with line := r.line ++ x }

/-- A text that takes the reader from one place to another, and declares nothing on the way. -/
def Leads (r : Reading) (x : List Char) (r' : Reading) : Prop :=
  ∀ place text, r.items place (x ++ text) = r'.items place text

variable {r r' r'' : Reading}

lemma Leads.trans {x y : List Char} (h : r.Leads x r') (h' : r'.Leads y r'') :
    r.Leads (x ++ y) r'' := by
  intro place text
  rw [List.append_assoc, h, h']

lemma leads_onto {x : List Char} (hx : '\n' ∉ x) : r.Leads x (r.onto x) := by
  intro place text
  rw [items, linesFrom_append hx, items, onto, List.reverse_append]

/-! ### The end of a line -/

/-- The reader looks at a line without its comment and the blanks around it. -/
lemma itemsFrom_of_uncomment_eq {raw raw' : List Char} (h : uncomment raw = uncomment raw')
    (number : ℕ) (place : Section) (pending : List Char) (rest : List (List Char)) :
    itemsFrom number place pending (raw :: rest) =
      itemsFrom number place pending (raw' :: rest) := by
  rw [itemsFrom, itemsFrom, h]

/-- A carriage return at the end of a line is a blank, or part of a comment. -/
lemma uncomment_concat_return (x : List Char) : uncomment (x ++ ['\r']) = uncomment x := by
  rw [uncomment, uncomment]
  by_cases hx : beforeSlashes x = x
  · rw [beforeSlashes_append hx (by simp), hx, beforeSlashes.eq_3 _ _ (by simp), beforeSlashes,
      trim_concat_blank (by decide)]
  · rw [beforeSlashes_append_of_ne hx]

lemma items_feed (r : Reading) (place : Section) (text : List Char) :
    r.items place ('\n' :: text) =
      itemsFrom r.number place r.pending (r.line :: linesFrom [] text) := by
  rw [items, linesFrom.eq_def]
  simp only [if_true]
  apply itemsFrom_of_uncomment_eq
  split
  case h_1 before hline =>
    have hreturn : r.line = before.reverse ++ ['\r'] := by
      rw [← List.reverse_reverse r.line, hline, List.reverse_cons]
    rw [hreturn, uncomment_concat_return]
  case h_2 => rw [List.reverse_reverse]

/-- Either kind of break ends the line. -/
lemma items_break (r : Reading) (place : Section) (b : Break) (text : List Char) :
    r.items place (b.chars ++ text) =
      itemsFrom r.number place r.pending (r.line :: linesFrom [] text) := by
  cases b with
  | feed => exact items_feed r place text
  | returnFeed =>
      have hreturn : r.Leads ['\r'] (r.onto ['\r']) := leads_onto (by decide)
      show r.items place (['\r'] ++ '\n' :: text) = _
      rw [hreturn, items_feed]
      exact itemsFrom_of_uncomment_eq (uncomment_concat_return r.line) _ _ _ _

/-- The last line needs no break. -/
lemma items_nil (r : Reading) (place : Section) :
    r.items place [] = itemsFrom r.number place r.pending [r.line] := by
  obtain ⟨number, pending, line⟩ := r
  cases line with
  | nil => rfl
  | cons c rest => simp [items, linesFrom]

/-! ### Between the words of a declaration -/

/-- The words that lie behind the reader since the last declaration.  Some are collected, and some
are on the line. -/
structure Has (r : Reading) (ws : List (List Char)) : Prop where
  pending : ';' ∉ r.pending
  line : ';' ∉ r.line
  slashes : beforeSlashes r.line = r.line
  words : Text.words r.pending ++ Text.words r.line = ws
  marks : ∀ w ∈ ws, sectionMark? w = none

/-- The reader is not in a word. -/
def AtGap (r : Reading) : Prop :=
  ∀ c ∈ r.line.getLast?, isBlank c = true

variable {ws : List (List Char)}

lemma has_start (number : ℕ) : (start number).Has [] :=
  ⟨List.not_mem_nil, List.not_mem_nil, rfl, rfl, by simp⟩

/-- At a gap, what follows on the line is on its own. -/
lemma AtGap.append (hgap : r.AtGap) (h : r.Has ws) (y : List Char) :
    beforeSlashes (r.line ++ y) = r.line ++ beforeSlashes y ∧
      Text.words (r.line ++ y) = Text.words r.line ++ Text.words y := by
  constructor
  · apply beforeSlashes_append h.slashes
    intro hlast
    exact absurd (hgap _ hlast) (by decide)
  · rcases List.eq_nil_or_concat r.line with hline | ⟨before, b, hline⟩
    · simp [hline]
    · rw [List.concat_eq_append] at hline
      have hb : isBlank b = true := hgap b (by simp [hline])
      rw [hline, List.append_assoc, List.singleton_append, words_append_blank hb,
        words_append_blank hb, words_nil, List.append_nil]

lemma isBlank_char (b : Blank) : isBlank b.char = true := by
  cases b <;> decide

lemma allBlank_chars (blanks : List Blank) : AllBlank (blanks.map Blank.char) := by
  intro c hc
  obtain ⟨b, -, rfl⟩ := List.mem_map.1 hc
  exact isBlank_char b

/-- A blank parts words. -/
lemma Has.blank (h : r.Has ws) (b : Blank) :
    r.Leads [b.char] (r.onto [b.char]) ∧ (r.onto [b.char]).Has ws ∧ (r.onto [b.char]).AtGap := by
  have hb := isBlank_char b
  have hwords : Text.words (r.line ++ [b.char]) = Text.words r.line := by
    rw [words_append_blank hb, words_nil, List.append_nil]
  have hslashes : beforeSlashes (r.line ++ [b.char]) = r.line ++ [b.char] := by
    rw [beforeSlashes_append h.slashes (by cases b <;> simp [Blank.char])]
    cases b <;> rfl
  refine ⟨leads_onto (by cases b <;> decide), ⟨h.pending, ?_, hslashes, ?_, h.marks⟩, ?_⟩
  · cases b <;> simp [onto, Blank.char, h.line]
  · rw [onto, hwords, h.words]
  · simpa [AtGap, onto] using hb

/-- Where the reader is behind the break of the line. -/
def next (r : Reading) : Reading :=
  ⟨r.number + 1, if trim r.line = [] then r.pending else r.pending ++ ' ' :: trim r.line, []⟩

lemma sectionMark?_trim {s : List Char} (h : ∀ w ∈ Text.words s, sectionMark? w = none) :
    sectionMark? (trim s) = none := by
  by_contra hmark
  have hword : Text.words (trim s) = [trim s] := by
    have hmarks : trim s = "---functions---".toList ∨ trim s = "---types---".toList := by
      unfold sectionMark? at hmark
      split_ifs at hmark with hfunctions htypes
      · exact .inl hfunctions
      · exact .inr htypes
      · exact absurd rfl hmark
    rcases hmarks with hs | hs <;> rw [hs] <;> decide +kernel
  rw [words_trim] at hword
  exact hmark (h _ (by rw [hword]; exact List.mem_singleton_self _))

/-- The words on a line are collected at its end, whatever comment it has. -/
lemma Has.itemsFrom_next (h : r.Has ws) {tail : List Char}
    (hcut : beforeSlashes (r.line ++ tail) = r.line) (place : Section) (rest : List (List Char)) :
    itemsFrom r.number place r.pending ((r.line ++ tail) :: rest) =
      itemsFrom r.next.number place r.next.pending rest := by
  have hline : uncomment (r.line ++ tail) = trim r.line := by rw [uncomment, hcut]
  have hmark : sectionMark? (uncomment (r.line ++ tail)) = none := by
    rw [hline]
    exact sectionMark?_trim fun w hw =>
      h.marks w (h.words ▸ List.mem_append_right _ hw)
  have hopen : ';' ∉ uncomment (r.line ++ tail) := by
    rw [hline]
    exact mt Combinator.mem_of_mem_trim h.line
  rw [itemsFrom_line _ _ _ _ hmark hopen, hline, next]

lemma Has.next (h : r.Has ws) : r.next.Has ws := by
  have hwords : Text.words r.next.pending = ws := by
    rw [← h.words, Reading.next]
    dsimp only
    split_ifs with hempty
    · rw [← words_trim r.line, hempty, words_nil, List.append_nil]
    · rw [words_append_blank (by decide), words_trim]
  refine ⟨?_, List.not_mem_nil, rfl, by rw [hwords]; exact List.append_nil ws, h.marks⟩
  have htrim : ';' ∉ trim r.line := mt Combinator.mem_of_mem_trim h.line
  rw [Reading.next]
  dsimp only
  split_ifs
  · exact h.pending
  · simp [h.pending, htrim]

lemma atGap_next (r : Reading) : r.next.AtGap := by
  simp [AtGap, next]

/-- What alone parts two words leaves the reader at a gap. -/
lemma Has.spacing (h : r.Has ws) (s : Spacing) :
    ∃ r', r.Leads s.chars r' ∧ r'.Has ws ∧ r'.AtGap := by
  cases s with
  | blank b => exact ⟨_, h.blank b⟩
  | lineBreak b =>
      refine ⟨r.next, fun place text => ?_, h.next, atGap_next r⟩
      have hcut : beforeSlashes (r.line ++ []) = r.line := by rw [List.append_nil, h.slashes]
      have hnext := h.itemsFrom_next hcut
      rw [List.append_nil] at hnext
      rw [Spacing.chars, items_break, hnext]
      rfl

lemma Has.filler (h : r.Has ws) (hgap : r.AtGap) (f : Filler) :
    ∃ r', r.Leads f.chars r' ∧ r'.Has ws ∧ r'.AtGap := by
  cases f with
  | spacing s => exact h.spacing s
  | comment c b =>
      have hcomment : '\n' ∉ c.chars := by simp [Comment.chars, c.inLine]
      have hcut : beforeSlashes (r.line ++ c.chars) = r.line := by
        rw [(hgap.append h _).1, Comment.chars, beforeSlashes, List.append_nil]
      refine ⟨r.next, (leads_onto hcomment).trans fun place text => ?_, h.next, atGap_next r⟩
      rw [items_break]
      exact h.itemsFrom_next hcut place _

lemma Has.fillers (h : r.Has ws) (hgap : r.AtGap) (fs : List Filler) :
    ∃ r', r.Leads (fs.flatMap Filler.chars) r' ∧ r'.Has ws ∧ r'.AtGap := by
  induction fs generalizing r with
  | nil => exact ⟨r, fun _ _ => rfl, h, hgap⟩
  | cons f rest ih =>
      obtain ⟨r₁, hleads₁, h₁, hgap₁⟩ := h.filler hgap f
      obtain ⟨r₂, hleads₂, h₂, hgap₂⟩ := ih h₁ hgap₁
      exact ⟨r₂, hleads₁.trans hleads₂, h₂, hgap₂⟩

/-- A gap adds no words. -/
lemma Has.gap (h : r.Has ws) (g : Gap) : ∃ r', r.Leads g.chars r' ∧ r'.Has ws ∧ r'.AtGap := by
  obtain ⟨r₁, hleads₁, h₁, hgap₁⟩ := h.spacing g.first
  obtain ⟨r₂, hleads₂, h₂, hgap₂⟩ := h₁.fillers hgap₁ g.more
  exact ⟨r₂, hleads₁.trans hleads₂, h₂, hgap₂⟩

/-- A word at a gap is the next one. -/
lemma Has.word (h : r.Has ws) (hgap : r.AtGap) (w : Word) :
    r.Leads w.chars (r.onto w.chars) ∧ (r.onto w.chars).Has (ws ++ [w.chars]) := by
  obtain ⟨hslashes, hwords⟩ := hgap.append h w.chars
  have hfeed : '\n' ∉ w.chars := fun hmem => absurd (w.unbroken _ hmem) (by decide)
  refine ⟨leads_onto hfeed, h.pending, ?_, ?_, ?_, ?_⟩
  · simp [onto, h.line, w.semicolon]
  · rw [onto, hslashes, beforeSlashes_of_not_infix w.slashes]
  · rw [onto, hwords, words_of_unbroken w.unbroken w.ne_nil, ← List.append_assoc, h.words]
  · exact List.forall_mem_append.2 ⟨h.marks, by simpa using w.mark⟩

lemma Has.others (h : r.Has ws) (others : List (Gap × Word)) :
    ∃ r', r.Leads (others.flatMap fun (gap, word) => gap.chars ++ word.chars) r' ∧
      r'.Has (ws ++ others.map (·.2.chars)) := by
  induction others generalizing r ws with
  | nil => exact ⟨r, fun _ _ => rfl, by simpa using h⟩
  | cons other rest ih =>
      obtain ⟨gap, word⟩ := other
      obtain ⟨r₁, hleads₁, h₁, hgap₁⟩ := h.gap gap
      obtain ⟨hleads₂, h₂⟩ := h₁.word hgap₁ word
      obtain ⟨r₃, hleads₃, h₃⟩ := ih h₂
      refine ⟨r₃, (hleads₁.trans hleads₂).trans hleads₃, ?_⟩
      simpa using h₃

/-! ### Entries -/

lemma feed_not_mem_blanks (blanks : List Blank) : '\n' ∉ blanks.map Blank.char := by
  intro hmem
  obtain ⟨b, -, hb⟩ := List.mem_map.1 hmem
  cases b <;> cases hb

lemma feed_not_mem (e : Ending) : '\n' ∉ e.chars := by
  obtain ⟨blanks, comment⟩ := e
  have hblanks := feed_not_mem_blanks blanks
  cases comment with
  | none => simpa [Ending.chars] using hblanks
  | some c => simpa [Ending.chars, Comment.chars, c.inLine] using hblanks

lemma beforeSlashes_blanks (blanks : List Blank) (y : List Char) :
    beforeSlashes (blanks.map Blank.char ++ y) = blanks.map Blank.char ++ beforeSlashes y := by
  induction blanks with
  | nil => rfl
  | cons b rest ih =>
      have hb : b.char ≠ '/' := by cases b <;> decide
      rw [List.map_cons, List.cons_append, beforeSlashes.eq_3 _ _ fun _ hslash => absurd hslash hb,
        ih]
      rfl

/-- An ending is blank but for its comment. -/
lemma beforeSlashes_ending (e : Ending) : beforeSlashes e.chars = e.blanks.map Blank.char := by
  rw [Ending.chars, beforeSlashes_blanks]
  cases e.comment <;> simp [Comment.chars, beforeSlashes]

/-- The line of a semicolon ends in it, up to blanks and a comment. -/
lemma Has.uncomment_closing (h : r.Has ws) (e : Ending) :
    uncomment (r.line ++ ';' :: e.chars) = trimStart r.line ++ List.replicate (0 + 1) ';' := by
  have hcut : beforeSlashes (r.line ++ ';' :: e.chars) =
      r.line ++ [';'] ++ e.blanks.map Blank.char := by
    rw [beforeSlashes_append h.slashes (by simp), beforeSlashes.eq_3 _ _ (by simp),
      beforeSlashes_ending, List.append_assoc]
    rfl
  have hsemicolon : isBlank ';' = false := by decide
  rw [uncomment, hcut, trim_append_allBlank (allBlank_chars _),
    trim_append_of_ends (List.cons_ne_nil _ _) (by simpa using hsemicolon)
      (by simpa using hsemicolon)]
  rfl

lemma sectionMark?_of_semicolon {s : List Char} (h : ';' ∈ s) : sectionMark? s = none := by
  unfold sectionMark?
  rw [if_neg, if_neg]
  all_goals
    rintro rfl
    exact absurd h (by decide)

/-- What is collected of a declaration has the words of the declaration. -/
lemma Has.together (h : r.Has ws) {words : List Word} (hws : ws = words.map Word.chars) :
    Together (r.pending ++ ' ' :: trimStart r.line) ([' '].intercalate ws) := by
  have hparts : ∀ w ∈ ws, Unbroken w ∧ w ≠ [] ∧ ';' ∉ w := by
    rw [hws, List.forall_mem_map]
    exact fun w _ => ⟨w.unbroken, w.ne_nil, w.semicolon⟩
  have hline : ';' ∉ trimStart r.line := mt (List.dropWhile_sublist isBlank).mem h.line
  refine ⟨by simp [h.pending, hline], ?_, ?_⟩
  · cases ws with
    | nil => exact List.not_mem_nil
    | cons w rest =>
        obtain ⟨⟨-, -, hw⟩, hrest⟩ := List.forall_mem_cons.1 hparts
        rw [intercalate_eq_append, List.mem_append, List.mem_flatMap]
        rintro (hmem | ⟨v, hv, hmem⟩)
        · exact hw hmem
        · exact (hrest v hv).2.2 ((List.mem_cons.1 hmem).resolve_left (by decide))
  · rw [words_append_blank (by decide), words_trimStart, h.words,
      words_intercalate fun w hw => ⟨(hparts w hw).1, (hparts w hw).2.1⟩]

/-- A declaration that is closed is read by its words, and nothing of it stays. -/
lemma Has.outcomes_closing (h : r.Has ws) {words : List Word} (hws : ws = words.map Word.chars)
    (hne : ws ≠ []) (e : Ending) (place : Section) (rest : List (List Char)) :
    (itemsFrom r.number place r.pending ((r.line ++ ';' :: e.chars) :: rest)).map (·.outcome) =
      Declared.outcome ⟨place, ws⟩ :: (itemsFrom (r.number + 1) place [] rest).map (·.outcome) := by
  have hline := h.uncomment_closing e
  have htogether := h.together hws
  have hfull : ([' '].intercalate ws).all isBlank = false := by
    rw [Bool.eq_false_iff, ne_eq, List.all_eq_true]
    intro hblank
    have hwords := htogether.sameWords
    rw [words_eq_nil.2 hblank, words_append_blank (by decide), words_trimStart, h.words] at hwords
    exact hne hwords
  rw [itemsFrom_closing _ _ _ _ (sectionMark?_of_semicolon (by simp [hline])) hline,
    htogether.isEmpty_strip, htogether.read_strip, hfull]
  rfl

lemma Has.indent (h : r.Has ws) (hgap : r.AtGap) (blanks : List Blank) :
    ∃ r', r.Leads (blanks.map Blank.char) r' ∧ r'.Has ws ∧ r'.AtGap := by
  have hchars : (blanks.map fun b => Filler.spacing (.blank b)).flatMap Filler.chars =
      blanks.map Blank.char := by
    rw [List.flatMap_map]
    exact List.map_eq_flatMap.symm
  exact hchars ▸ h.fillers hgap (blanks.map fun b => .spacing (.blank b))

/-- From the first word of a declaration the reader comes to the semicolon with all its words. -/
lemma Has.body (h : r.Has []) (hgap : r.AtGap) (d : Body) :
    ∃ r', r.Leads (d.first.chars ++ d.others.flatMap (fun (gap, word) => gap.chars ++ word.chars)
      ++ d.close.elim [] Gap.chars) r' ∧ r'.Has d.words := by
  obtain ⟨hleads₁, h₁⟩ := h.word hgap d.first
  obtain ⟨r₂, hleads₂, h₂⟩ := h₁.others d.others
  cases hclose : d.close with
  | none => exact ⟨r₂, by simpa using hleads₁.trans hleads₂, h₂⟩
  | some gap =>
      obtain ⟨r₃, hleads₃, h₃, -⟩ := h₂.gap gap
      exact ⟨r₃, (hleads₁.trans hleads₂).trans hleads₃, h₃⟩

/-- A mark is what is left of its line. -/
lemma uncomment_mark (indent : List Blank) (place : Section) (e : Ending) :
    uncomment (indent.map Blank.char ++ markText place ++ e.chars) = markText place := by
  have hslashes : beforeSlashes (markText place) = markText place := by
    cases place <;> decide
  have hmeet : (markText place).getLast? = some '/' → e.chars.head? ≠ some '/' := by
    intro hlast
    cases place <;> cases hlast
  have hstart : trimStart (indent.map Blank.char) = [] :=
    List.dropWhile_eq_nil_iff.2 (allBlank_chars indent)
  have hne : markText place ≠ [] := by cases place <;> decide
  have hhead : ∀ c ∈ (markText place).head?, isBlank c = false := by
    cases place <;> rintro c ⟨⟩ <;> decide
  have hlast : ∀ c ∈ (markText place).getLast?, isBlank c = false := by
    cases place <;> rintro c ⟨⟩ <;> decide
  rw [uncomment, List.append_assoc, beforeSlashes_blanks, beforeSlashes_append hslashes hmeet,
    beforeSlashes_ending, ← List.append_assoc, trim_append_allBlank (allBlank_chars _),
    trim_append_of_ends hne hhead hlast, hstart, List.nil_append]

lemma itemsFrom_empty {raw : List Char} (h : uncomment raw = []) (number : ℕ) (place : Section)
    (pending : List Char) (rest : List (List Char)) :
    itemsFrom number place pending (raw :: rest) = itemsFrom (number + 1) place pending rest := by
  rw [itemsFrom, h]
  rfl

lemma itemsFrom_mark {raw : List Char} {place' : Section} (h : uncomment raw = markText place')
    (number : ℕ) (place : Section) (pending : List Char) (rest : List (List Char)) :
    itemsFrom number place pending (raw :: rest) = itemsFrom (number + 1) place' pending rest := by
  rw [itemsFrom, h]
  cases place' <;> rfl

/-- Behind an entry the reader has what the entry declares, and nothing is pending. -/
lemma reads_entry (number : ℕ) (place : Section) (e : Entry) :
    ∃ r, (start number).Leads e.chars r ∧
      ∀ lines entries, (∀ number place, (itemsFrom number place [] lines).map (·.outcome) =
          (declared place entries).map (·.outcome)) →
        (itemsFrom r.number place r.pending (r.line :: lines)).map (·.outcome) =
          (declared place (e :: entries)).map (·.outcome) := by
  cases e with
  | nothing ending =>
      refine ⟨⟨number, [], ending.chars⟩, leads_onto (feed_not_mem ending), ?_⟩
      intro lines entries hlines
      have hempty : uncomment ending.chars = [] := by
        rw [uncomment, beforeSlashes_ending, ← List.nil_append (List.map _ _),
          trim_append_allBlank (allBlank_chars _)]
        rfl
      dsimp only
      rw [itemsFrom_empty hempty]
      exact hlines (number + 1) place
  | mark indent place' ending =>
      have hmark : '\n' ∉ markText place' := by cases place' <;> decide
      have hfeed : '\n' ∉ indent.map Blank.char ++ markText place' ++ ending.chars := by
        rw [List.mem_append, List.mem_append, not_or, not_or]
        exact ⟨⟨feed_not_mem_blanks indent, hmark⟩, feed_not_mem ending⟩
      refine ⟨⟨number, [], indent.map Blank.char ++ markText place' ++ ending.chars⟩,
        leads_onto hfeed, ?_⟩
      intro lines entries hlines
      dsimp only
      rw [itemsFrom_mark (uncomment_mark indent place' ending)]
      exact hlines (number + 1) place'
  | declaration indent body ending =>
      have hgap : (start number).AtGap := by simp [AtGap, start]
      obtain ⟨r₁, hleads₁, h₁, hgap₁⟩ := (has_start number).indent hgap indent
      obtain ⟨r₂, hleads₂, h₂⟩ := h₁.body hgap₁ body
      have hleads₃ : r₂.Leads (';' :: ending.chars) (r₂.onto (';' :: ending.chars)) :=
        leads_onto (by simp [feed_not_mem ending])
      refine ⟨r₂.onto (';' :: ending.chars), ?_, fun lines entries hlines => ?_⟩
      · have hleads := (hleads₁.trans hleads₂).trans hleads₃
        simpa [Entry.chars, Body.chars] using hleads
      · have hws : body.words = (body.first :: body.others.map (·.2)).map Word.chars := by
          simp [Body.words]
        rw [onto, h₂.outcomes_closing hws (List.cons_ne_nil _ _), hlines, declared, List.map_cons]

end Reading

/-! ## Files -/

lemma outcomes_entries (number : ℕ) (place : Section) (first : Entry)
    (others : List (Break × Entry)) :
    ((Reading.start number).items place (first.chars ++
        others.flatMap fun (lineBreak, entry) => lineBreak.chars ++ entry.chars)).map (·.outcome) =
      (declared place (first :: others.map (·.2))).map (·.outcome) := by
  induction others generalizing number place first with
  | nil =>
      obtain ⟨r, hleads, hreads⟩ := Reading.reads_entry number place first
      rw [List.flatMap_nil, hleads, Reading.items_nil]
      exact hreads [] [] fun _ _ => rfl
  | cons other rest ih =>
      obtain ⟨lineBreak, entry⟩ := other
      obtain ⟨r, hleads, hreads⟩ := Reading.reads_entry number place first
      rw [List.flatMap_cons, List.append_assoc, hleads, Reading.items_break]
      exact hreads _ _ fun number place => ih number place entry

end Layout

/-- **Layout takes no part in what a file declares.**  Each declaration is read by its words, in the
section that the last mark before it names; what else stands in the file is passed over. -/
theorem outcomes_of_sheet (s : Layout.Sheet) :
    (items s.chars).map (·.outcome) = s.declared.map (·.outcome) :=
  Layout.outcomes_entries 1 .types s.first s.others

namespace Layout

/-- A function over three lines, with a comment among its words and another behind it. -/
def pingSheet : Sheet where
  first := .mark [] .functions ⟨[.space], none⟩
  others :=
    [(.returnFeed, .declaration [.tab]
      { first := ⟨"ping#7abe77ec".toList, by decide, by decide, by decide, by decide, by decide⟩
        others :=
          [(⟨.blank .space,
              [.comment ⟨" asks;".toList, by decide⟩ .feed, .spacing (.blank .space)]⟩,
            ⟨"ping_id:long".toList, by decide, by decide, by decide, by decide, by decide⟩),
          (⟨.lineBreak .feed, []⟩,
            ⟨"=".toList, by decide, by decide, by decide, by decide, by decide⟩),
          (⟨.blank .tab, [.spacing (.blank .space)]⟩,
            ⟨"Pong".toList, by decide, by decide, by decide, by decide, by decide⟩)]
        close := none }
      ⟨[.space], some ⟨" answers".toList, by decide⟩⟩)]

example : pingSheet.chars =
      "---functions--- \r\n\tping#7abe77ec // asks;\n ping_id:long\n=\t Pong; // answers".toList ∧
    pingSheet.declared =
      [⟨.functions, ["ping#7abe77ec", "ping_id:long", "=", "Pong"].map String.toList⟩] := by
  decide

end Layout

end TypeLang.Declaration
