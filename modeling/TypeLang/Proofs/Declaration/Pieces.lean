import TypeLang.Declaration.File
import TypeLang.Proofs.Declaration.Spelling

/-!
# The pieces of a file

Taken without its comments and section marks, a file is a text in which semicolons stand, and what
is between them are its pieces, the last one being what no semicolon closes.  This says what a file
declares without a word about lines ending in semicolons, by which it is read.

The two come to the same where a semicolon ends its line (`outcomes_items`): what is read is each
piece that is closed, unless it is blank.
-/

namespace TypeLang.Declaration

open Text

/-! ## Cutting at semicolons -/

/-- What is between two semicolons of a file. -/
structure Piece where
  /-- The section in which it ends. -/
  place : Section
  /-- The text, comments and section marks left out. -/
  text : List Char
  deriving DecidableEq, Repr

namespace Piece

/-- Whether there is nothing to read. -/
def isBlank (p : Piece) : Bool :=
  p.text.all Text.isBlank

/-- What a piece is read as, on its own. -/
def outcome (p : Piece) : Except CombinatorFault Combinator :=
  (Combinator.read p.text).map ({ · with place := p.place })

end Piece

/-- The pieces that end in some lines, and the last one, when `opened` is what stands before these
lines and behind a semicolon. -/
def piecesFrom (place : Section) (opened : List Char) : List (List Char) → List Piece
  | [] => [⟨place, opened⟩]
  | raw :: rest =>
    match sectionMark? (uncomment raw) with
    | some place => piecesFrom place opened rest
    | none =>
      let cut := Text.pieces ';' (opened ++ '\n' :: beforeSlashes raw)
      cut.dropLast.map (⟨place, ·⟩) ++ piecesFrom place (cut.getLastD []) rest

/-- The pieces of a file, the last of which no semicolon closes. -/
def pieces (file : List Char) : List Piece :=
  piecesFrom .types [] (lines file)

/-- Whether nothing but more semicolons and blanks follows a semicolon of a line. -/
def endsAtSemicolons (raw : List Char) : Bool :=
  !(dropEndWhile (· == ';') (uncomment raw)).contains ';'

lemma piecesFrom_ne_nil (place : Section) (opened : List Char) (ls : List (List Char)) :
    piecesFrom place opened ls ≠ [] := by
  induction ls generalizing place opened with
  | nil => exact List.cons_ne_nil _ _
  | cons raw rest ih =>
      rw [piecesFrom]
      split
      · exact ih _ _
      · exact List.append_ne_nil_of_right_ne_nil _ (ih _ _)

/-! ## Texts with semicolons -/

lemma pieces_replicate {c : Char} {y : List Char} (h : c ∉ y) (n : Nat) :
    Text.pieces c (List.replicate n c ++ y) = List.replicate n [] ++ [y] := by
  induction n with
  | zero => exact pieces_of_not_mem h
  | succ n ih =>
      rw [List.replicate_succ, List.cons_append, Text.pieces, if_pos rfl, ih, List.replicate_succ,
        List.cons_append]

lemma semicolon_not_mem {s : List Char} (h : AllBlank s) : ';' ∉ s := by
  intro hmem
  exact absurd (h _ hmem) (by decide)

/-- What a line adds: text between blanks, and semicolons at its end. -/
lemma exists_semicolons {raw : List Char} (h : endsAtSemicolons raw = true) :
    ∃ lead core trail n, AllBlank lead ∧ AllBlank trail ∧ ';' ∉ core ∧
      uncomment raw = core ++ List.replicate n ';' ∧
      beforeSlashes raw = lead ++ core ++ List.replicate n ';' ++ trail := by
  obtain ⟨lead, trail, hlead, htrail, hraw⟩ := exists_trim (beforeSlashes raw)
  obtain ⟨semicolons, hall, hline⟩ := exists_dropEndWhile (· == ';') (uncomment raw)
  have hsemicolons : semicolons = List.replicate semicolons.length ';' :=
    List.eq_replicate_length.2 fun c hc => by simpa using hall c hc
  rw [hsemicolons] at hline
  refine ⟨lead, dropEndWhile (· == ';') (uncomment raw), trail, semicolons.length, hlead, htrail,
    ?_, hline, ?_⟩
  · simpa [endsAtSemicolons] using h
  · rw [List.append_assoc lead, ← hline]
    exact hraw

/-! ## Line by line -/

/-- What is collected before a line, by the reader and for the next piece. -/
structure Together (pending opened : List Char) : Prop where
  not_mem_pending : ';' ∉ pending
  not_mem_opened : ';' ∉ opened
  sameWords : words pending = words opened

variable {pending opened : List Char}

lemma Together.line (h : Together pending opened) {lead core : List Char} (hlead : AllBlank lead)
    (hcore : ';' ∉ core) :
    Together (pending ++ ' ' :: core) (opened ++ '\n' :: (lead ++ core)) where
  not_mem_pending := by simp [h.not_mem_pending, hcore]
  not_mem_opened := by simp [h.not_mem_opened, hcore, semicolon_not_mem hlead]
  sameWords := by
    rw [words_append_blank (by decide), words_append_blank (by decide), h.sameWords,
      words_allBlank_append hlead]

lemma Together.blanks (h : Together pending opened) {trail : List Char} (htrail : AllBlank trail) :
    Together pending (opened ++ trail) where
  not_mem_pending := h.not_mem_pending
  not_mem_opened := by simp [h.not_mem_opened, semicolon_not_mem htrail]
  sameWords := by rw [words_append_allBlank htrail, h.sameWords]

/-- What is read at a semicolon is what is read of the piece that ends there. -/
lemma Together.read_strip (h : Together pending opened) (n : Nat) :
    Combinator.read (Combinator.strip (pending ++ List.replicate (n + 1) ';')) =
      Combinator.read opened := by
  rw [Combinator.strip_append_semicolons h.not_mem_pending]
  apply Combinator.read_eq_of_words
  · exact mt Combinator.mem_of_mem_trim h.not_mem_pending
  · exact h.not_mem_opened
  · rw [words_trim, h.sameWords]

lemma Together.isEmpty_strip (h : Together pending opened) (n : Nat) :
    (Combinator.strip (pending ++ List.replicate (n + 1) ';')).isEmpty = opened.all isBlank := by
  have hblank : trim pending = [] ↔ AllBlank opened := by
    rw [← (trimmed_trim pending).words_eq_nil, words_trim, h.sameWords, words_eq_nil]
  rw [Combinator.strip_append_semicolons h.not_mem_pending, Bool.eq_iff_iff, List.isEmpty_iff,
    hblank, List.all_eq_true]
  rfl

section

variable {raw lead core trail : List Char} {n : Nat}

/-- A line that closes nothing is collected. -/
lemma itemsFrom_line (number : Nat) (place : Section) (pending : List Char)
    (rest : List (List Char)) (hmark : sectionMark? (uncomment raw) = none)
    (hopen : ';' ∉ uncomment raw) :
    itemsFrom number place pending (raw :: rest) =
      itemsFrom (number + 1) place
        (if uncomment raw = [] then pending else pending ++ ' ' :: uncomment raw) rest := by
  have hlast : (uncomment raw).getLast? ≠ some ';' := fun h => hopen (List.mem_of_getLast? h)
  by_cases hempty : uncomment raw = []
  · simp [itemsFrom, hempty]
  · simp [itemsFrom, hempty, hmark, hlast]

/-- A line that closes a declaration has it read, unless it is empty. -/
lemma itemsFrom_closing (number : Nat) (place : Section) (pending : List Char)
    (rest : List (List Char)) (hmark : sectionMark? (uncomment raw) = none)
    (hline : uncomment raw = core ++ List.replicate (n + 1) ';') :
    let declaration := Combinator.strip (pending ++ ' ' :: core ++ List.replicate (n + 1) ';')
    itemsFrom number place pending (raw :: rest) =
      (if declaration.isEmpty then [] else
        [⟨number, (Combinator.read declaration).map ({ · with place })⟩])
        ++ itemsFrom (number + 1) place [] rest := by
  intro declaration
  have hlast : (uncomment raw).getLast? = some ';' := by
    rw [hline, List.replicate_succ', ← List.append_assoc, List.getLast?_concat]
  have hempty : (uncomment raw).isEmpty = false := by simp [hline]
  have hdeclaration : Combinator.strip (pending ++ ' ' :: uncomment raw) = declaration := by
    rw [hline, ← List.cons_append, ← List.append_assoc]
  rw [itemsFrom, hempty, if_neg (by simp), hmark]
  simp only [hlast, if_true, hdeclaration]
  split_ifs <;> rfl

lemma piecesFrom_line (place : Section) (rest : List (List Char))
    (hmark : sectionMark? (uncomment raw) = none) (hopened : ';' ∉ opened)
    (hraw : ';' ∉ beforeSlashes raw) :
    piecesFrom place opened (raw :: rest) =
      piecesFrom place (opened ++ '\n' :: beforeSlashes raw) rest := by
  rw [piecesFrom, hmark]
  simp only []
  rw [pieces_of_not_mem (by simp [hopened, hraw])]
  rfl

lemma piecesFrom_closing (place : Section) (rest : List (List Char))
    (hmark : sectionMark? (uncomment raw) = none)
    (h : ';' ∉ opened ++ '\n' :: (lead ++ core)) (htrail : ';' ∉ trail)
    (hraw : beforeSlashes raw = lead ++ core ++ List.replicate (n + 1) ';' ++ trail) :
    piecesFrom place opened (raw :: rest) =
      ⟨place, opened ++ '\n' :: (lead ++ core)⟩ :: List.replicate n ⟨place, []⟩
        ++ piecesFrom place trail rest := by
  have hcut : Text.pieces ';' (opened ++ '\n' :: beforeSlashes raw) =
      ((opened ++ '\n' :: (lead ++ core)) :: List.replicate n []) ++ [trail] := by
    rw [hraw, List.replicate_succ, List.cons_append, ← pieces_replicate htrail,
      ← pieces_append_cons h]
    simp
  rw [piecesFrom, hmark]
  simp only [hcut, List.dropLast_concat, List.getLastD_concat, List.map_cons, List.map_replicate]

end

/-- What is read at a semicolon, as a list that is empty if there is nothing to read. -/
lemma Together.outcome_closing (h : Together pending opened) (number : Nat) (place : Section)
    (n : Nat) :
    let declaration := Combinator.strip (pending ++ List.replicate (n + 1) ';')
    let item : Item := ⟨number, (Combinator.read declaration).map ({ · with place })⟩
    (if declaration.isEmpty then [] else [item]).map (·.outcome) =
      ((⟨place, opened⟩ :: List.replicate n (⟨place, []⟩ : Piece)).filter (!·.isBlank)).map
        Piece.outcome := by
  intro declaration item
  have hempty : (List.replicate n (⟨place, []⟩ : Piece)).filter (!·.isBlank) = [] := by
    simp [Piece.isBlank]
  rw [List.filter_cons, hempty, h.isEmpty_strip]
  cases hblank : opened.all Text.isBlank with
  | true => simp [Piece.isBlank, hblank]
  | false => simp [item, declaration, h.read_strip, Piece.isBlank, Piece.outcome, hblank]

/-- **What a file declares is closed pieces.**  Where nothing follows the semicolons of a line, the
pieces that are closed and not blank are read, each on its own. -/
lemma outcomes_itemsFrom (number : Nat) (place : Section) (h : Together pending opened)
    {ls : List (List Char)} (hls : ∀ raw ∈ ls, endsAtSemicolons raw = true) :
    (itemsFrom number place pending ls).map (·.outcome) =
      ((piecesFrom place opened ls).dropLast.filter (!·.isBlank)).map Piece.outcome := by
  induction ls generalizing number place pending opened with
  | nil => rfl
  | cons raw rest ih =>
      obtain ⟨hhead, htail⟩ := List.forall_mem_cons.1 hls
      obtain ⟨lead, core, trail, n, hlead, htrail, hcore, hline, hraw⟩ := exists_semicolons hhead
      cases hmark : sectionMark? (uncomment raw) with
      | some place' =>
          have hempty : (uncomment raw).isEmpty = false := by
            cases hu : uncomment raw with
            | nil => simp [hu, sectionMark?] at hmark
            | cons _ _ => rfl
          rw [itemsFrom, piecesFrom, hmark, hempty, if_neg (by simp)]
          exact ih (number + 1) place' h htail
      | none =>
          have hcollected := h.line hlead hcore
          cases n with
          | zero =>
              rw [List.replicate_zero, List.append_nil] at hline hraw
              have hfree : ';' ∉ beforeSlashes raw := by
                simp [hraw, hcore, semicolon_not_mem hlead, semicolon_not_mem htrail]
              rw [itemsFrom_line _ _ _ _ hmark (hline ▸ hcore),
                piecesFrom_line _ _ hmark h.not_mem_opened hfree, hraw, hline]
              refine ih (number + 1) place ?_ htail
              split_ifs with hempty
              · refine h.blanks ?_
                rw [hempty, List.append_nil]
                exact List.forall_mem_cons.2 ⟨by decide, List.forall_mem_append.2 ⟨hlead, htrail⟩⟩
              · simpa using hcollected.blanks htrail
          | succ n =>
              have hnext : Together [] trail :=
                ⟨List.not_mem_nil, semicolon_not_mem htrail, (words_eq_nil.2 htrail).symm⟩
              rw [itemsFrom_closing _ _ _ _ hmark hline, piecesFrom_closing _ _ hmark
                hcollected.not_mem_opened (semicolon_not_mem htrail) hraw,
                List.dropLast_append_of_ne_nil (piecesFrom_ne_nil _ _ _), List.filter_append,
                List.map_append, List.map_append, ih (number + 1) place hnext htail,
                hcollected.outcome_closing]

end TypeLang.Declaration
