import TypeLang.Proofs.Declaration.Spelling
import TypeLang.Proofs.Declaration.TermText
import TypeLang.Proofs.Plan.Making
import TypeLang.Proofs.Schema.Building
import TypeLang.Proofs.Text.Numeral

/-!
# Declarations are read as they are written

A declaration is not written as it was read: its number is spelled out, the type variables that it
uses are declared in front of the arguments, each once and in the order of their characters, and
those that it does not use are left out.  What is read from this is the declaration again.

The words of the text carry the proof.  Left of the equals sign they are the name with the number,
the declarations of variables and the arguments, and each is read as what it was written for.
-/

namespace TypeLang

open Text

namespace Text

/-! ## Repetitions -/

lemma mem_eraseReps {x : String} {as : List String} : x ∈ as.eraseReps ↔ x ∈ as := by
  have hloop : ∀ (as : List String) (a : String) (acc : List String),
      x ∈ List.eraseRepsBy.loop (· == ·) a as acc ↔ x = a ∨ x ∈ as ∨ x ∈ acc := by
    intro as
    induction as with
    | nil => simp [List.eraseRepsBy.loop, or_comm]
    | cons b rest ih =>
        intro a acc
        rw [List.eraseRepsBy.loop]
        cases hab : a == b with
        | true =>
            rw [ih, eq_of_beq hab, List.mem_cons]
            tauto
        | false =>
            rw [ih, List.mem_cons, List.mem_cons]
            tauto
  cases as with
  | nil => simp [List.eraseReps, List.eraseRepsBy]
  | cons a rest => simpa [List.eraseReps, List.eraseRepsBy] using hloop rest a []

end Text

namespace Declaration

/-! ## Names in a declaration -/

/-- Whether every name in a term is made of identifiers. -/
def TypeTerm.hasIdentifiers : TypeTerm → Bool
  | plain head => head.name.isProper
  | applied head arg => head.name.isProper && arg.hasIdentifiers

/-- Whether every name in what follows the colon is made of identifiers. -/
def ArgType.hasIdentifiers : ArgType → Bool
  | flagWord => true
  | value type gate => type.hasIdentifiers && gate.all (isIdentifier ·.word)

/-- Whether every name in a declaration is made of identifiers. -/
def Combinator.hasIdentifiers (d : Combinator) : Bool :=
  d.name.isProper && d.args.all (fun arg => isIdentifier arg.name && arg.type.hasIdentifiers) &&
    d.result.hasIdentifiers

lemma isPlain_of_mem_hexDigits {width n : ℕ} {c : Char} (h : c ∈ hexDigits width n) :
    Declaration.isPlain c = true := by
  obtain ⟨k, hk, rfl⟩ := mem_hexDigits h
  have hall : ∀ k < 16, Declaration.isPlain (hexDigit k) = true := by decide
  exact hall k hk

/-! ## What is known of a term, an argument or a gate that was read -/

/-- A term that was read has proper heads, if its names are made of identifiers. -/
lemma TypeTerm.isProper_of_read {s : List Char} {t : TypeTerm} (h : TypeTerm.read s = .ok t)
    (ht : t.hasIdentifiers = true) : t.IsProper := by
  fun_induction TypeTerm.read s generalizing t with
  | case1 s marked unmarked bare generic percent =>
      obtain ⟨head, hhead, rfl⟩ := map_eq_ok.1 h
      exact ⟨ht, (TypeHead.eq_of_read hhead).2⟩
  | case2 => cases h
  | case3 => cases h
  | case4 s marked unmarked bare generic percent name rest hopen inner hclosed arg harg =>
      rename_i ih
      obtain ⟨head, hhead, rfl⟩ := map_eq_ok.1 h
      obtain ⟨hname, hinner⟩ := Bool.and_eq_true_iff.1 ht
      exact ⟨⟨hname, (TypeHead.eq_of_read hhead).2⟩, ih harg hinner⟩

/-- A gate by which an argument may be written: it names an identifier and one of 32 bits. -/
structure FlagBit.IsProper (bit : FlagBit) : Prop where
  word : isIdentifier bit.word = true
  bit : bit.bit < 32

lemma FlagBit.bit_lt_of_read? {s : List Char} {bit : FlagBit} (h : FlagBit.read? s = some bit) :
    bit.bit < 32 := by
  unfold FlagBit.read? at h
  split at h
  case h_1 => cases h
  case h_2 word position hcut =>
    split_ifs at h
    split at h
    case h_1 n hn =>
      cases h
      exact Nat.lt_succ_of_le (natural_le hn)
    case h_2 => cases h

/-- What follows a colon in words that are read again. -/
def ArgType.IsProper : ArgType → Prop
  | flagWord => True
  | value type gate => type.IsProper ∧ ∀ bit ∈ gate, bit.IsProper

lemma ArgType.isProper_of_read {s : List Char} {t : ArgType} (h : ArgType.read s = .ok t)
    (ht : t.hasIdentifiers = true) : t.IsProper := by
  unfold ArgType.read at h
  split_ifs at h with hhash
  · cases h
    trivial
  · split at h
    case h_1 =>
      obtain ⟨type, htype, rfl⟩ := map_eq_ok.1 h
      have hidentifiers : type.hasIdentifiers = true := by simpa [hasIdentifiers] using ht
      exact ⟨TypeTerm.isProper_of_read htype hidentifiers, fun bit hbit => nomatch hbit⟩
    case h_2 before after hcut =>
      split at h
      case h_1 => cases h
      case h_2 bit hbit =>
        split_ifs at h
        obtain ⟨type, htype, rfl⟩ := map_eq_ok.1 h
        obtain ⟨hidentifiers, hword⟩ := Bool.and_eq_true_iff.1 ht
        refine ⟨TypeTerm.isProper_of_read htype hidentifiers, fun bit' hbit' => ?_⟩
        obtain rfl := Option.some.inj hbit'
        exact ⟨hword, FlagBit.bit_lt_of_read? hbit⟩

/-- The names of a term, its type variables among them, are identifiers. -/
lemma TypeTerm.isIdentifier_of_mem_typeVars {t : TypeTerm} (ht : t.IsProper) {x : String}
    (hx : x ∈ t.typeVars) : isIdentifier x = true := by
  have hhead : ∀ {head : TypeHead}, head.IsProper →
      x ∈ (if head.generic then [head.name.last] else []) → isIdentifier x = true := by
    intro head hhead hx
    split_ifs at hx
    · obtain rfl := List.mem_singleton.1 hx
      exact (QualifiedName.isProper_iff.1 hhead.name).2
    · cases hx
  induction t with
  | plain head => exact hhead ht hx
  | applied head arg ih =>
      rcases List.mem_append.1 hx with hx | hx
      · exact hhead ht.1 hx
      · exact ih ht.2 hx

lemma ArgType.isIdentifier_of_mem_typeVars {t : ArgType} (ht : t.IsProper) {x : String}
    (hx : x ∈ t.typeVars) : isIdentifier x = true := by
  cases t with
  | flagWord => cases hx
  | value type gate => exact TypeTerm.isIdentifier_of_mem_typeVars ht.1 hx

/-! ## Arguments -/

namespace FlagBit

variable {bit : FlagBit} (h : bit.IsProper)

include h

lemma mem_chars {c : Char} (hc : c ∈ bit.chars) : isPlain c = true ∨ c = '.' := by
  have hdigits : ∀ n < 32, (Nat.toDigits 10 n).all isPlain = true := by decide
  rcases List.mem_append.1 hc with hc | hc
  · exact .inl (isPlain_of_mem h.word hc)
  · rcases List.mem_cons.1 hc with hc | hc
    · exact .inr hc
    · exact .inl (List.all_eq_true.1 (hdigits bit.bit h.bit) c hc)

/-- A gate is read as it is written. -/
lemma read?_chars : read? bit.chars = some bit := by
  have hcut : cutAtChar '.' bit.chars = some (bit.word.toList, Nat.toDigits 10 bit.bit) := by
    refine cutAt_eq_some_of_first (fun c hc => beq_false_of_ne ?_) (by decide)
    rintro rfl
    exact absurd (isPlain_of_mem h.word hc) (by decide)
  have hposition : ∀ n < 32, natural 10 31 (Nat.toDigits 10 n) = .ok n := by decide
  obtain ⟨c, rest, hchars, -⟩ := exists_letter h.word
  have hempty : bit.word.toList.isEmpty = false := by rw [hchars]; rfl
  simp only [read?, hcut, hempty, hposition bit.bit h.bit, String.ofList_toList]
  rfl

end FlagBit

namespace ArgType

variable {t : ArgType} (h : t.IsProper)

include h

lemma mem_chars {c : Char} (hc : c ∈ t.chars) :
    isPlain c = true ∨ c ∈ ['.', '!', '%', '<', '>', '#', '?'] := by
  have hterm : ∀ {type : TypeTerm}, type.IsProper → c ∈ type.chars →
      isPlain c = true ∨ c ∈ ['.', '!', '%', '<', '>', '#', '?'] := by
    intro type htype hc
    refine (TypeTerm.mem_chars htype hc).imp_right fun h => ?_
    exact List.mem_append_left ['#', '?'] h
  cases t with
  | flagWord =>
      obtain rfl := List.mem_singleton.1 hc
      exact .inr (by decide)
  | value type gate =>
      cases gate with
      | none => exact hterm h.1 hc
      | some bit =>
          rcases List.mem_append.1 hc with hc | hc
          · rcases FlagBit.mem_chars (h.2 bit rfl) hc with hc | rfl
            · exact .inl hc
            · exact .inr (by decide)
          · rcases List.mem_cons.1 hc with rfl | hc
            · exact .inr (by decide)
            · exact hterm h.1 hc

lemma chars_ne_nil : t.chars ≠ [] := by
  cases t with
  | flagWord => exact List.cons_ne_nil _ _
  | value type gate =>
      cases gate with
      | none => exact TypeTerm.chars_ne_nil h.1
      | some bit => exact List.append_ne_nil_of_right_ne_nil _ (List.cons_ne_nil _ _)

/-- What follows a colon is read as it is written. -/
lemma read_chars : read t.chars = .ok t := by
  cases t with
  | flagWord => rfl
  | value type gate =>
      have htype := TypeTerm.read_chars h.1
      have hquestion : '?' ∉ type.chars := fun hc =>
        absurd (TypeTerm.mem_chars h.1 hc) (by decide)
      cases gate with
      | none =>
          have hhash : type.chars ≠ ['#'] := by
            intro heq
            have hc : '#' ∈ type.chars := by simp [heq]
            exact absurd (TypeTerm.mem_chars h.1 hc) (by decide)
          have hcut : cutAtChar '?' type.chars = none :=
            cutAt_eq_none.2 fun c hc => beq_false_of_ne fun hc' => hquestion (hc' ▸ hc)
          simp only [read, chars, if_neg hhash, hcut, htype]
          rfl
      | some bit =>
          have hbit := h.2 bit rfl
          have hcut : cutAtChar '?' (bit.chars ++ '?' :: type.chars) =
              some (bit.chars, type.chars) := by
            refine cutAt_eq_some_of_first (fun c hc => beq_false_of_ne ?_) (by decide)
            rintro rfl
            exact absurd (FlagBit.mem_chars hbit hc) (by decide)
          have hhash : bit.chars ++ '?' :: type.chars ≠ ['#'] := by
            intro heq
            have hc : '?' ∈ ['#'] := by simp [← heq]
            exact absurd hc (by decide)
          have hcontains : type.chars.contains '?' = false := by simpa using hquestion
          simp only [read, chars, if_neg hhash, hcut, FlagBit.read?_chars hbit, hcontains, htype]
          rfl

end ArgType

namespace Arg

/-- Whether a token declares a type variable, and which. -/
def declared? (token : List Char) : Option String :=
  match read token with
  | .error (.declaresVariable name) => some name
  | _ => none

lemma exists_read_type {token : List Char} {a : Arg} (h : read token = .ok a) :
    ∃ text, ArgType.read text = .ok a.type := by
  unfold read at h
  split at h
  case h_1 => split at h <;> cases h
  case h_2 =>
    split at h
    case h_1 => cases h
    case h_2 name text hcut =>
      split_ifs at h
      obtain ⟨type, htype, rfl⟩ := map_eq_ok.1 h
      exact ⟨text, htype⟩

/-- An argument is read as it is written. -/
lemma read_chars {a : Arg} (hname : isIdentifier a.name = true) (htype : a.type.IsProper) :
    read a.chars = .ok a := by
  obtain ⟨name, type⟩ := a
  obtain ⟨c, rest, hchars, hc⟩ := exists_letter hname
  have hbrace : c ≠ '{' := by
    rintro rfl
    exact absurd hc (by decide)
  have hcut : cutAtChar ':' (name.toList ++ ':' :: type.chars) =
      some (name.toList, type.chars) := by
    refine cutAt_eq_some_of_first (fun d hd => beq_false_of_ne ?_) (by decide)
    rintro rfl
    exact absurd (isPlain_of_mem hname hd) (by decide)
  have hempty : (name.toList.isEmpty || type.chars.isEmpty) = false := by
    simp [hchars, ArgType.chars_ne_nil htype]
  unfold read chars
  split
  case h_1 inner heq =>
    rw [hchars] at heq
    exact absurd (List.head_eq_of_cons_eq heq) hbrace
  case h_2 =>
    simp only [hcut, hempty, ArgType.read_chars htype, String.ofList_toList]
    rfl

lemma read_variableToken (name : String) :
    read (Combinator.variableToken name) = .error (.declaresVariable name) := by
  have htail := beforeTail?_append name.toList [':', 'T', 'y', 'p', 'e', '}']
  simp only [Combinator.variableToken, List.cons_append, read, htail, String.ofList_toList]

lemma unbroken_chars {a : Arg} (hname : isIdentifier a.name = true) (htype : a.type.IsProper) :
    Unbroken a.chars := by
  intro c hc
  rcases List.mem_append.1 hc with hc | hc
  · exact isBlank_of_isPlain (isPlain_of_mem hname hc)
  · rcases List.mem_cons.1 hc with rfl | hc
    · decide
    · rcases ArgType.mem_chars htype hc with hc | hc
      · exact isBlank_of_isPlain hc
      · have hothers : ['.', '!', '%', '<', '>', '#', '?'].all (isBlank · == false) = true := by
          decide
        exact eq_of_beq (List.all_eq_true.1 hothers c hc)

end Arg

namespace Combinator

/-! ## Rows of arguments -/

lemma readArgs_variables (names vars : List String) (earlier : List Arg)
    (rest : List (List Char)) :
    readArgs vars earlier (names.map variableToken ++ rest) =
      readArgs (vars ++ names) earlier rest := by
  induction names generalizing vars with
  | nil => simp
  | cons name names ih =>
      rw [List.map_cons, List.cons_append, readArgs, Arg.read_variableToken]
      simp only
      rw [ih, List.append_assoc, List.singleton_append]

/-- Where more type variables are declared, an argument is in scope as well. -/
lemma isScoped_of_vars {vars all : List String} {earlier : List Arg} {arg : Arg}
    (h : isScoped vars earlier arg = true) (hall : ∀ x ∈ arg.type.typeVars, x ∈ all) :
    isScoped all earlier arg = true := by
  obtain ⟨name, type⟩ := arg
  cases type with
  | flagWord => rfl
  | value type gate =>
      simp only [isScoped, Bool.and_eq_true] at h ⊢
      refine ⟨?_, h.2⟩
      cases hgeneric : type.head.generic with
      | false => rfl
      | true =>
          have hmem : type.head.name.last ∈ type.typeVars := by
            cases type <;> simp_all [TypeTerm.head, TypeTerm.typeVars]
          simpa using hall _ hmem

/-- Arguments that were read are read as they are written, whatever is declared before them, as long
as it has the type variables that they use. -/
lemma readArgs_again {vars vars' : List String} {earlier args : List Arg}
    {tokens : List (List Char)} (h : readArgs vars earlier tokens = .ok (vars', args)) :
    ∃ more, args = earlier ++ more ∧ (∀ a ∈ more, ∃ token, Arg.read token = .ok a) ∧
      ∀ all, (∀ a ∈ more, Arg.read a.chars = .ok a) →
        (∀ a ∈ more, ∀ x ∈ a.type.typeVars, x ∈ all) →
          readArgs all earlier (more.map Arg.chars) = .ok (all, args) := by
  fun_induction readArgs vars earlier tokens with
  | case1 vars earlier =>
      cases h
      exact ⟨[], by simp, by simp, fun all _ _ => rfl⟩
  | case2 vars earlier token rest name hread ih => exact ih h
  | case3 => cases h
  | case4 => cases h
  | case5 vars earlier token rest arg hread hscoped ih =>
      obtain ⟨more, rfl, htokens, hagain⟩ := ih h
      refine ⟨arg :: more, by simp, List.forall_mem_cons.2 ⟨⟨token, hread⟩, htokens⟩, ?_⟩
      intro all hreads hvars
      obtain ⟨harg, hmore⟩ := List.forall_mem_cons.1 hreads
      obtain ⟨hargVars, hmoreVars⟩ := List.forall_mem_cons.1 hvars
      rw [List.map_cons, readArgs, harg]
      simp only [isScoped_of_vars hscoped hargVars, if_true]
      exact hagain all hmore hmoreVars
  | case6 => cases h

/-- The type variables of some tokens are those that they declare. -/
lemma vars_of_readArgs {vars vars' : List String} {earlier args : List Arg}
    {tokens : List (List Char)} (h : readArgs vars earlier tokens = .ok (vars', args)) :
    vars' = vars ++ tokens.filterMap Arg.declared? := by
  fun_induction readArgs vars earlier tokens with
  | case1 vars earlier =>
      cases h
      simp
  | case2 vars earlier token rest name hread ih =>
      have hdeclared : Arg.declared? token = some name := by rw [Arg.declared?, hread]
      rw [ih h, List.filterMap_cons_some hdeclared, List.append_assoc, List.singleton_append]
  | case3 => cases h
  | case4 => cases h
  | case5 vars earlier token rest arg hread hscoped ih =>
      have hdeclared : Arg.declared? token = none := by rw [Arg.declared?, hread]
      rw [ih h, List.filterMap_cons_none hdeclared]
  | case6 => cases h

/-! ## Whole declarations -/

/-- The type variables that a text declares left of its equals sign. -/
def declaredVars (s : List Char) : List String :=
  match cutAtChar '=' (strip s) with
  | some (left, _) => (words left).tail.filterMap Arg.declared?
  | none => []

/-- What comes of a text that was read: its tokens are read as the arguments, and the term right of
the equals sign is the result, marked if it is a declared variable. -/
structure ReadFrom (s : List Char) (d : Combinator) (tokens : List (List Char)) (term : TypeTerm) :
    Prop where
  args : readArgs [] [] tokens = .ok (declaredVars s, d.args)
  written : ∃ text, TypeTerm.read text = .ok term
  result : d.result =
    if (declaredVars s).contains term.head.name.last then term.markGeneric else term
  place : d.place = .types

lemma exists_read_of_readResult {s : List Char} {term : TypeTerm}
    (h : readResult s = .ok term) : ∃ text, TypeTerm.read text = .ok term := by
  unfold readResult at h
  split_ifs at h
  exact ⟨s, mapError_eq_ok.1 h⟩

lemma exists_readFrom {s : List Char} {d : Combinator} (h : read s = .ok d) :
    ∃ tokens term, ReadFrom s d tokens term := by
  unfold read at h
  simp only at h
  split_ifs at h with hempty
  · cases h
  · split at h
    case h_1 => cases h
    case h_2 left right hcut =>
      obtain ⟨term, hterm, h⟩ := bind_eq_ok.1 h
      split at h
      case h_1 => cases h
      case h_2 name hname =>
        obtain ⟨id, -, h⟩ := bind_eq_ok.1 h
        obtain ⟨⟨vars, args⟩, hargs, h⟩ := bind_eq_ok.1 h
        cases h
        have hvars : vars = declaredVars s := by
          rw [vars_of_readArgs hargs, declaredVars, hcut, (halves_trim left).2]
          rfl
        subst hvars
        refine ⟨_, term, hargs, exists_read_of_readResult hterm, ?_, rfl⟩
        dsimp only

lemma mem_typeVars {d : Combinator} {x : String} :
    x ∈ d.typeVars ↔ ∃ a ∈ d.args, x ∈ a.type.typeVars := by
  rw [typeVars, mem_eraseReps, List.mem_mergeSort, List.mem_flatMap]

/-- The words of a declaration between its number and its equals sign. -/
def tokens (d : Combinator) : List (List Char) :=
  d.typeVars.map variableToken ++ d.args.map Arg.chars

/-- The name of a declaration with its number. -/
def label (d : Combinator) : List Char :=
  d.name.chars ++ '#' :: hexDigits 8 d.id.toNat

lemma chars_eq (d : Combinator) : d.chars =
    (d.label ++ d.tokens.flatMap (' ' :: ·) ++ [' ']) ++ '=' :: ' ' :: d.result.chars := by
  simp [chars, label, tokens, List.flatMap_append, List.flatMap_map, List.append_assoc]

/-- A character that stands in a word left of the equals sign. -/
def isWritten (c : Char) : Bool :=
  isPlain c || ['.', '!', '%', '<', '>', '#', '?', ':', '{', '}'].contains c

lemma isBlank_of_isWritten {c : Char} (h : isWritten c = true) : isBlank c = false := by
  rcases Bool.or_eq_true_iff.1 h with h | h
  · exact isBlank_of_isPlain h
  · have hothers : ['.', '!', '%', '<', '>', '#', '?', ':', '{', '}'].all
        (isBlank · == false) = true := by decide
    exact eq_of_beq (List.all_eq_true.1 hothers c (List.contains_iff_mem.1 h))

/-- A declaration whose parts are read as they are written. -/
structure IsProper (d : Combinator) : Prop where
  name : d.name.isProper = true
  args : ∀ a ∈ d.args, isIdentifier a.name = true ∧ a.type.IsProper
  result : d.result.IsProper
  vars : ∀ x ∈ d.typeVars, isIdentifier x = true

section

variable {d : Combinator} (h : d.IsProper)

include h

lemma isWritten_label {c : Char} (hc : c ∈ d.label) : isWritten c = true := by
  rcases List.mem_append.1 hc with hc | hc
  · rcases QualifiedName.mem_chars h.name hc with hc | rfl
    · simp [isWritten, hc]
    · decide
  · rcases List.mem_cons.1 hc with rfl | hc
    · decide
    · simp [isWritten, isPlain_of_mem_hexDigits hc]

lemma isWritten_token {w : List Char} (hw : w ∈ d.tokens) {c : Char} (hc : c ∈ w) :
    isWritten c = true := by
  rcases List.mem_append.1 hw with hw | hw
  · obtain ⟨x, hx, rfl⟩ := List.mem_map.1 hw
    have hkeyword : ['{', ':', 'T', 'y', 'p', 'e', '}'].all isWritten = true := by decide
    simp only [variableToken, List.cons_append, List.mem_cons, List.mem_append] at hc
    by_cases hname : c ∈ x.toList
    · simp [isWritten, isPlain_of_mem (h.vars x hx) hname]
    · refine List.all_eq_true.1 hkeyword c ?_
      simp only [List.mem_cons]
      tauto
  · obtain ⟨a, ha, rfl⟩ := List.mem_map.1 hw
    obtain ⟨hname, htype⟩ := h.args a ha
    rcases List.mem_append.1 hc with hc | hc
    · simp [isWritten, isPlain_of_mem hname hc]
    · rcases List.mem_cons.1 hc with rfl | hc
      · decide
      · rcases ArgType.mem_chars htype hc with hc | hc
        · simp [isWritten, hc]
        · have hothers : ['.', '!', '%', '<', '>', '#', '?'].all isWritten = true := by decide
          exact List.all_eq_true.1 hothers c hc

omit h in
lemma token_ne_nil {w : List Char} (hw : w ∈ d.tokens) : w ≠ [] := by
  rcases List.mem_append.1 hw with hw | hw
  · obtain ⟨x, -, rfl⟩ := List.mem_map.1 hw
    exact List.cons_ne_nil _ _
  · obtain ⟨a, -, rfl⟩ := List.mem_map.1 hw
    exact List.append_ne_nil_of_right_ne_nil _ (List.cons_ne_nil _ _)

/-- The words left of the equals sign. -/
lemma words_left :
    words (d.label ++ d.tokens.flatMap (' ' :: ·) ++ [' ']) = d.label :: d.tokens := by
  have hlabel : Unbroken d.label := fun c hc => isBlank_of_isWritten (isWritten_label h hc)
  have hne : d.label ≠ [] := List.append_ne_nil_of_right_ne_nil _ (List.cons_ne_nil _ _)
  have htokens : ∀ w ∈ d.tokens, Unbroken w ∧ w ≠ [] := fun w hw =>
    ⟨fun c hc => isBlank_of_isWritten (isWritten_token h hw hc), token_ne_nil hw⟩
  rw [words_append_blank (by decide), words_nil, List.append_nil,
    words_append_spaced hlabel hne, words_spaced htokens]

lemma mem_left {c : Char} (hc : c ∈ d.label ++ d.tokens.flatMap (' ' :: ·) ++ [' ']) :
    isWritten c = true ∨ c = ' ' := by
  rcases List.mem_append.1 hc with hc | hc
  · rcases List.mem_append.1 hc with hc | hc
    · exact .inl (isWritten_label h hc)
    · obtain ⟨w, hw, hc⟩ := List.mem_flatMap.1 hc
      rcases List.mem_cons.1 hc with hc | hc
      · exact .inr hc
      · exact .inl (isWritten_token h hw hc)
  · exact .inr (List.mem_singleton.1 hc)

/-- A declaration that is written stands between no blanks, and no semicolon is in it. -/
lemma strip_chars : strip d.chars = d.chars := by
  have hsemicolon : ';' ∉ d.chars := by
    rw [chars_eq, List.mem_append, List.mem_cons, List.mem_cons]
    rintro (hc | hc | hc | hc)
    · exact absurd (mem_left h hc) (by decide)
    · exact absurd hc (by decide)
    · exact absurd hc (by decide)
    · exact absurd (TypeTerm.mem_chars h.result hc) (by decide)
  have hhead : ∀ c ∈ d.chars.head?, isBlank c = false := by
    obtain ⟨c, rest, hchars, hc⟩ := QualifiedName.exists_chars h.name
    have hfirst : d.chars.head? = some c := by simp [chars, hchars]
    intro c' hc'
    obtain rfl := Option.some.inj (hfirst.symm.trans hc')
    exact isBlank_of_isPlain (isPlain_of_isAlpha hc)
  have hlast : ∀ c ∈ d.chars.getLast?, isBlank c = false := by
    obtain ⟨before, c, hresult⟩ := List.eq_nil_or_concat d.result.chars |>.resolve_left
      (TypeTerm.chars_ne_nil h.result)
    have hend : d.chars.getLast? = some c := by
      rw [chars_eq, hresult, List.concat_eq_append, ← List.cons_append, ← List.cons_append,
        ← List.append_assoc, List.getLast?_concat]
    intro c' hc'
    obtain rfl := Option.some.inj (hend.symm.trans hc')
    exact TypeTerm.unbroken_chars h.result c (by simp [hresult])
  have htrim := trim_of_ends hhead hlast
  rw [strip_eq_trim hsemicolon, htrim, htrim]

omit h in
lemma readId_label (d : Combinator) :
    readId d.chars (some (hexDigits 8 d.id.toNat)) = .ok d.id := by
  have hunbroken : Unbroken (hexDigits 8 d.id.toNat) := fun c hc =>
    isBlank_of_isPlain (isPlain_of_mem_hexDigits hc)
  have hne : hexDigits 8 d.id.toNat ≠ [] := by simp [hexDigits]
  have hplus : '+' ∉ hexDigits 8 d.id.toNat := fun hc =>
    absurd (isPlain_of_mem_hexDigits hc) (by decide)
  have hlt : d.id.toNat < 16 ^ 8 := d.id.toNat_lt
  have hlimit : d.id.toNat ≤ Nat.pow 2 32 - 1 := Nat.le_sub_one_of_lt d.id.toNat_lt
  rw [readId, trim_of_unbroken hunbroken, natural_of_plain hne hplus,
    digits_hexDigits 8 _ hlt hlimit]
  simp

/-- The two halves of a declaration, around its equals sign. -/
lemma cut_chars : cutAtChar '=' d.chars =
    some (d.label ++ d.tokens.flatMap (' ' :: ·) ++ [' '], ' ' :: d.result.chars) := by
  rw [chars_eq]
  refine cutAt_eq_some_of_first (fun c hc => beq_false_of_ne ?_) (by decide)
  rintro rfl
  exact absurd (mem_left h hc) (by decide)

/-- The name of a declaration and its number, around the number sign. -/
lemma halves_label :
    halves (· == '#') d.label = (d.name.chars, some (hexDigits 8 d.id.toNat)) := by
  have hcut : cutAt (· == '#') d.label = some (d.name.chars, hexDigits 8 d.id.toNat) := by
    refine cutAt_eq_some_of_first (fun c hc => beq_false_of_ne ?_) (by decide)
    rintro rfl
    exact absurd (QualifiedName.mem_chars h.name hc) (by decide)
  rw [halves, hcut]

lemma readResult_right : readResult (trim (' ' :: d.result.chars)) = .ok d.result := by
  have hspaced : ∀ w ∈ [d.result.chars], Unbroken w ∧ w ≠ [] := by
    simpa using ⟨TypeTerm.unbroken_chars h.result, TypeTerm.chars_ne_nil h.result⟩
  have hwords : words (' ' :: d.result.chars) = [d.result.chars] := by
    simpa using words_spaced hspaced
  rw [readResult_trim, hwords, readResultOf, TypeTerm.read_chars h.result]
  rfl

/-- What is read from a declaration that is written. -/
lemma read_of_isProper (hplace : d.place = .types)
    (hargs : readArgs d.typeVars [] (d.args.map Arg.chars) = .ok (d.typeVars, d.args))
    (hresult : d.result.head.name.last ∈ d.typeVars → d.result.markGeneric = d.result) :
    read d.chars = .ok d := by
  have htokens : readArgs [] [] d.tokens = .ok (d.typeVars, d.args) := by
    rw [tokens, readArgs_variables, List.nil_append, hargs]
  have hempty : d.chars.isEmpty = false := by
    simp [chars]
  have hmarked : (if d.typeVars.contains d.result.head.name.last then d.result.markGeneric
      else d.result) = d.result := by
    split_ifs with hmem
    · exact hresult (List.contains_iff_mem.1 hmem)
    · rfl
  obtain ⟨hhead, hrest⟩ := halves_trim (d.label ++ d.tokens.flatMap (' ' :: ·) ++ [' '])
  rw [words_left h, List.headD_cons] at hhead
  rw [words_left h, List.tail_cons] at hrest
  simp only [read, strip_chars h, hempty, cut_chars h, readResult_right h, hhead,
    halves_label h, hrest, htokens, QualifiedName.read?_chars h.name, readId_label d]
  refine congrArg Except.ok (?_ : Combinator.mk _ _ _ _ _ = d)
  rw [hmarked, ← hplace]

end

/-! ### Marked results -/

lemma isProper_markGeneric {t : TypeTerm} : t.markGeneric.IsProper ↔ t.IsProper := by
  have hhead : ∀ head : TypeHead,
      ({ head with generic := true } : TypeHead).IsProper ↔ head.IsProper :=
    fun head => ⟨fun h => ⟨h.name, h.bare⟩, fun h => ⟨h.name, h.bare⟩⟩
  cases t with
  | plain head => exact hhead head
  | applied head arg => exact and_congr_left' (hhead head)

lemma hasIdentifiers_markGeneric (t : TypeTerm) :
    t.markGeneric.hasIdentifiers = t.hasIdentifiers := by
  cases t <;> rfl

lemma markGeneric_markGeneric (t : TypeTerm) : t.markGeneric.markGeneric = t.markGeneric := by
  cases t <;> rfl

lemma last_markGeneric (t : TypeTerm) :
    t.markGeneric.head.name.last = t.head.name.last := by
  cases t <;> rfl

section

variable {s : List Char} {d : Combinator} {tokens : List (List Char)} {term : TypeTerm}
  (h : ReadFrom s d tokens term)

include h

lemma isProper_result (hnames : d.result.hasIdentifiers = true) : d.result.IsProper := by
  obtain ⟨text, hterm⟩ := h.written
  rw [h.result] at hnames ⊢
  split_ifs at hnames ⊢
  · rw [hasIdentifiers_markGeneric] at hnames
    exact isProper_markGeneric.2 (TypeTerm.isProper_of_read hterm hnames)
  · exact TypeTerm.isProper_of_read hterm hnames

/-- A result that is a declared variable is marked as one. -/
lemma markGeneric_result (hmem : d.result.head.name.last ∈ declaredVars s) :
    d.result.markGeneric = d.result := by
  have hlast : d.result.head.name.last = term.head.name.last := by
    rw [h.result]
    split_ifs
    · exact last_markGeneric term
    · rfl
  rw [h.result, if_pos (List.contains_iff_mem.2 (hlast ▸ hmem)), markGeneric_markGeneric]

end

/-- **A declaration that was read is read again from its text**, if its names are made of
identifiers and the type variables of its arguments, at any depth, are declared. -/
theorem read_text {s : List Char} {d : Combinator} (h : read s = .ok d)
    (hnames : d.hasIdentifiers = true)
    (hvars : ∀ arg ∈ d.args, ∀ x ∈ arg.type.typeVars, x ∈ declaredVars s) :
    read d.text.toList = .ok d := by
  obtain ⟨tokens, term, hfrom⟩ := exists_readFrom h
  obtain ⟨more, hmore, hread, hagain⟩ := readArgs_again hfrom.args
  obtain rfl : d.args = more := hmore
  simp only [hasIdentifiers, Bool.and_eq_true, List.all_eq_true] at hnames
  obtain ⟨⟨hname, hargNames⟩, hresultNames⟩ := hnames
  have hargs : ∀ a ∈ d.args, isIdentifier a.name = true ∧ a.type.IsProper := by
    intro a ha
    obtain ⟨hargName, htypeNames⟩ := hargNames a ha
    obtain ⟨token, htoken⟩ := hread a ha
    obtain ⟨text, htype⟩ := Arg.exists_read_type htoken
    exact ⟨hargName, ArgType.isProper_of_read htype htypeNames⟩
  have hproper : d.IsProper := by
    refine ⟨hname, hargs, isProper_result hfrom hresultNames, fun x hx => ?_⟩
    obtain ⟨a, ha, hx⟩ := mem_typeVars.1 hx
    exact ArgType.isIdentifier_of_mem_typeVars (hargs a ha).2 hx
  have hscope := hagain d.typeVars (fun a ha => Arg.read_chars (hargs a ha).1 (hargs a ha).2)
    fun a ha x hx => mem_typeVars.2 ⟨a, ha, hx⟩
  have hmarked : d.result.head.name.last ∈ d.typeVars → d.result.markGeneric = d.result := by
    intro hmem
    obtain ⟨a, ha, hx⟩ := mem_typeVars.1 hmem
    exact markGeneric_result hfrom (hvars a ha _ hx)
  rw [text, String.toList_ofList]
  exact read_of_isProper hproper hfrom.place hscope hmarked

section

/-- A declaration without a number, with a variable that it does not use and one that it uses within
a vector and as its result. -/
def invokeText : List Char :=
  ("ns.invoke {Y:Type} {X:Type}  flags:# note:flags.3?%Note<storage.kind> query:!X " ++
    "rest:Vector<vector<!X>> = X;").toList

theorem invokeText_read : ∃ d, read invokeText = .ok d ∧ d.hasIdentifiers = true ∧
    (∀ arg ∈ d.args, ∀ x ∈ arg.type.typeVars, x ∈ declaredVars invokeText) ∧
      declaredVars invokeText = ["Y", "X"] ∧ d.result = .plain ⟨⟨[], "X"⟩, false, true⟩ ∧
        read d.text.toList = .ok d := by
  have hall : ((read invokeText).toOption.any fun d => d.hasIdentifiers &&
      d.args.all (fun arg => arg.type.typeVars.all (declaredVars invokeText).contains) &&
        decide (declaredVars invokeText = ["Y", "X"] ∧
          d.result = .plain ⟨⟨[], "X"⟩, false, true⟩)) = true := by
    decide +kernel
  obtain ⟨d, hd, hall⟩ := (Option.any_eq_true _ _).1 hall
  simp only [Bool.and_eq_true, List.all_eq_true, List.contains_iff_mem, decide_eq_true_eq] at hall
  obtain ⟨⟨hnames, hvars⟩, hdeclared, hresult⟩ := hall
  have hread : read invokeText = .ok d := eq_ok_of_toOption hd
  exact ⟨d, hread, hnames, hvars, hdeclared, hresult, read_text hread hnames hvars⟩

end

end Combinator

end Declaration

end TypeLang
