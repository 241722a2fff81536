/-!
# Cutting a text at a character

The small cuts that the readers of declarations are made of: at the first character of a kind
(`cutAt`), at every occurrence of one (`pieces`), and the removal of a fixed head or tail.  Each
function that is used to recurse on a smaller text comes with the length bound that justifies it.
-/

namespace TypeLang.Text

/-- The text before and after the first character that satisfies `p`. -/
def cutAt (p : Char → Bool) : List Char → Option (List Char × List Char)
  | [] => none
  | c :: rest =>
    if p c then some ([], rest)
    else (cutAt p rest).map fun (before, after) => (c :: before, after)

/-- The text before and after the first `c`. -/
def cutAtChar (c : Char) : List Char → Option (List Char × List Char) :=
  cutAt (· == c)

/-- The pieces between the occurrences of `sep`; one more than there are occurrences. -/
def pieces (sep : Char) : List Char → List (List Char)
  | [] => [[]]
  | c :: rest =>
    if c = sep then [] :: pieces sep rest
    else
      match pieces sep rest with
      | [] => [[c]]
      | piece :: more => (c :: piece) :: more

/-- The text before the first occurrence of two slashes in a row, all of it if there is none. -/
def beforeSlashes : List Char → List Char
  | [] => []
  | '/' :: '/' :: _ => []
  | c :: rest => c :: beforeSlashes rest

/-- What follows `head`, if the text starts with it. -/
def afterHead? (head text : List Char) : Option (List Char) :=
  head.isPrefixOf? text

/-- What comes before `tail`, if the text ends with it. -/
def beforeTail? (tail text : List Char) : Option (List Char) :=
  (tail.reverse.isPrefixOf? text.reverse).map List.reverse

/-! ## Length bounds -/

theorem length_of_cutAt {p : Char → Bool} {s before after : List Char}
    (h : cutAt p s = some (before, after)) : before.length + after.length < s.length := by
  induction s generalizing before after with
  | nil => simp [cutAt] at h
  | cons c rest ih =>
    unfold cutAt at h
    split at h
    · simp only [Option.some.injEq, Prod.mk.injEq] at h
      obtain ⟨rfl, rfl⟩ := h
      simp
    · simp only [Option.map_eq_some_iff, Prod.exists, Prod.mk.injEq] at h
      obtain ⟨x, y, hxy, rfl, rfl⟩ := h
      have := ih hxy
      simp only [List.length_cons]
      omega

theorem length_of_isPrefixOf? {head text rest : List Char}
    (h : head.isPrefixOf? text = some rest) : text.length = head.length + rest.length := by
  induction head generalizing text with
  | nil =>
    cases h
    simp
  | cons c head ih =>
    cases text with
    | nil => cases h
    | cons d text =>
      have hstep : (if c == d then head.isPrefixOf? text else none) = some rest := h
      split at hstep
      · have := ih hstep
        simp only [List.length_cons]
        omega
      · cases hstep

theorem length_of_beforeTail? {tail text rest : List Char}
    (h : beforeTail? tail text = some rest) : text.length = tail.length + rest.length := by
  simp only [beforeTail?, Option.map_eq_some_iff] at h
  obtain ⟨r, hr, rfl⟩ := h
  simpa using length_of_isPrefixOf? hr

end TypeLang.Text
