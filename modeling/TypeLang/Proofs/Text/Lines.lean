import TypeLang.Proofs.Text.Words

/-!
# Lines and the comments at their ends

A comment goes from two slashes to the end of its line.  A text that has none may be continued, and
a comment begins where it begins in the continuation alone, unless a slash at the end of the one and
a slash at the start of the other meet (`beforeSlashes_append`).
-/

namespace TypeLang.Text

variable {x : List Char}

/-! ## Comments -/

/-- Where no two slashes stand in a row, nothing is cut off. -/
lemma beforeSlashes_of_not_infix (h : ¬ ['/', '/'] <:+: x) : beforeSlashes x = x := by
  fun_induction beforeSlashes x with
  | case1 => rfl
  | case2 rest => exact absurd ⟨[], rest, rfl⟩ h
  | case3 c rest hslashes ih => rw [ih fun hrest => h (List.infix_cons hrest)]

/-- **A comment begins on one side of a place where no two slashes meet.** -/
lemma beforeSlashes_append {y : List Char} (hx : beforeSlashes x = x)
    (hmeet : x.getLast? = some '/' → y.head? ≠ some '/') :
    beforeSlashes (x ++ y) = x ++ beforeSlashes y := by
  fun_induction beforeSlashes x with
  | case1 => rfl
  | case2 rest => cases hx
  | case3 c rest hslashes ih =>
      have hrest : beforeSlashes rest = rest := (List.cons.inj hx).2
      have hpair : ∀ next, c = '/' → rest ++ y = '/' :: next → False := by
        intro next hc heq
        cases rest with
        | nil => exact hmeet (by rw [hc]; rfl) (by rw [List.nil_append] at heq; rw [heq]; rfl)
        | cons d rest => exact hslashes rest hc (by rw [(List.cons.inj heq).1])
      rw [List.cons_append, beforeSlashes.eq_3 _ _ hpair, ih hrest]
      · rfl
      · intro hlast
        apply hmeet
        rw [List.getLast?_cons, hlast]
        rfl

/-- What follows a comment is part of it. -/
lemma beforeSlashes_append_of_ne (hx : beforeSlashes x ≠ x) (y : List Char) :
    beforeSlashes (x ++ y) = beforeSlashes x := by
  fun_induction beforeSlashes x with
  | case1 => exact absurd rfl hx
  | case2 rest => rfl
  | case3 c rest hslashes ih =>
      have hne : beforeSlashes rest ≠ rest := fun heq => hx (by rw [heq])
      have hrest := ih hne
      cases rest with
      | nil => exact absurd rfl hne
      | cons d rest =>
          rw [List.cons_append, List.cons_append, beforeSlashes.eq_3, ← List.cons_append, hrest]
          intro next hc heq
          exact hslashes rest hc (by rw [(List.cons.inj heq).1])

/-! ## Lines -/

/-- What has no line feed stays on its line. -/
lemma linesFrom_append {w : List Char} (hw : '\n' ∉ w) (line text : List Char) :
    linesFrom line (w ++ text) = linesFrom (w.reverse ++ line) text := by
  induction w generalizing line with
  | nil => rfl
  | cons c rest ih =>
      rw [List.mem_cons, not_or] at hw
      have hstep : linesFrom line (c :: (rest ++ text)) = linesFrom (c :: line) (rest ++ text) := by
        rw [linesFrom.eq_def]
        exact if_neg (Ne.symm hw.1)
      rw [List.cons_append, hstep, ih hw.2, List.reverse_cons, List.append_assoc]
      rfl

end TypeLang.Text
