import Mathlib.Tactic
import TypeLang.Json.Read
import TypeLang.Json.Text
import TypeLang.Proofs.Json.Keyed
import TypeLang.Proofs.Results

/-!
# Layers of JSON trees

Arrays and objects stand one in another, and `layers` says how deep.  The reader of JSON texts keeps
levels for them, and gives no tree of more layers than it has levels; numbers, strings and words
take none.

Whoever writes a tree recurses once for each layer.  `compactWithin` is the writer with a limit on
that, and within as many levels as there are layers it writes all.
-/

namespace TypeLang.Json

mutual

/-- How many arrays and objects stand one in another. -/
def layers : Json → ℕ
  | null | bool _ | integer _ | double _ | string _ => 0
  | array items => itemsLayers items + 1
  | object entries => entriesLayers entries + 1

/-- The layers of the deepest item. -/
def itemsLayers : List Json → ℕ
  | [] => 0
  | j :: rest => max (layers j) (itemsLayers rest)

/-- The layers of the deepest value. -/
def entriesLayers : List (String × Json) → ℕ
  | [] => 0
  | (_, j) :: rest => max (layers j) (entriesLayers rest)

end

lemma itemsLayers_le {items : List Json} {n : ℕ} :
    itemsLayers items ≤ n ↔ ∀ j ∈ items, j.layers ≤ n := by
  induction items with
  | nil => simp [itemsLayers]
  | cons j rest ih => simp [itemsLayers, ih]

lemma entriesLayers_le {entries : List (String × Json)} {n : ℕ} :
    entriesLayers entries ≤ n ↔ ∀ e ∈ entries, e.2.layers ≤ n := by
  induction entries with
  | nil => simp [entriesLayers]
  | cons e rest ih => simp [entriesLayers, ih]

/-! ## Reading -/

section

variable {item : Reader Json} {n : ℕ}

/-- A reader gives no tree of more layers than `n`. -/
def Within (n : ℕ) (item : Reader Json) : Prop :=
  ∀ p j q, item p = .ok (j, q) → j.layers ≤ n

/-! ### Arrays and objects -/

lemma layers_le_of_items (hitem : Within n item) {fuel : ℕ} {before js : List Json} {p q : Place}
    (hbefore : ∀ j ∈ before, j.layers ≤ n) (h : items item fuel before p = .ok (js, q)) :
    ∀ j ∈ js, j.layers ≤ n := by
  induction fuel generalizing before p with
  | zero => cases h
  | succ fuel ih =>
      have hmore : ∀ {p : Place},
          (item p >>= fun r => items item fuel (r.1 :: before) r.2) = .ok (js, q) →
            ∀ j ∈ js, j.layers ≤ n := by
        intro p h
        obtain ⟨r, hj, hrest⟩ := bind_eq_ok.1 h
        exact ih (List.forall_mem_cons.2 ⟨hitem _ _ _ hj, hbefore⟩) hrest
      simp only [items] at h
      split at h
      · cases h
      · cases h
        simpa using hbefore
      · split_ifs at h
        · exact hmore h
        · split at h
          · cases h
          · cases h
          · exact hmore h
        · cases h

lemma layers_le_of_entry (hitem : Within n item) {e : String × Json} {p q : Place}
    (h : entry item p = .ok (e, q)) : e.2.layers ≤ n := by
  obtain ⟨r, -, hvalue⟩ := bind_eq_ok.1 h
  simp only at hvalue
  split at hvalue
  · cases hvalue
  · obtain ⟨r', hj, hmade⟩ := bind_eq_ok.1 hvalue
    cases hmade
    exact hitem _ _ _ hj
  · cases hvalue

lemma layers_le_of_entries (hitem : Within n item) {fuel : ℕ} {first : Bool}
    {before es : List (String × Json)} {p q : Place} (hbefore : ∀ e ∈ before, e.2.layers ≤ n)
    (h : entries item fuel first before p = .ok (es, q)) : ∀ e ∈ es, e.2.layers ≤ n := by
  induction fuel generalizing before first p with
  | zero => cases h
  | succ fuel ih =>
      have hmore : ∀ {p : Place}, (entry item p >>= fun r =>
          entries item fuel false (insertKey r.1.1 r.1.2 before) r.2) = .ok (es, q) →
            ∀ e ∈ es, e.2.layers ≤ n := by
        intro p h
        obtain ⟨r, he, hrest⟩ := bind_eq_ok.1 h
        refine ih (fun e' he' => ?_) hrest
        rcases mem_insertKey he' with rfl | he'
        · exact layers_le_of_entry hitem he
        · exact hbefore e' he'
      simp only [entries] at h
      split at h
      · cases h
      · cases h
        exact hbefore
      · split_ifs at h
        · exact hmore h
        · cases h
        · split at h
          · cases h
          · exact hmore h
          · cases h
          · cases h
        · cases h

/-! ### Numbers -/

lemma within_finish (negative : Bool) (significand : ℕ) (exponent : ℤ) :
    Within 0 (finish negative significand exponent) := by
  intro p j q h
  unfold finish at h
  split at h
  · cases h
    exact le_refl 0
  · cases h

lemma within_exponentFrom (negative : Bool) (significand : ℕ) (start : ℤ) :
    Within 0 (exponentFrom negative significand start) := by
  intro p j q h
  simp only [exponentFrom] at h
  split_ifs at h
  · cases h
  all_goals
    split at h
    · exact within_finish _ _ _ _ _ _ h
    · cases h <;> exact le_refl 0

lemma within_exponentOrEnd (negative : Bool) (significand : ℕ) (exponent : ℤ) :
    Within 0 (exponentOrEnd negative significand exponent) := by
  intro p j q h
  unfold exponentOrEnd at h
  split at h
  · split_ifs at h
    · exact within_exponentFrom _ _ _ _ _ _ h
    · exact within_finish _ _ _ _ _ _ h
  · exact within_finish _ _ _ _ _ _ h

lemma within_fractionFrom (negative : Bool) (significand : ℕ) (exponent : ℤ) :
    Within 0 (fractionFrom negative significand exponent) := by
  intro p j q h
  simp only [fractionFrom] at h
  split_ifs at h
  · cases h
  · cases h
  · exact within_exponentOrEnd _ _ _ _ _ _ h

lemma layers_ofSignificand (negative : Bool) (significand : ℕ) :
    (ofSignificand negative significand).layers = 0 := by
  unfold ofSignificand
  split_ifs <;> rfl

lemma within_numberTail (negative : Bool) (significand left : ℕ) :
    Within 0 (numberTail negative significand left) := by
  intro p j q h
  unfold numberTail at h
  split at h
  · exact within_fractionFrom _ _ _ _ _ _ h
  all_goals
    split_ifs at h
    · exact within_exponentOrEnd _ _ _ _ _ _ h
    · cases h
      exact (layers_ofSignificand _ _).le

lemma within_number (negative : Bool) : Within 0 (number negative) := by
  intro p j q h
  simp only [number] at h
  split at h
  · cases h
  · split_ifs at h
    · cases h
    · exact within_numberTail _ _ _ _ _ _ h
  · split_ifs at h
    exact within_numberTail _ _ _ _ _ _ h

lemma within_scalar (c : Char) (rest : List Char) : Within 0 (scalar c rest) := by
  have hmap : ∀ {α : Type} {x : Except Reported (α × Place)} {f : α → Json} {j : Json} {q : Place},
      (∀ a, (f a).layers = 0) → (x.map fun r => (f r.1, r.2)) = .ok (j, q) → j.layers ≤ 0 := by
    intro α x f j q hf h
    cases x with
    | error fault => cases h
    | ok r =>
        cases h
        exact (hf _).le
  intro p j q h
  unfold scalar at h
  split_ifs at h
  · exact hmap (f := fun _ => .null) (fun _ => rfl) h
  · exact hmap (f := fun _ => .bool true) (fun _ => rfl) h
  · exact hmap (f := fun _ => .bool false) (fun _ => rfl) h
  · exact within_number _ _ _ _ h
  · exact within_number _ _ _ _ h
  · exact hmap (f := fun s => .string s) (fun _ => rfl) h
  · cases h

/-! ### Texts -/

/-- A text nests no deeper than its reader has levels. -/
lemma within_value (fuel levels : ℕ) : Within levels (value fuel levels) := by
  induction levels with
  | zero =>
      intro p j q h
      simp only [value] at h
      split at h
      · cases h
      · split_ifs at h
        · cases h
        · exact (within_scalar _ _ _ _ _ h).trans (Nat.zero_le _)
  | succ levels ih =>
      intro p j q h
      simp only [value] at h
      split at h
      · cases h
      · split_ifs at h
        · obtain ⟨r, hitems, hmade⟩ := bind_eq_ok.1 h
          cases hmade
          have hall := layers_le_of_items ih (by simp) hitems
          exact Nat.succ_le_succ (itemsLayers_le.2 hall)
        · obtain ⟨r, hentries, hmade⟩ := bind_eq_ok.1 h
          cases hmade
          have hall := layers_le_of_entries ih (by simp) hentries
          exact Nat.succ_le_succ (entriesLayers_le.2 hall)
        · exact (within_scalar _ _ _ _ _ h).trans (Nat.zero_le _)

lemma layers_le_of_document {text : List Char} {j : Json} (h : document text = .ok j) :
    j.layers ≤ maxNesting := by
  obtain ⟨r, hvalue, hend⟩ := bind_eq_ok.1 h
  dsimp only at hend
  split_ifs at hend
  · cases hend
    exact within_value _ _ _ _ _ hvalue
  · cases hend

lemma layers_le_of_read {text : List Char} {j : Json} (h : read text = .ok j) :
    j.layers ≤ maxNesting := by
  unfold read at h
  split at h
  next hdocument =>
    cases h
    exact layers_le_of_document hdocument
  next => cases h

end

/-! ## Writing -/

mutual

/-- A tree without blanks, unless arrays and objects nest deeper than `levels`. -/
def compactWithin : (levels : ℕ) → Json → Option (List Char)
  | 0, array _ | 0, object _ => none
  | levels + 1, array items => do
    return '[' :: (List.intercalate [','] (← compactItemsWithin levels items) ++ [']'])
  | levels + 1, object entries => do
    return '{' :: (List.intercalate [','] (← compactEntriesWithin levels entries) ++ ['}'])
  | _, scalar => some (compactChars scalar)

/-- The items of an array, each as text. -/
def compactItemsWithin (levels : ℕ) : List Json → Option (List (List Char))
  | [] => some []
  | item :: rest => do
    return (← compactWithin levels item) :: (← compactItemsWithin levels rest)

/-- The entries of an object, each as text. -/
def compactEntriesWithin (levels : ℕ) : List (String × Json) → Option (List (List Char))
  | [] => some []
  | (key, value) :: rest => do
    return (quoted key ++ ':' :: (← compactWithin levels value)) ::
      (← compactEntriesWithin levels rest)

end

mutual

/-- Writing recurses no deeper than there are layers. -/
lemma compactWithin_eq {j : Json} {levels : ℕ} (h : j.layers ≤ levels) :
    compactWithin levels j = some (compactChars j) := by
  cases j with
  | array items =>
      obtain ⟨levels, rfl⟩ := Nat.exists_eq_add_of_le' ((Nat.le_add_left 1 _).trans h)
      simp [compactWithin, compactItemsWithin_eq (Nat.le_of_succ_le_succ h), compactChars]
  | object entries =>
      obtain ⟨levels, rfl⟩ := Nat.exists_eq_add_of_le' ((Nat.le_add_left 1 _).trans h)
      simp [compactWithin, compactEntriesWithin_eq (Nat.le_of_succ_le_succ h), compactChars]
  | _ => cases levels <;> rfl

lemma compactItemsWithin_eq {items : List Json} {levels : ℕ} (h : itemsLayers items ≤ levels) :
    compactItemsWithin levels items = some (compactItems items) := by
  cases items with
  | nil => rfl
  | cons item rest =>
      obtain ⟨hitem, hrest⟩ := max_le_iff.1 h
      simp [compactItemsWithin, compactWithin_eq hitem, compactItemsWithin_eq hrest, compactItems]

lemma compactEntriesWithin_eq {entries : List (String × Json)} {levels : ℕ}
    (h : entriesLayers entries ≤ levels) :
    compactEntriesWithin levels entries = some (compactEntries entries) := by
  cases entries with
  | nil => rfl
  | cons e rest =>
      obtain ⟨hvalue, hrest⟩ := max_le_iff.1 h
      simp [compactEntriesWithin, compactWithin_eq hvalue, compactEntriesWithin_eq hrest,
        compactEntries]

end

end TypeLang.Json
