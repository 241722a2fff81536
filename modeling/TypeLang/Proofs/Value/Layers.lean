import TypeLang.Proofs.Json.Layers
import TypeLang.Value.Json

/-!
# Layers of values

Records, vectors and maps stand one in another, and `layers` says how deep.  A value that is taken
from a JSON tree has the layers of the tree, and a value is shown as JSON with no more than it has.
Whoever shows it recurses once for each layer: `toJsonWithin` does so with a limit.
-/

namespace TypeLang.Value

mutual

/-- How many records, vectors and maps stand one in another. -/
def layers : Value → ℕ
  | null | bool _ | int _ | long _ | double _ | bytes _ | string _ => 0
  | vector items => itemsLayers items + 1
  | map entries => entriesLayers entries + 1
  | record _ fields => entriesLayers fields + 1

/-- The layers of the deepest item. -/
def itemsLayers : List Value → ℕ
  | [] => 0
  | v :: rest => max (layers v) (itemsLayers rest)

/-- The layers of the deepest value under a name. -/
def entriesLayers : List (String × Value) → ℕ
  | [] => 0
  | (_, v) :: rest => max (layers v) (entriesLayers rest)

end

lemma itemsLayers_le {items : List Value} {n : ℕ} :
    itemsLayers items ≤ n ↔ ∀ v ∈ items, v.layers ≤ n := by
  induction items with
  | nil => simp [itemsLayers]
  | cons v rest ih => simp [itemsLayers, ih]

lemma entriesLayers_le {entries : List (String × Value)} {n : ℕ} :
    entriesLayers entries ≤ n ↔ ∀ e ∈ entries, e.2.layers ≤ n := by
  induction entries with
  | nil => simp [entriesLayers]
  | cons e rest ih => simp [entriesLayers, ih]

/-- Some item has the layers of the deepest one. -/
lemma exists_itemsLayers {items : List Value} (h : 0 < itemsLayers items) :
    ∃ v ∈ items, v.layers = itemsLayers items := by
  by_contra hnone
  have hless : itemsLayers items ≤ itemsLayers items - 1 := itemsLayers_le.2 fun v hv =>
    Nat.le_sub_one_of_lt (lt_of_le_of_ne (itemsLayers_le.1 (le_refl _) v hv)
      fun heq => hnone ⟨v, hv, heq⟩)
  omega

lemma exists_entriesLayers {entries : List (String × Value)} (h : 0 < entriesLayers entries) :
    ∃ e ∈ entries, e.2.layers = entriesLayers entries := by
  by_contra hnone
  have hless : entriesLayers entries ≤ entriesLayers entries - 1 := entriesLayers_le.2 fun e he =>
    Nat.le_sub_one_of_lt (lt_of_le_of_ne (entriesLayers_le.1 (le_refl _) e he)
      fun heq => hnone ⟨e, he, heq⟩)
  omega

/-! ## From JSON -/

lemma layers_ofInteger (n : ℤ) : (ofInteger n).layers = 0 := by
  unfold ofInteger
  split_ifs <;> rfl

mutual

/-- A tree is taken for a value layer by layer. -/
lemma layers_ofJson : (j : Json) → (ofJson j).layers = j.layers
  | .null | .bool _ | .double _ | .string _ => rfl
  | .integer n => layers_ofInteger n
  | .array items => congrArg (· + 1) (itemsLayers_itemsOfJson items)
  | .object entries => congrArg (· + 1) (entriesLayers_entriesOfJson entries)

lemma itemsLayers_itemsOfJson :
    (items : List Json) → itemsLayers (itemsOfJson items) = Json.itemsLayers items
  | [] => rfl
  | j :: rest => congrArg₂ max (layers_ofJson j) (itemsLayers_itemsOfJson rest)

lemma entriesLayers_entriesOfJson : (entries : List (String × Json)) →
    entriesLayers (entriesOfJson entries) = Json.entriesLayers entries
  | [] => rfl
  | (_, j) :: rest => congrArg₂ max (layers_ofJson j) (entriesLayers_entriesOfJson rest)

end

/-! ## To JSON -/

lemma layers_doubleToJson (d : Double) : (doubleToJson d).layers = 0 := by
  unfold doubleToJson
  split_ifs <;> rfl

mutual

/-- A value is shown with no more layers than it has. -/
lemma layers_toJson : (v : Value) → v.toJson.layers ≤ v.layers
  | null | bool _ | int _ | long _ | bytes _ | string _ => le_refl 0
  | double d => (layers_doubleToJson d).le
  | vector items => Nat.succ_le_succ (itemsLayers_itemsToJson items)
  | map entries => Nat.succ_le_succ (entriesLayers_entriesToJson entries)
  | record predicate fields => by
      refine Nat.succ_le_succ (Json.entriesLayers_le.2 fun e he => ?_)
      rcases mem_insertKeys he with he | he
      · exact Json.entriesLayers_le.1 (entriesLayers_entriesToJson fields) e he
      · rw [List.mem_singleton.1 he]
        exact Nat.zero_le _

lemma itemsLayers_itemsToJson :
    (items : List Value) → Json.itemsLayers (itemsToJson items) ≤ itemsLayers items
  | [] => le_refl 0
  | v :: rest => max_le_max (layers_toJson v) (itemsLayers_itemsToJson rest)

lemma entriesLayers_entriesToJson : (entries : List (String × Value)) →
    Json.entriesLayers (entriesToJson entries) ≤ entriesLayers entries
  | [] => le_refl 0
  | (_, v) :: rest => max_le_max (layers_toJson v) (entriesLayers_entriesToJson rest)

end

mutual

/-- A value as JSON, unless records, vectors and maps nest deeper than `levels`. -/
def toJsonWithin : (levels : ℕ) → Value → Option Json
  | 0, vector _ | 0, map _ | 0, record _ _ => none
  | levels + 1, vector items => (itemsToJsonWithin levels items).map .array
  | levels + 1, map entries => (entriesToJsonWithin levels entries).map .object
  | levels + 1, record predicate fields => (entriesToJsonWithin levels fields).map fun shown =>
      .object (insertKeys [(predicateKey, .string predicate)] shown)
  | _, scalar => some scalar.toJson

/-- Values as JSON, one by one. -/
def itemsToJsonWithin (levels : ℕ) : List Value → Option (List Json)
  | [] => some []
  | v :: rest => do return (← toJsonWithin levels v) :: (← itemsToJsonWithin levels rest)

/-- Named values as JSON, one by one. -/
def entriesToJsonWithin (levels : ℕ) : List (String × Value) → Option (List (String × Json))
  | [] => some []
  | (key, v) :: rest => do
    return (key, ← toJsonWithin levels v) :: (← entriesToJsonWithin levels rest)

end

mutual

/-- Showing a value recurses no deeper than it has layers. -/
lemma toJsonWithin_eq {v : Value} {levels : ℕ} (h : v.layers ≤ levels) :
    toJsonWithin levels v = some v.toJson := by
  cases v with
  | vector items =>
      obtain ⟨levels, rfl⟩ := Nat.exists_eq_add_of_le' ((Nat.le_add_left 1 _).trans h)
      simp [toJsonWithin, itemsToJsonWithin_eq (Nat.le_of_succ_le_succ h), toJson]
  | map entries =>
      obtain ⟨levels, rfl⟩ := Nat.exists_eq_add_of_le' ((Nat.le_add_left 1 _).trans h)
      simp [toJsonWithin, entriesToJsonWithin_eq (Nat.le_of_succ_le_succ h), toJson]
  | record predicate fields =>
      obtain ⟨levels, rfl⟩ := Nat.exists_eq_add_of_le' ((Nat.le_add_left 1 _).trans h)
      simp [toJsonWithin, entriesToJsonWithin_eq (Nat.le_of_succ_le_succ h), toJson]
  | _ => cases levels <;> rfl

lemma itemsToJsonWithin_eq {items : List Value} {levels : ℕ} (h : itemsLayers items ≤ levels) :
    itemsToJsonWithin levels items = some (itemsToJson items) := by
  cases items with
  | nil => rfl
  | cons v rest =>
      obtain ⟨hv, hrest⟩ := max_le_iff.1 h
      simp [itemsToJsonWithin, toJsonWithin_eq hv, itemsToJsonWithin_eq hrest, itemsToJson]

lemma entriesToJsonWithin_eq {entries : List (String × Value)} {levels : ℕ}
    (h : entriesLayers entries ≤ levels) :
    entriesToJsonWithin levels entries = some (entriesToJson entries) := by
  cases entries with
  | nil => rfl
  | cons e rest =>
      obtain ⟨hv, hrest⟩ := max_le_iff.1 h
      simp [entriesToJsonWithin, toJsonWithin_eq hv, entriesToJsonWithin_eq hrest, entriesToJson]

end

end TypeLang.Value
