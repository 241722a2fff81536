import TypeLang.Proofs.Json.Keyed
import TypeLang.Value.Json

/-!
# Fields by name and by key

A record is looked into in two ways: by the name of a field, which finds the first of that name, and
by the key in its JSON, under which the last one is shown.  The keys are the names and the key of
the predicate, so both find something for the same names; but they find the same only if the name
stands once in the record.  `Holds` says which values stand anywhere in a value.
-/

namespace TypeLang.Value

/-! ## Rows item by item -/

lemma itemsToJson_eq_map (items : List Value) : itemsToJson items = items.map toJson := by
  induction items with
  | nil => rfl
  | cons v rest ih => rw [itemsToJson, ih, List.map_cons]

lemma itemsOfJson_eq_map (items : List Json) : itemsOfJson items = items.map ofJson := by
  induction items with
  | nil => rfl
  | cons j rest ih => rw [itemsOfJson, ih, List.map_cons]

lemma entriesOfJson_eq_map (entries : List (String × Json)) :
    entriesOfJson entries = entries.map fun e => (e.1, ofJson e.2) := by
  induction entries with
  | nil => rfl
  | cons e rest ih => rw [entriesOfJson, ih, List.map_cons]

lemma entriesToJson_eq_map (entries : List (String × Value)) :
    entriesToJson entries = entries.map fun e => (e.1, e.2.toJson) := by
  induction entries with
  | nil => rfl
  | cons e rest ih => rw [entriesToJson, ih, List.map_cons]

/-! ## Values inside values -/

/-- A value stands somewhere in another. -/
inductive Holds : Value → Value → Prop
  | self (v : Value) : Holds v v
  | item {items : List Value} {v w : Value} (hv : v ∈ items) (h : Holds v w) :
      Holds (.vector items) w
  | entry {entries : List (String × Value)} {e : String × Value} {w : Value} (he : e ∈ entries)
      (h : Holds e.2 w) : Holds (.map entries) w
  | field {predicate : String} {fields : List (String × Value)} {e : String × Value} {w : Value}
      (he : e ∈ fields) (h : Holds e.2 w) : Holds (.record predicate fields) w

lemma exists_of_mem_itemsOfJson {items : List Json} {v : Value} (h : v ∈ itemsOfJson items) :
    ∃ j, v = ofJson j := by
  rw [itemsOfJson_eq_map] at h
  obtain ⟨j, -, rfl⟩ := List.mem_map.1 h
  exact ⟨j, rfl⟩

lemma exists_of_mem_entriesOfJson {entries : List (String × Json)} {e : String × Value}
    (h : e ∈ entriesOfJson entries) : ∃ j, e.2 = ofJson j := by
  rw [entriesOfJson_eq_map] at h
  obtain ⟨entry, -, rfl⟩ := List.mem_map.1 h
  exact ⟨entry.2, rfl⟩

lemma ofJson_ne_record (j : Json) (predicate : String) (fields : List (String × Value)) :
    ofJson j ≠ .record predicate fields := by
  intro h
  cases j with
  | integer n =>
      unfold ofJson ofInteger at h
      split_ifs at h
  | _ => cases h

/-- What stands in a JSON tree is taken from a JSON tree itself. -/
lemma exists_of_holds_ofJson {v w : Value} (h : v.Holds w) (hv : ∃ j, v = ofJson j) :
    ∃ j, w = ofJson j := by
  induction h with
  | self v => exact hv
  | item hitem _ ih =>
      obtain ⟨j, hj⟩ := hv
      apply ih
      cases j with
      | array items =>
          cases hj
          exact exists_of_mem_itemsOfJson hitem
      | integer n =>
          unfold ofJson ofInteger at hj
          split_ifs at hj
      | _ => cases hj
  | entry hentry _ ih =>
      obtain ⟨j, hj⟩ := hv
      apply ih
      cases j with
      | object entries =>
          cases hj
          exact exists_of_mem_entriesOfJson hentry
      | integer n =>
          unfold ofJson ofInteger at hj
          split_ifs at hj
      | _ => cases hj
  | field _ _ _ =>
      obtain ⟨j, hj⟩ := hv
      exact absurd hj.symm (ofJson_ne_record j _ _)

/-- A JSON tree holds no record. -/
lemma not_holds_ofJson (j : Json) (predicate : String) (fields : List (String × Value)) :
    ¬(ofJson j).Holds (.record predicate fields) := by
  intro h
  obtain ⟨j', hj'⟩ := exists_of_holds_ofJson h ⟨j, rfl⟩
  exact ofJson_ne_record j' predicate fields hj'.symm

/-! ## The keys of a record -/

/-- The entries of the JSON object that a record is shown as. -/
def recordEntries (predicate : String) (fields : List (String × Value)) : List (String × Json) :=
  insertKeys [(predicateKey, .string predicate)] (entriesToJson fields)

lemma lookup_map_toJson (fields : List (String × Value)) (name : String) :
    (fields.map fun e => (e.1, e.2.toJson)).lookup name = (fields.lookup name).map toJson := by
  induction fields with
  | nil => rfl
  | cons e rest ih =>
      rw [List.map_cons, lookup_cons_key, ih, lookup_cons_key]
      split_ifs <;> rfl

/-- Under a key the last field of that name is shown. -/
lemma lookup_recordEntries (predicate : String) (fields : List (String × Value)) {name : String}
    (hname : name ≠ predicateKey) : (recordEntries predicate fields).lookup name =
      (fields.reverse.lookup name).map toJson := by
  rw [recordEntries, lookup_insertKeys, entriesToJson_eq_map, ← List.map_reverse,
    lookup_map_toJson, lookup_cons_key, if_neg hname, List.lookup_nil, Option.or_none]

/-- How the fields of a record that are found by name go with its JSON object. -/
structure FoundAlike (predicate : String) (fields : List (String × Value)) : Prop where
  object : (record predicate fields).toJson = .object (recordEntries predicate fields)
  /-- The keys are the names and the key of the predicate. -/
  keys : ∀ e ∈ recordEntries predicate fields,
    e.1 = predicateKey ∨ e.1 ∈ fields.map (·.1)
  /-- A name is found if and only if it is a key. -/
  found : ∀ name, name ≠ predicateKey → (((record predicate fields).field? name).isSome ↔
    name ∈ (recordEntries predicate fields).map (·.1))
  /-- Under the key stands the last field of the name, -/
  last : ∀ name, name ≠ predicateKey → (recordEntries predicate fields).lookup name =
    (fields.reverse.lookup name).map toJson
  /-- which is the one that is found if the name stands once. -/
  once : ∀ name, name ≠ predicateKey → (fields.map (·.1)).count name ≤ 1 →
    (recordEntries predicate fields).lookup name =
      ((record predicate fields).field? name).map toJson

lemma foundAlike (predicate : String) (fields : List (String × Value)) :
    FoundAlike predicate fields := by
  constructor
  case object => rfl
  case keys =>
    intro e he
    rcases mem_insertKeys he with he | he
    · rw [entriesToJson_eq_map] at he
      obtain ⟨field, hfield, rfl⟩ := List.mem_map.1 he
      exact .inr (List.mem_map_of_mem hfield)
    · exact .inl (by rw [List.mem_singleton.1 he])
  case found =>
    intro name hname
    have hkey := lookup_recordEntries predicate fields hname
    rw [← not_iff_not, ← lookup_eq_none_iff_not_mem, hkey, Option.map_eq_none_iff,
      lookup_eq_none_iff_not_mem, Option.not_isSome_iff_eq_none, List.map_reverse,
      List.mem_reverse, ← lookup_eq_none_iff_not_mem]
    exact Iff.rfl
  case last => exact fun name hname => lookup_recordEntries predicate fields hname
  case once =>
    intro name hname hcount
    rw [lookup_recordEntries predicate fields hname, lookup_reverse_of_once hcount]
    rfl

end TypeLang.Value
