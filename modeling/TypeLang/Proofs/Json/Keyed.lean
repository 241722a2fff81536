import Mathlib.Data.String.Basic
import Mathlib.Tactic
import TypeLang.Json.Keyed

/-!
# What is found among sorted entries

Putting an entry in changes what is found under its own key and nothing else, whether the entries
are sorted or not.  Sorted entries stay sorted.  So of several values that are put in under one key
the last is found.
-/

namespace TypeLang

variable {α : Type}

/-- The keys ascend, so none occurs twice. -/
def Ascending (entries : List (String × α)) : Prop :=
  entries.Pairwise (·.1 < ·.1)

lemma lookup_cons_key (key k : String) (v : α) (rest : List (String × α)) :
    ((k, v) :: rest).lookup key = if key = k then some v else rest.lookup key := by
  by_cases h : key = k
  · simp [h]
  · simp [List.lookup_cons, beq_false_of_ne h, h]

/-! ## Keys -/

lemma lookup_eq_none_iff_not_mem {entries : List (String × α)} {key : String} :
    entries.lookup key = none ↔ key ∉ entries.map (·.1) := by
  rw [List.lookup_eq_none_iff]
  simp only [bne_iff_ne, ne_eq, List.mem_map, not_exists, not_and]
  exact ⟨fun h e he heq => h e he heq.symm, fun h e he heq => h e he heq.symm⟩

/-- Of a key that stands once, the first entry is the last one. -/
lemma lookup_reverse_of_once {entries : List (String × α)} {key : String}
    (h : (entries.map (·.1)).count key ≤ 1) : entries.reverse.lookup key = entries.lookup key := by
  cases hfound : entries.lookup key with
  | none =>
      rw [lookup_eq_none_iff_not_mem] at hfound ⊢
      simpa using hfound
  | some v =>
      obtain ⟨before, behind, rfl, hbefore⟩ := List.lookup_eq_some_iff.1 hfound
      have hbehind : key ∉ behind.map (·.1) := by
        rw [List.map_append, List.count_append, List.map_cons, List.count_cons_self] at h
        exact List.count_eq_zero.1 (by omega)
      have hnone : behind.reverse.lookup key = none := by
        rw [lookup_eq_none_iff_not_mem]
        simpa using hbehind
      rw [List.reverse_append, List.reverse_cons, List.append_assoc, List.lookup_append, hnone,
        Option.none_or, List.singleton_append, lookup_cons_key, if_pos rfl]

/-! ## One entry -/

lemma lookup_insertKey (key other : String) (value : α) (entries : List (String × α)) :
    (insertKey key value entries).lookup other =
      if other = key then some value else entries.lookup other := by
  induction entries with
  | nil => rw [insertKey, lookup_cons_key]
  | cons e rest ih =>
      obtain ⟨k, v⟩ := e
      unfold insertKey
      by_cases hlt : key < k
      · rw [if_pos hlt, lookup_cons_key]
      by_cases hkey : key = k
      · rw [if_neg hlt, if_pos hkey, lookup_cons_key, lookup_cons_key, hkey]
        by_cases hother : other = k <;> simp [hother]
      · rw [if_neg hlt, if_neg hkey, lookup_cons_key, lookup_cons_key, ih]
        by_cases hother : other = key <;> simp [hother, hkey]

/-- The entries behind an insertion are some of those before it and the one put in. -/
lemma mem_insertKey {key : String} {value : α} {entries : List (String × α)} {e : String × α}
    (h : e ∈ insertKey key value entries) : e = (key, value) ∨ e ∈ entries := by
  induction entries with
  | nil => simp_all [insertKey]
  | cons first rest ih =>
      obtain ⟨k, v⟩ := first
      unfold insertKey at h
      split_ifs at h <;> grind

lemma ascending_insertKey (key : String) (value : α) {entries : List (String × α)}
    (h : Ascending entries) : Ascending (insertKey key value entries) := by
  induction entries with
  | nil => exact List.pairwise_singleton _ _
  | cons e rest ih =>
      obtain ⟨k, v⟩ := e
      obtain ⟨hk, hrest⟩ := List.pairwise_cons.1 h
      unfold insertKey
      split_ifs with hlt heq
      · refine List.pairwise_cons.2 ⟨fun e he => ?_, h⟩
        rcases List.mem_cons.1 he with rfl | he
        · exact hlt
        · exact lt_trans hlt (hk e he)
      · subst heq
        exact List.pairwise_cons.2 ⟨hk, hrest⟩
      · have hgt : k < key := lt_of_le_of_ne (not_lt.1 hlt) (Ne.symm heq)
        refine List.pairwise_cons.2 ⟨fun e he => ?_, ih hrest⟩
        rcases mem_insertKey he with rfl | he
        · exact hgt
        · exact hk e he

/-! ## Many entries -/

/-- By induction on what is put in, the last of a key wins. -/
lemma lookup_insertKeys (entries more : List (String × α)) (key : String) :
    (insertKeys entries more).lookup key = (more.reverse.lookup key).or (entries.lookup key) := by
  induction more generalizing entries with
  | nil => simp [insertKeys]
  | cons e rest ih =>
      have hrest : insertKeys entries (e :: rest) = insertKeys (insertKey e.1 e.2 entries) rest :=
        rfl
      rw [hrest, ih, lookup_insertKey, List.reverse_cons, List.lookup_append, Option.or_assoc,
        lookup_cons_key]
      split_ifs <;> simp

lemma mem_insertKeys {entries more : List (String × α)} {e : String × α}
    (h : e ∈ insertKeys entries more) : e ∈ more ∨ e ∈ entries := by
  induction more generalizing entries with
  | nil => exact .inr h
  | cons first rest ih =>
      rcases ih h with hrest | he
      · exact .inl (List.mem_cons_of_mem _ hrest)
      · rcases mem_insertKey he with rfl | he
        · exact .inl List.mem_cons_self
        · exact .inr he

lemma ascending_insertKeys {entries : List (String × α)} (h : Ascending entries)
    (more : List (String × α)) : Ascending (insertKeys entries more) := by
  induction more generalizing entries with
  | nil => exact h
  | cons e rest ih => exact ih (ascending_insertKey e.1 e.2 h)

end TypeLang
