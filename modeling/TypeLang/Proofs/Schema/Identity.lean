import TypeLang.Proofs.Schema.Building

/-!
# Constructors are known by their numbers

Putting a constructor into a schema replaces the holder of its number, so a schema that was built
holds every number once.  A number therefore stands for one constructor, and looking up the number
of a constructor gives that constructor back.
-/

namespace TypeLang.Schema

/-- No two constructors share a number. -/
def HasDistinctIds (s : Schema) : Prop :=
  (s.constructors.map (·.id)).Nodup

/-! ## Building -/

lemma hasDistinctIds_add {s : Schema} (hs : s.HasDistinctIds) (c : Constructor) :
    (s.add c).HasDistinctIds := by
  unfold add
  split
  case h_1 old hold =>
    have hids : (s.constructors.map fun k => if k.id == c.id then c else k).map (·.id) =
        s.constructors.map (·.id) := by
      rw [List.map_map]
      refine List.map_congr_left fun k _ => ?_
      by_cases hk : k.id = c.id <;> simp [hk]
    unfold HasDistinctIds
    rw [hids]
    exact hs
  case h_2 hnone =>
    have hfresh : ∀ k ∈ s.constructors, k.id ≠ c.id := by
      simpa [byId?, List.find?_eq_none] using hnone
    unfold HasDistinctIds
    rw [List.map_append, List.nodup_append]
    refine ⟨hs, by simp, ?_⟩
    intro id hid id' hid'
    obtain ⟨k, hk, rfl⟩ := List.mem_map.1 hid
    obtain rfl : id' = c.id := by simpa using hid'
    exact hfresh k hk

lemma hasDistinctIds_foldl {s : Schema} (hs : s.HasDistinctIds) (cs : List Constructor) :
    (cs.foldl add s).HasDistinctIds := by
  induction cs generalizing s with
  | nil => exact hs
  | cons c rest ih => exact ih (hasDistinctIds_add hs c)

lemma hasDistinctIds_laid (layer : Option Int) (cs : List Constructor) :
    (laid layer cs).HasDistinctIds :=
  hasDistinctIds_foldl (by simp [HasDistinctIds, empty]) cs

/-- A schema that was built holds every number once. -/
lemma hasDistinctIds_of_build {b : Builder} {s : Schema} (h : b.build = .ok s) :
    s.HasDistinctIds := by
  obtain ⟨cs, -, -, rfl⟩ := Builder.build_eq_ok.1 h
  exact hasDistinctIds_laid b.layer cs

/-! ## Looking up -/

namespace HasDistinctIds

variable {s : Schema}

lemma byId?_eq (hs : s.HasDistinctIds) {c : Constructor} (hc : c ∈ s.constructors) :
    s.byId? c.id = some c := by
  have hsome : (s.byId? c.id).isSome := by
    rw [byId?, List.find?_isSome]
    exact ⟨c, hc, by simp⟩
  obtain ⟨k, hk⟩ := Option.isSome_iff_exists.1 hsome
  have hid : k.id = c.id := by simpa using List.find?_some hk
  rw [hk, List.inj_on_of_nodup_map hs (mem_of_byId? hk) hc hid]

lemma mem_iff (hs : s.HasDistinctIds) {c : Constructor} :
    c ∈ s.constructors ↔ s.byId? c.id = some c :=
  ⟨hs.byId?_eq, mem_of_byId?⟩

lemma member?_id (hs : s.HasDistinctIds) (c : s.Member) : s.member? c.val.id = some c := by
  have hval : (s.member? c.val.id).map Subtype.val = some c.val := by
    rw [map_val_member?, hs.byId?_eq c.property]
  obtain ⟨k, hk, hkc⟩ := Option.map_eq_some_iff.1 hval
  rw [hk, Subtype.ext hkc]

end HasDistinctIds

end TypeLang.Schema
