import TypeLang.Proofs.Schema.Identity

/-!
# The tables of a schema

A schema lists the numbers of each type and the holder of each predicate beside the constructors
themselves.  `Indexed` says that these tables agree with the constructors.  To put in a constructor
keeps them in agreement, also where it replaces one of another type and predicate: its number leaves
the type that listed it, and the predicate that led to it is given up.

So after a run the constructor under a number is the last with that number, and the holder of a
predicate the last with that predicate, unless it was replaced.
-/

namespace TypeLang.Schema

open Declaration

variable {s : Schema} {c : Constructor}

/-! ## The constructors -/

/-- The number of a constructor leads to it, all other numbers where they led before. -/
lemma byId?_add (s : Schema) (c : Constructor) (id : UInt32) :
    (s.add c).byId? id = if id = c.id then some c else s.byId? id := by
  unfold add
  split
  case h_1 old hold =>
    have hpred : (fun k => (k.id == id)) ∘ (fun k => if k.id == c.id then c else k) =
        fun k : Constructor => k.id == id := by
      funext k
      by_cases hk : k.id = c.id <;> simp [hk]
    rw [byId?, List.find?_map, hpred]
    by_cases hid : id = c.id
    · have holdid : old.id = c.id := by simpa using List.find?_some hold
      subst hid
      rw [if_pos rfl, ← byId?, hold]
      simp [holdid]
    · rw [if_neg hid, ← byId?]
      cases hk : s.byId? id with
      | none => rfl
      | some k =>
          have hkid : k.id = id := by simpa using List.find?_some hk
          simp [hkid, hid]
  case h_2 hnone =>
    rw [byId?, List.find?_append, ← byId?]
    by_cases hid : id = c.id
    · simp [hid, hnone]
    · simp [hid, Ne.symm hid]

/-! ## The types -/

/-- The numbers that a type groups; none if there is no such type. -/
def idsOf (s : Schema) (name : String) : List UInt32 :=
  (s.typeDef? name).elim [] (·.members)

section

variable (name other : String) (id : UInt32) (types : List TypeDef)

lemma find?_leave : (leave name id types).find? (·.name == other) =
    (types.find? (·.name == other)).map fun t =>
      if other = name then { t with members := t.members.filter (· != id) } else t := by
  have hpred : (fun t => (t.name == other)) ∘
      (fun t => if t.name == name then { t with members := t.members.filter (· != id) } else t) =
      fun t : TypeDef => t.name == other := by
    funext t
    by_cases ht : t.name = name <;> simp [ht]
  rw [leave, List.find?_map, hpred]
  refine Option.map_congr fun t ht => ?_
  obtain rfl : t.name = other := by simpa using List.find?_some ht
  simp

/-- A new type is empty before `id` joins it. -/
lemma find?_join : (join name id types).find? (·.name == other) =
    if other = name then
      some ⟨name, (types.find? (·.name == name)).elim [] (·.members) ++ [id]⟩
    else types.find? (·.name == other) := by
  unfold join
  split
  case isTrue hany =>
    have hpred : (fun t => (t.name == other)) ∘
        (fun t => if t.name == name then { t with members := t.members ++ [id] } else t) =
        fun t : TypeDef => t.name == other := by
      funext t
      by_cases ht : t.name = name <;> simp [ht]
    rw [List.find?_map, hpred]
    by_cases hname : other = name
    · subst hname
      obtain ⟨t, ht⟩ := Option.isSome_iff_exists.1 (List.find?_isSome.2 (List.any_eq_true.1 hany))
      have hother : t.name = other := by simpa using List.find?_some ht
      simp [ht, hother]
    · rw [if_neg hname]
      refine (Option.map_congr fun t ht => ?_).trans Option.map_id'
      have hother : t.name = other := by simpa using List.find?_some ht
      simp [hother, hname]
  case isFalse hnone =>
    have hfresh : types.find? (·.name == name) = none := by
      simpa [List.find?_eq_none] using hnone
    rw [List.find?_append, List.find?_singleton]
    by_cases hname : other = name
    · simp [hname, hfresh]
    · simp [hname, Ne.symm hname]

end

/-! ## The holders of predicates -/

/-- Among entries of which no two share a key, filtering concerns each key by itself. -/
lemma lookup_filter {holders : List (String × UInt32)} (hkeys : (holders.map (·.1)).Nodup)
    (p : String × UInt32 → Bool) (key : String) :
    (holders.filter p).lookup key = (holders.lookup key).filter fun id => p (key, id) := by
  induction holders with
  | nil => rfl
  | cons held rest ih =>
      obtain ⟨first, id⟩ := held
      obtain ⟨hfirst, hrest⟩ := List.nodup_cons.1 hkeys
      have ih := ih hrest
      by_cases hkey : key = first
      · subst hkey
        have hnone : rest.lookup key = none := by
          rw [List.lookup_eq_none_iff]
          intro q hq
          have hne : key ≠ q.1 := fun heq => hfirst (List.mem_map.2 ⟨q, hq, heq.symm⟩)
          simpa using hne
        cases hp : p (key, id) <;> simp [hp, ih, hnone, Option.filter_some]
      · cases hp : p (first, id) <;> simp [hp, List.lookup_cons, beq_false_of_ne hkey, ih]

section

variable (predicate other : String) (id : UInt32) {holders : List (String × UInt32)}
  (hkeys : (holders.map (·.1)).Nodup)

include hkeys

lemma lookup_claim : (claim predicate id holders).lookup other =
    if other = predicate then some id else holders.lookup other := by
  rw [claim, List.lookup_cons, lookup_filter hkeys]
  by_cases hother : other = predicate
  · simp [hother]
  · rw [beq_false_of_ne hother, if_neg hother]
    cases holders.lookup other <;> simp [Option.filter_some, hother]

lemma lookup_release : (release predicate id holders).lookup other =
    if other = predicate then (holders.lookup other).filter (· != id)
    else holders.lookup other := by
  rw [release, lookup_filter hkeys]
  by_cases hother : other = predicate
  · subst hother
    simp [bne]
  · rw [if_neg hother]
    cases holders.lookup other <;> simp [Option.filter_some, hother]

lemma nodup_claim : ((claim predicate id holders).map (·.1)).Nodup := by
  have hsub : ((holders.filter (·.1 != predicate)).map (·.1)).Sublist (holders.map (·.1)) :=
    List.filter_sublist.map _
  rw [claim, List.map_cons, List.nodup_cons]
  exact ⟨by simp, hsub.nodup hkeys⟩

lemma nodup_release : ((release predicate id holders).map (·.1)).Nodup :=
  (List.filter_sublist.map _).nodup hkeys

end

/-! ## The invariant -/

/-- Types list the numbers of their constructors, and predicates lead to holders of them. -/
structure Indexed (s : Schema) : Prop where
  member : ∀ {name id}, id ∈ s.idsOf name ↔ ∃ c, s.byId? id = some c ∧ c.type = name
  nodup : ∀ name, (s.idsOf name).Nodup
  /-- A predicate is claimed once. -/
  claims : (s.holders.map (·.1)).Nodup
  holder : ∀ {predicate id}, s.holders.lookup predicate = some id →
    ∃ c, s.byId? id = some c ∧ c.predicate = predicate

lemma types_add (s : Schema) (c : Constructor) : (s.add c).types =
    join c.type c.id ((s.byId? c.id).elim s.types fun old => leave old.type c.id s.types) := by
  unfold add
  split <;> simp [*]

lemma holders_add (s : Schema) (c : Constructor) : (s.add c).holders =
    claim c.predicate c.id
      ((s.byId? c.id).elim s.holders fun old => release old.predicate c.id s.holders) := by
  unfold add
  split <;> simp [*]

/-- A number that a type lists is that of a constructor of the type. -/
lemma Indexed.type_eq (hs : s.Indexed) {name : String} {id : UInt32} (hmem : id ∈ s.idsOf name)
    (hc : s.byId? id = some c) : c.type = name := by
  obtain ⟨k, hk, hname⟩ := hs.member.1 hmem
  rwa [Option.some.inj (hc.symm.trans hk)]

/-- A number leaves the type that listed it, and joins that of its new constructor. -/
lemma idsOf_add (hs : s.Indexed) (c : Constructor) (name : String) : (s.add c).idsOf name =
    (s.idsOf name).filter (· != c.id) ++ if name = c.type then [c.id] else [] := by
  have hothers : ∀ other, (((s.byId? c.id).elim s.types fun old =>
      leave old.type c.id s.types).find? (·.name == other)).elim [] (·.members) =
        (s.idsOf other).filter (· != c.id) := by
    intro other
    -- Only the type of the earlier holder lists the number.
    have hself : c.id ∉ s.idsOf other →
        s.idsOf other = (s.idsOf other).filter (· != c.id) := by
      intro hmem
      refine (List.filter_eq_self.2 fun id hid => ?_).symm
      have hne : id ≠ c.id := fun heq => hmem (heq ▸ hid)
      simpa using hne
    cases hold : s.byId? c.id with
    | none =>
        refine hself fun hmem => ?_
        obtain ⟨k, hk, -⟩ := hs.member.1 hmem
        simp [hold] at hk
    | some old =>
        rw [Option.elim_some, find?_leave]
        by_cases hother : other = old.type
        · simp only [hother, if_true]
          show ((s.typeDef? old.type).map _).elim [] _ = _
          rw [idsOf]
          cases s.typeDef? old.type <;> rfl
        · simp only [hother, if_false, Option.map_id']
          exact hself fun hmem => hother (hs.type_eq hmem hold).symm
  rw [idsOf, typeDef?, types_add, find?_join]
  by_cases hname : name = c.type
  · simp only [hname, if_true, Option.elim_some, hothers]
  · simp only [hname, if_false, List.append_nil, hothers]

lemma isSome_typeDef?_add (s : Schema) (c : Constructor) (name : String) :
    ((s.add c).typeDef? name).isSome ↔ name = c.type ∨ (s.typeDef? name).isSome := by
  have hothers : (((s.byId? c.id).elim s.types fun old =>
      leave old.type c.id s.types).find? (·.name == name)).isSome = (s.typeDef? name).isSome := by
    cases s.byId? c.id with
    | none => rfl
    | some old => rw [Option.elim_some, find?_leave, Option.isSome_map, typeDef?]
  rw [typeDef?, types_add, find?_join]
  by_cases hname : name = c.type
  · simp [hname]
  · simp only [hname, if_false, false_or, hothers]

/-- A predicate leads to the constructor that claims it.  What is replaced no longer holds any. -/
lemma lookup_add (hs : s.Indexed) (c : Constructor) (predicate : String) :
    (s.add c).holders.lookup predicate =
      if predicate = c.predicate then some c.id
      else (s.holders.lookup predicate).filter (· != c.id) := by
  -- Only what the earlier holder of the number says may lead to the number.
  have hself : s.holders.lookup predicate ≠ some c.id →
      s.holders.lookup predicate = (s.holders.lookup predicate).filter (· != c.id) := by
    intro hne
    cases hid : s.holders.lookup predicate with
    | none => rfl
    | some id =>
        have hne : id ≠ c.id := fun heq => hne (heq ▸ hid)
        simp [Option.filter_some, hne]
  rw [holders_add]
  cases hold : s.byId? c.id with
  | none =>
      rw [Option.elim_none, lookup_claim _ _ _ hs.claims, ← hself]
      intro hid
      obtain ⟨k, hk, -⟩ := hs.holder hid
      simp [hold] at hk
  | some old =>
      rw [Option.elim_some, lookup_claim _ _ _ (nodup_release _ _ hs.claims),
        lookup_release _ _ _ hs.claims]
      by_cases hpredicate : predicate = old.predicate
      · rw [if_pos hpredicate]
      · rw [if_neg hpredicate, ← hself]
        intro hid
        obtain ⟨k, hk, hholds⟩ := hs.holder hid
        rw [hold] at hk
        exact hpredicate (Option.some.inj hk ▸ hholds.symm)

lemma indexed_add (hs : s.Indexed) (c : Constructor) : (s.add c).Indexed where
  member {name id} := by
    rw [idsOf_add hs, byId?_add, List.mem_append, List.mem_filter, hs.member]
    by_cases hid : id = c.id
    · by_cases hname : name = c.type <;> simp [hid, hname, eq_comm]
    · by_cases hname : name = c.type <;> simp [hid, hname]
  nodup name := by
    have hkept : ((s.idsOf name).filter (· != c.id)).Nodup := (hs.nodup name).filter _
    rw [idsOf_add hs, List.nodup_append]
    refine ⟨hkept, by split <;> simp, ?_⟩
    rintro id hid other hother rfl
    split at hother
    · obtain rfl : id = c.id := by simpa using hother
      simp at hid
    · simp at hother
  claims := by
    rw [holders_add]
    cases s.byId? c.id with
    | none => exact nodup_claim _ _ hs.claims
    | some old => exact nodup_claim _ _ (nodup_release _ _ hs.claims)
  holder {predicate id} h := by
    rw [lookup_add hs] at h
    rw [byId?_add]
    split at h
    case isTrue hpredicate =>
      obtain rfl : c.id = id := Option.some.inj h
      exact ⟨c, by simp, hpredicate.symm⟩
    case isFalse hpredicate =>
      obtain ⟨hid, hne⟩ := Option.filter_eq_some_iff.1 h
      rw [if_neg (by simpa using hne)]
      exact hs.holder hid

/-- A predicate is held by whoever claims it, and given up by whoever is replaced. -/
lemma byPredicate?_add (hs : s.Indexed) (c : Constructor) (predicate : String) :
    (s.add c).byPredicate? predicate =
      if predicate = c.predicate then some c
      else (s.byPredicate? predicate).filter (·.id != c.id) := by
  rw [byPredicate?, lookup_add hs]
  by_cases hpredicate : predicate = c.predicate
  · rw [if_pos hpredicate, if_pos hpredicate, Option.bind_some, byId?_add, if_pos rfl]
  · rw [if_neg hpredicate, if_neg hpredicate, byPredicate?]
    cases s.holders.lookup predicate with
    | none => rfl
    | some id =>
        rw [Option.bind_some, Option.filter_some]
        cases hk : s.byId? id with
        | none => by_cases hid : id = c.id <;> simp [byId?_add, hk, hid]
        | some k =>
            have hkid : k.id = id := by simpa using List.find?_some hk
            rw [Option.filter_some, hkid]
            by_cases hid : id = c.id
            · simp [hid]
            · simp [hid, byId?_add, hk]

lemma indexed_empty (layer : Option Int) : Indexed { empty with layer } where
  member := by simp [idsOf, typeDef?, byId?, empty]
  nodup := by simp [idsOf, typeDef?, empty]
  claims := by simp [empty]
  holder := by simp [empty]

/-! ## A run -/

variable (layer : Option Int) (cs : List Constructor)

lemma laid_concat (c : Constructor) : laid layer (cs ++ [c]) = (laid layer cs).add c := by
  rw [laid, List.foldl_concat, laid]

lemma indexed_laid : (laid layer cs).Indexed := by
  induction cs using List.reverseRecOn with
  | nil => exact indexed_empty layer
  | append_singleton cs c ih =>
      rw [laid_concat]
      exact indexed_add ih c

lemma layer_laid : (laid layer cs).layer = layer := by
  induction cs using List.reverseRecOn with
  | nil => rfl
  | append_singleton cs c ih =>
      rw [laid_concat, add]
      split <;> exact ih

/-- The last constructor with a number stands under it. -/
lemma byId?_laid (id : UInt32) : (laid layer cs).byId? id = cs.reverse.find? (·.id == id) := by
  induction cs using List.reverseRecOn with
  | nil => rfl
  | append_singleton cs c ih =>
      rw [laid_concat, byId?_add, List.reverse_concat, List.find?_cons, ih]
      by_cases hid : id = c.id
      · simp [hid]
      · rw [if_neg hid, beq_false_of_ne (Ne.symm hid)]

/-- Every constructor that stands in the schema has been put in. -/
lemma mem_of_mem_laid (h : c ∈ (laid layer cs).constructors) : c ∈ cs := by
  have hfind := (hasDistinctIds_laid layer cs).byId?_eq h
  rw [byId?_laid] at hfind
  exact List.mem_reverse.1 (List.mem_of_find?_eq_some hfind)

/-- The last constructor with a predicate holds it, if it has not been replaced. -/
lemma byPredicate?_laid (predicate : String) : (laid layer cs).byPredicate? predicate =
    (cs.reverse.find? (·.predicate == predicate)).filter
      fun c => (laid layer cs).byId? c.id = some c := by
  induction cs using List.reverseRecOn with
  | nil => rfl
  | append_singleton cs c ih =>
      rw [laid_concat, byPredicate?_add (indexed_laid layer cs), ih, List.reverse_concat,
        List.find?_cons]
      by_cases hpredicate : c.predicate = predicate
      · simp [hpredicate, Option.filter_some, byId?_add]
      · rw [if_neg (Ne.symm hpredicate), beq_false_of_ne hpredicate]
        cases hk : cs.reverse.find? (·.predicate == predicate) with
        | none => rfl
        | some k =>
            have hholds : k.predicate = predicate := by simpa using List.find?_some hk
            have hne : c ≠ k := fun heq => hpredicate (heq ▸ hholds)
            simp only [Option.filter_some, byId?_add]
            by_cases hid : k.id = c.id
            · rw [if_pos hid]
              split <;> simp [hid, hne]
            · rw [if_neg hid]
              split <;> simp [hid]

lemma isSome_typeDef?_laid (name : String) :
    ((laid layer cs).typeDef? name).isSome ↔ ∃ c ∈ cs, c.type = name := by
  induction cs using List.reverseRecOn with
  | nil => simp [laid, typeDef?, empty]
  | append_singleton cs c ih =>
      rw [laid_concat, isSome_typeDef?_add, ih]
      simp [or_comm, eq_comm]

end TypeLang.Schema
