import TypeLang.Proofs.Schema.Indexes

/-!
# Loading again

A queue that stands there twice builds what it builds once, whatever is overridden, renamed or moved
on the way.  The first pass brings every number and every name of a type to its place, and a second
pass finds it there, so that nothing moves.  In the lists that change their order, those of members
and of predicates, the second pass leaves nothing of the first: each of its constructors puts its
number behind the numbers that stay, and its predicate before the predicates that stay.

So a run behind another schema is seen as two parts: what is left of the schema, and what the run
alone would have made.
-/

namespace TypeLang

/-! ## Rows of first occurrences -/

section

variable {α : Type} [DecidableEq α]

/-- A row with one more at its end, unless it is there already. -/
def enlist (as : List α) (a : α) : List α :=
  if a ∈ as then as else as ++ [a]

lemma mem_enlist {as : List α} {a b : α} : b ∈ enlist as a ↔ b ∈ as ∨ b = a := by
  unfold enlist
  split_ifs with ha
  · exact ⟨.inl, fun h => h.elim id fun hb => hb ▸ ha⟩
  · simp

lemma nodup_enlist {as : List α} (h : as.Nodup) (a : α) : (enlist as a).Nodup := by
  unfold enlist
  split_ifs with ha
  · exact h
  · refine List.nodup_append.2 ⟨h, List.nodup_singleton a, ?_⟩
    rintro b hb c hc rfl
    exact ha (List.mem_singleton.1 hc ▸ hb)

lemma mem_foldl_enlist {as more : List α} {b : α} :
    b ∈ more.foldl enlist as ↔ b ∈ as ∨ b ∈ more := by
  induction more generalizing as with
  | nil => simp
  | cons a rest ih => rw [List.foldl_cons, ih, mem_enlist, List.mem_cons, or_assoc]

/-- What is in a row already leaves it as it is. -/
lemma foldl_enlist_of_subset {as more : List α} (h : more ⊆ as) : more.foldl enlist as = as := by
  induction more with
  | nil => rfl
  | cons a rest ih =>
      obtain ⟨ha, hrest⟩ := List.cons_subset.1 h
      rw [List.foldl_cons, enlist, if_pos ha, ih hrest]

lemma foldl_enlist_twice (as more : List α) :
    (more ++ more).foldl enlist as = more.foldl enlist as := by
  rw [List.foldl_append]
  exact foldl_enlist_of_subset fun b hb => mem_foldl_enlist.2 (.inr hb)

end

namespace Schema

variable {s : Schema}

/-! ## Places that stay -/

/-- The numbers of the constructors, in order. -/
def ids (s : Schema) : List UInt32 :=
  s.constructors.map (·.id)

/-- The names of the types, in order. -/
def typeNames (s : Schema) : List String :=
  s.types.map (·.name)

lemma ids_add (s : Schema) (c : Constructor) : (s.add c).ids = enlist s.ids c.id := by
  unfold add ids enlist
  split
  case h_1 old hold =>
    have hid : old.id = c.id := by simpa using List.find?_some hold
    have hmem : c.id ∈ s.constructors.map (·.id) :=
      List.mem_map.2 ⟨old, mem_of_byId? hold, hid⟩
    rw [if_pos hmem, List.map_map]
    refine List.map_congr_left fun k _ => ?_
    by_cases hk : k.id = c.id <;> simp [hk]
  case h_2 hnone =>
    have hfresh : c.id ∉ s.constructors.map (·.id) := by
      simpa [byId?, List.find?_eq_none] using hnone
    rw [if_neg hfresh, List.map_append, List.map_singleton]

lemma map_name_leave (name : String) (id : UInt32) (types : List TypeDef) :
    (leave name id types).map (·.name) = types.map (·.name) := by
  rw [leave, List.map_map]
  refine List.map_congr_left fun t _ => ?_
  by_cases ht : t.name = name <;> simp [ht]

lemma map_name_join (name : String) (id : UInt32) (types : List TypeDef) :
    (join name id types).map (·.name) = enlist (types.map (·.name)) name := by
  have hany : types.any (·.name == name) = true ↔ name ∈ types.map (·.name) := by simp
  unfold join enlist
  simp only [hany]
  split_ifs
  · rw [List.map_map]
    refine List.map_congr_left fun t _ => ?_
    by_cases ht : t.name = name <;> simp [ht]
  · rw [List.map_append, List.map_singleton]

lemma typeNames_add (s : Schema) (c : Constructor) :
    (s.add c).typeNames = enlist s.typeNames c.type := by
  unfold typeNames
  rw [types_add, map_name_join]
  cases s.byId? c.id with
  | none => rfl
  | some old => rw [Option.elim_some, map_name_leave]

lemma ids_foldl (s : Schema) (cs : List Constructor) :
    (cs.foldl add s).ids = (cs.map (·.id)).foldl enlist s.ids := by
  induction cs generalizing s with
  | nil => rfl
  | cons c rest ih => rw [List.foldl_cons, ih, ids_add, List.map_cons, List.foldl_cons]

lemma typeNames_foldl (s : Schema) (cs : List Constructor) :
    (cs.foldl add s).typeNames = (cs.map (·.type)).foldl enlist s.typeNames := by
  induction cs generalizing s with
  | nil => rfl
  | cons c rest ih => rw [List.foldl_cons, ih, typeNames_add, List.map_cons, List.foldl_cons]

/-! ## Runs behind a schema -/

lemma indexed_foldl (hs : s.Indexed) (cs : List Constructor) : (cs.foldl add s).Indexed := by
  induction cs generalizing s with
  | nil => exact hs
  | cons c rest ih => exact ih (indexed_add hs c)

lemma foldl_add_concat (s : Schema) (cs : List Constructor) (c : Constructor) :
    (cs ++ [c]).foldl add s = (cs.foldl add s).add c :=
  List.foldl_concat add s c cs

/-- Of the numbers that a type listed, those stay in front that the run does not take. -/
lemma idsOf_foldl (hs : s.Indexed) (layer : Option Int) (cs : List Constructor) (name : String) :
    (cs.foldl add s).idsOf name =
      (s.idsOf name).filter (· ∉ cs.map (·.id)) ++ (laid layer cs).idsOf name := by
  induction cs using List.reverseRecOn with
  | nil => simp [laid, idsOf, typeDef?, empty]
  | append_singleton cs c ih =>
      have hstay : ((s.idsOf name).filter (· ∉ cs.map (·.id))).filter (· != c.id) =
          (s.idsOf name).filter (· ∉ (cs ++ [c]).map (·.id)) := by
        rw [List.filter_filter]
        refine List.filter_congr fun id _ => ?_
        by_cases hid : id = c.id <;> simp [hid]
      rw [foldl_add_concat, idsOf_add (indexed_foldl hs cs), ih, laid_concat,
        idsOf_add (indexed_laid layer cs), List.filter_append, hstay, List.append_assoc]

/-- Whoever claims a predicate holds it. -/
lemma exists_holder (hs : s.Indexed) {held : String × UInt32} (hmem : held ∈ s.holders) :
    ∃ c, s.byId? held.2 = some c ∧ c.predicate = held.1 := by
  have hsome : (s.holders.lookup held.1).isSome :=
    List.lookup_isSome_iff.2 ⟨held, hmem, by simp⟩
  obtain ⟨id, hid⟩ := Option.isSome_iff_exists.1 hsome
  obtain ⟨_, _, hholders, -⟩ := List.lookup_eq_some_iff.1 hid
  have hmem' : (held.1, id) ∈ s.holders := by simp [hholders]
  have hheld : held = (held.1, id) := List.inj_on_of_nodup_map hs.claims hmem hmem' rfl
  have hid' : held.2 = id := congrArg Prod.snd hheld
  exact hid' ▸ hs.holder hid

/-- A constructor claims its predicate, and no other predicate leads to its number any more. -/
lemma holders_add_eq (hs : s.Indexed) (c : Constructor) : (s.add c).holders =
    (c.predicate, c.id) ::
      s.holders.filter fun held => held.1 != c.predicate && held.2 != c.id := by
  have hreleased : ((s.byId? c.id).elim s.holders fun old => release old.predicate c.id s.holders) =
      s.holders.filter (·.2 != c.id) := by
    cases hold : s.byId? c.id with
    | none =>
        refine (List.filter_eq_self.2 fun held hmem => ?_).symm
        obtain ⟨k, hk, -⟩ := exists_holder hs hmem
        have hne : held.2 ≠ c.id := fun heq => by simp [heq, hold] at hk
        simpa using hne
    | some old =>
        refine List.filter_congr fun held hmem => ?_
        obtain ⟨k, hk, hpredicate⟩ := exists_holder hs hmem
        by_cases hid : held.2 = c.id
        · obtain rfl : old = k := Option.some.inj (hold.symm.trans (hid ▸ hk))
          simp [hid, hpredicate]
        · simp [bne, beq_false_of_ne hid]
  rw [holders_add, hreleased, claim, List.filter_filter]

lemma holders_foldl (hs : s.Indexed) (layer : Option Int) (cs : List Constructor) :
    (cs.foldl add s).holders = (laid layer cs).holders ++
      s.holders.filter fun held => held.1 ∉ cs.map (·.predicate) && held.2 ∉ cs.map (·.id) := by
  induction cs using List.reverseRecOn with
  | nil => simp [laid, empty]
  | append_singleton cs c ih =>
      have hstay : (s.holders.filter fun held =>
          held.1 ∉ cs.map (·.predicate) && held.2 ∉ cs.map (·.id)).filter
            (fun held => held.1 != c.predicate && held.2 != c.id) =
          s.holders.filter fun held =>
            held.1 ∉ (cs ++ [c]).map (·.predicate) && held.2 ∉ (cs ++ [c]).map (·.id) := by
        rw [List.filter_filter]
        refine List.filter_congr fun held _ => ?_
        by_cases hfirst : held.1 = c.predicate <;> by_cases hid : held.2 = c.id <;>
          simp [hfirst, hid]
      rw [foldl_add_concat, holders_add_eq (indexed_foldl hs cs), ih, laid_concat,
        holders_add_eq (indexed_laid layer cs), List.filter_append, hstay, List.cons_append]

/-! ## A second pass -/

/-- The constructors are those under their numbers. -/
lemma constructors_eq (hs : s.HasDistinctIds) : s.constructors = s.ids.filterMap s.byId? := by
  rw [ids, List.filterMap_map]
  have hfound : ∀ c ∈ s.constructors, (s.byId? ∘ (·.id)) c = some c := fun c hc => hs.byId?_eq hc
  rw [List.filterMap_congr hfound, List.filterMap_some]

lemma typeDef?_eq (hs : s.typeNames.Nodup) {t : TypeDef} (ht : t ∈ s.types) :
    s.typeDef? t.name = some t := by
  have hsome : (s.typeDef? t.name).isSome := List.find?_isSome.2 ⟨t, ht, by simp⟩
  obtain ⟨u, hu⟩ := Option.isSome_iff_exists.1 hsome
  have hname : u.name = t.name := by simpa using List.find?_some hu
  obtain rfl : u = t := List.inj_on_of_nodup_map hs (List.mem_of_find?_eq_some hu) ht hname
  exact hu

/-- The types are those under their names. -/
lemma types_eq (hs : s.typeNames.Nodup) :
    s.types = s.typeNames.map fun name => ⟨name, s.idsOf name⟩ := by
  have hfound : ∀ t ∈ s.types, (⟨t.name, s.idsOf t.name⟩ : TypeDef) = t := by
    intro t ht
    simp [idsOf, typeDef?_eq hs ht]
  calc s.types
    _ = s.types.map id := (List.map_id _).symm
    _ = s.types.map fun t => ⟨t.name, s.idsOf t.name⟩ :=
        List.map_congr_left fun t ht => (hfound t ht).symm
    _ = s.typeNames.map fun name => ⟨name, s.idsOf name⟩ := by
        rw [typeNames, List.map_map, Function.comp_def]

lemma nodup_typeNames_foldl (hs : s.typeNames.Nodup) (cs : List Constructor) :
    (cs.foldl add s).typeNames.Nodup := by
  induction cs generalizing s with
  | nil => exact hs
  | cons c rest ih =>
      refine ih ?_
      rw [typeNames_add]
      exact nodup_enlist hs c.type

section

variable (layer : Option Int) (cs : List Constructor)

lemma laid_append (more : List Constructor) :
    laid layer (cs ++ more) = more.foldl add (laid layer cs) :=
  List.foldl_append

lemma nodup_typeNames_laid : (laid layer cs).typeNames.Nodup :=
  nodup_typeNames_foldl (s := { empty with layer }) List.nodup_nil cs

/-- What is found after a run comes from the run. -/
lemma mem_ids_of_byId? {id : UInt32} {c : Constructor} (h : (laid layer cs).byId? id = some c) :
    id ∈ cs.map (·.id) := by
  rw [byId?_laid] at h
  have hid : c.id = id := by simpa using List.find?_some h
  exact List.mem_map.2 ⟨c, List.mem_reverse.1 (List.mem_of_find?_eq_some h), hid⟩

lemma mem_ids_of_idsOf {name : String} {id : UInt32} (h : id ∈ (laid layer cs).idsOf name) :
    id ∈ cs.map (·.id) := by
  obtain ⟨c, hc, -⟩ := (indexed_laid layer cs).member.1 h
  exact mem_ids_of_byId? layer cs hc

lemma mem_ids_of_holders {held : String × UInt32} (h : held ∈ (laid layer cs).holders) :
    held.2 ∈ cs.map (·.id) := by
  obtain ⟨c, hc, -⟩ := exists_holder (indexed_laid layer cs) h
  exact mem_ids_of_byId? layer cs hc

lemma constructors_laid_twice :
    (laid layer (cs ++ cs)).constructors = (laid layer cs).constructors := by
  have hids : (laid layer (cs ++ cs)).ids = (laid layer cs).ids := by
    rw [laid, laid, ids_foldl, ids_foldl, List.map_append, foldl_enlist_twice]
  have hbyId : (laid layer (cs ++ cs)).byId? = (laid layer cs).byId? := by
    funext id
    rw [byId?_laid, byId?_laid, List.reverse_append, List.find?_append, Option.or_self]
  rw [constructors_eq (hasDistinctIds_laid layer (cs ++ cs)),
    constructors_eq (hasDistinctIds_laid layer cs), hids, hbyId]

lemma types_laid_twice : (laid layer (cs ++ cs)).types = (laid layer cs).types := by
  have hnames : (laid layer (cs ++ cs)).typeNames = (laid layer cs).typeNames := by
    rw [laid, laid, typeNames_foldl, typeNames_foldl, List.map_append, foldl_enlist_twice]
  have hidsOf : (laid layer (cs ++ cs)).idsOf = (laid layer cs).idsOf := by
    funext name
    have hnone : ((laid layer cs).idsOf name).filter (· ∉ cs.map (·.id)) = [] :=
      List.filter_eq_nil_iff.2 fun id hid => by simpa using mem_ids_of_idsOf layer cs hid
    rw [laid_append, idsOf_foldl (indexed_laid layer cs) layer, hnone, List.nil_append]
  rw [types_eq (nodup_typeNames_laid layer (cs ++ cs)), types_eq (nodup_typeNames_laid layer cs),
    hnames, hidsOf]

lemma holders_laid_twice : (laid layer (cs ++ cs)).holders = (laid layer cs).holders := by
  have hnone : ((laid layer cs).holders.filter fun held =>
      held.1 ∉ cs.map (·.predicate) && held.2 ∉ cs.map (·.id)) = [] := by
    refine List.filter_eq_nil_iff.2 fun held hheld => ?_
    have hid := mem_ids_of_holders layer cs hheld
    simp only [hid, not_true_eq_false, decide_false, Bool.and_false, Bool.false_eq_true,
      not_false_eq_true]
  rw [laid_append, holders_foldl (indexed_laid layer cs) layer, hnone, List.append_nil]

/-- A second pass changes nothing. -/
lemma laid_twice : laid layer (cs ++ cs) = laid layer cs := by
  have hconstructors := constructors_laid_twice layer cs
  have htypes := types_laid_twice layer cs
  have hholders := holders_laid_twice layer cs
  have hlayer : (laid layer (cs ++ cs)).layer = (laid layer cs).layer := by
    rw [layer_laid, layer_laid]
  cases h : laid layer (cs ++ cs)
  cases h' : laid layer cs
  simp_all

end

end Schema

namespace Builder

/-- **Loading again changes nothing.**  A queue that stands there twice builds the schema that it
builds once, with all parts in the same order, or fails with the same fault. -/
theorem build_twice (queue : List Entry) (layer : Option Int) :
    build ⟨queue ++ queue, layer⟩ = build ⟨queue, layer⟩ := by
  unfold build
  rw [List.mapM_append]
  cases hcs : queue.mapM constructorOf with
  | error fault => rfl
  | ok cs =>
      have hlaid : (cs ++ cs).foldl Schema.add { Schema.empty with layer } =
          cs.foldl Schema.add { Schema.empty with layer } := Schema.laid_twice layer cs
      simp only [bind, Except.bind, pure, Except.pure, hlaid]

end Builder

end TypeLang
