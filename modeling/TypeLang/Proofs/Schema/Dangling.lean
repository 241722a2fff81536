import TypeLang.Proofs.Schema.Layering
import TypeLang.Proofs.Schema.Reloading

/-!
# Types without constructors

A constructor that is overridden leaves its type, and the type stays in the schema, perhaps without
members.  A boxed reference is only asked for a type of its name.  So what a schema says of its
types is said in terms of those that are emptied: declarations of them were queued, and none of
these is in force.  It takes a declaration of another type to empty one (`not_emptied`).

No other type is without members, and no other reference leads to a type without constructors.  One
that does would be reported, as the reference to a name that nothing declares is.  A reference to a
type that is emptied is not (`emptied_passes`).
-/

namespace TypeLang

open Declaration

/-- The name of the type that a queued declaration gives. -/
def typeOf (e : Entry) : String :=
  e.1.result.head.name.full

/-- Declarations of a type were queued, and none of them is in force. -/
def Emptied (queue : List Entry) (name : String) : Prop :=
  (∃ e ∈ queue, typeOf e = name) ∧ ∀ e ∈ queue, typeOf e = name → ¬ InForce queue e

instance (queue : List Entry) (name : String) : Decidable (Emptied queue name) :=
  inferInstanceAs (Decidable (_ ∧ _))

/-- A type is emptied only where a declaration takes the number of one of another type. -/
lemma not_emptied {queue : List Entry}
    (h : ∀ e ∈ queue, ∀ e' ∈ queue, e.1.id = e'.1.id → typeOf e = typeOf e') (name : String) :
    ¬ Emptied queue name := by
  rintro ⟨⟨e, he, hname⟩, hnone⟩
  have hsome : (queue.reverse.find? (·.1.id == e.1.id)).isSome :=
    List.find?_isSome.2 ⟨e, List.mem_reverse.2 he, by simp⟩
  obtain ⟨last, hlast⟩ := Option.isSome_iff_exists.1 hsome
  have hid : last.1.id = e.1.id := by simpa using List.find?_some hlast
  have hmem : last ∈ queue := List.mem_reverse.1 (List.mem_of_find?_eq_some hlast)
  refine hnone last hmem ?_ (by rwa [InForce, hid])
  rw [h last hmem e he hid, hname]

/-- The type to which a field refers where a tag is read, unless it needs no schema. -/
def Field.boxedRef? (f : Field) : Option String :=
  match f.kind with
  | .value type => if type.leaf.isBuiltin || type.leaf.bare then none else some type.leaf.name
  | _ => none

namespace Schema

open Builder

variable {s : Schema}

/-- Some constructor of the schema is of the type with a name. -/
def HasType (s : Schema) (name : String) : Prop :=
  ∃ c ∈ s.constructors, c.type = name

instance (s : Schema) (name : String) : Decidable (s.HasType name) :=
  inferInstanceAs (Decidable (∃ c ∈ s.constructors, c.type = name))

/-- What a schema of some queue says of its types. -/
structure Grounded (queue : List Entry) (s : Schema) : Prop where
  /-- What a type lists are constructors of it. -/
  members : ∀ t ∈ s.types, ∀ id ∈ t.members, ∃ c ∈ s.constructors, c.id = id ∧ c.type = t.name
  /-- A type has constructors, unless it was emptied. -/
  types : ∀ t ∈ s.types, s.HasType t.name ↔ ¬ Emptied queue t.name
  /-- A type lists something exactly if it has constructors. -/
  listed : ∀ t ∈ s.types, t.members ≠ [] ↔ s.HasType t.name
  /-- A boxed reference leads to a type with constructors, unless the type was emptied. -/
  references : ∀ c ∈ s.constructors, ∀ f ∈ c.fields, ∀ name ∈ f.boxedRef?,
    s.HasType name ↔ ¬ Emptied queue name

/-- Nothing is wrong with the fields before a field of a constructor. -/
def SoundBefore (s : Schema) (c : Constructor) (f : Field) : Prop :=
  ∃ before after earlier later, s.constructors = before ++ c :: after ∧
    c.fields = earlier ++ f :: later ∧
    (∀ k ∈ before, ∀ g ∈ k.fields, s.fieldFault? k.predicate g = none) ∧
    ∀ g ∈ earlier, s.fieldFault? c.predicate g = none

/-! ## Faults -/

/-- A boxed reference is asked for a type of its name. -/
lemma fieldFault?_of_boxedRef {f : Field} {name : String} (h : f.boxedRef? = some name)
    (s : Schema) (predicate : String) : s.fieldFault? predicate f =
      if (s.typeDef? name).isSome then none else some (.unresolved predicate f.name name) := by
  unfold Field.boxedRef? at h
  unfold fieldFault?
  cases hkind : f.kind with
  | value type =>
      rw [hkind] at h
      simp only at h ⊢
      split_ifs at h with hboxed
      obtain rfl := Option.some.inj h
      obtain ⟨hbuiltin, hbare⟩ := not_or.1 (mt Bool.or_eq_true_iff.2 hboxed)
      rw [refFault?, if_neg hbuiltin, if_neg hbare]
  | _ =>
      rw [hkind] at h
      cases h

lemma fault?_of_soundBefore {c : Constructor} {f : Field} (hbefore : s.SoundBefore c f)
    {fault : SchemaFault} (h : s.fieldFault? c.predicate f = some fault) :
    s.fault? = some fault := by
  obtain ⟨before, after, earlier, later, hcs, hfields, hsound, hearlier⟩ := hbefore
  have hc : c.fields.findSome? (s.fieldFault? c.predicate) = some fault := by
    rw [hfields, List.findSome?_append, List.findSome?_eq_none_iff.2 hearlier, Option.none_or,
      List.findSome?_cons, h]
  have hnone : before.findSome? (fun k => k.fields.findSome? (s.fieldFault? k.predicate)) = none :=
    List.findSome?_eq_none_iff.2 fun k hk => List.findSome?_eq_none_iff.2 (hsound k hk)
  rw [fault?, hcs, List.findSome?_append, hnone, Option.none_or, List.findSome?_cons, hc]

/-! ## What stands in a schema -/

section

variable (layer : Option Int) {queue : List Entry} {cs : List Constructor}
  (hcs : List.Forall₂ Makes queue cs)

include hcs

/-- A type has constructors exactly if a declaration of it is in force. -/
lemma hasType_laid {name : String} :
    (laid layer cs).HasType name ↔ ∃ e ∈ queue, typeOf e = name ∧ InForce queue e := by
  constructor
  · rintro ⟨c, hc, htype⟩
    obtain ⟨e, he, hforce, hmakes⟩ := exists_inForce layer hcs hc
    exact ⟨e, he, (eq_of_makes hmakes).2.2.symm.trans htype, hforce⟩
  · rintro ⟨e, -, hname, hforce⟩
    have hlayered : (laid layer cs).Layered queue := layered_laid hcs
    obtain ⟨c, hmakes, hc⟩ := hlayered.last hforce
    exact ⟨c, mem_of_byId? hc, (eq_of_makes hmakes).2.2.trans hname⟩

/-- A schema knows the types of all queued declarations. -/
lemma isSome_typeDef?_of_makes {name : String} :
    ((laid layer cs).typeDef? name).isSome ↔ ∃ e ∈ queue, typeOf e = name := by
  have hlast := last_of_makes hcs (p := fun e => typeOf e == name) (q := fun c => c.type == name)
    fun hmakes => by rw [typeOf, (eq_of_makes hmakes).2.2]
  have hsome := isSome_eq_of_rel hlast
  rw [Bool.eq_iff_iff, List.find?_isSome, List.find?_isSome] at hsome
  rw [isSome_typeDef?_laid]
  simpa using hsome.symm

/-- A type that the schema knows has constructors, unless it was emptied. -/
lemma hasType_iff_not_emptied {name : String}
    (hknown : ((laid layer cs).typeDef? name).isSome) :
    (laid layer cs).HasType name ↔ ¬ Emptied queue name := by
  rw [isSome_typeDef?_of_makes layer hcs] at hknown
  rw [hasType_laid layer hcs, Emptied]
  constructor
  · rintro ⟨e, he, hname, hforce⟩ ⟨-, hnone⟩
    exact hnone e he hname hforce
  · intro h
    by_contra hnone
    exact h ⟨hknown, fun e he hname hforce => hnone ⟨e, he, hname, hforce⟩⟩

lemma grounded_laid (hfault : (laid layer cs).fault? = none) :
    (laid layer cs).Grounded queue := by
  have hlayered : (laid layer cs).Layered queue := layered_laid hcs
  have hfound : ∀ t ∈ (laid layer cs).types, (laid layer cs).typeDef? t.name = some t :=
    fun t ht => typeDef?_eq (nodup_typeNames_laid layer cs) ht
  have hmembers : ∀ t ∈ (laid layer cs).types, ∀ id ∈ t.members,
      ∃ c ∈ (laid layer cs).constructors, c.id = id ∧ c.type = t.name := by
    intro t ht id hid
    obtain ⟨c, hc, htype⟩ := hlayered.member.1 ⟨t, hfound t ht, hid⟩
    obtain ⟨hmem, hid⟩ := hlayered.found.1 hc
    exact ⟨c, hmem, hid, htype⟩
  refine ⟨hmembers, ?types, ?listed, ?references⟩
  case types =>
    intro t ht
    exact hasType_iff_not_emptied layer hcs (Option.isSome_of_eq_some (hfound t ht))
  case listed =>
    intro t ht
    constructor
    · intro hne
      obtain ⟨id, hid⟩ := List.exists_mem_of_ne_nil _ hne
      obtain ⟨c, hc, -, htype⟩ := hmembers t ht id hid
      exact ⟨c, hc, htype⟩
    · rintro ⟨c, hc, htype⟩
      obtain ⟨t', ht', hid⟩ := hlayered.member.2 ⟨c, hlayered.distinct.byId?_eq hc, htype⟩
      obtain rfl := Option.some.inj ((hfound t ht).symm.trans ht')
      exact List.ne_nil_of_mem hid
  case references =>
    intro c hc f hf name hname
    have hsound : (laid layer cs).fieldFault? c.predicate f = none :=
      List.findSome?_eq_none_iff.1 (List.findSome?_eq_none_iff.1 hfault c hc) f hf
    rw [fieldFault?_of_boxedRef hname] at hsound
    refine hasType_iff_not_emptied layer hcs ?_
    by_contra hunknown
    rw [if_neg hunknown] at hsound
    cases hsound

/-- A reference to a name that nothing declares is a fault. -/
lemma fieldFault?_of_not_hasType {f : Field} {name : String} (hf : f.boxedRef? = some name)
    (hnone : ¬ (laid layer cs).HasType name) (hkept : ¬ Emptied queue name) (predicate : String) :
    (laid layer cs).fieldFault? predicate f = some (.unresolved predicate f.name name) := by
  have hunknown : ¬ ((laid layer cs).typeDef? name).isSome := fun hknown =>
    hnone ((hasType_iff_not_emptied layer hcs hknown).2 hkept)
  rw [fieldFault?_of_boxedRef hf, if_neg hunknown]

end

/-- **No types without constructors, but for the emptied ones.**  In a schema that was built,
exactly the types that were emptied have no constructors, and a boxed reference leads to a type that
has, or to one of these.  A reference to any other name without constructors is reported, if nothing
before it is at fault. -/
theorem grounded_of_build (additions : List Addition) :
    (∀ s, (given additions).build = .ok s → s.Grounded (Addition.queued additions)) ∧
    ∀ cs, List.Forall₂ Makes (Addition.queued additions) cs →
      ∀ c f name, (laid (given additions).layer cs).SoundBefore c f → f.boxedRef? = some name →
        ¬ (laid (given additions).layer cs).HasType name →
          ¬ Emptied (Addition.queued additions) name →
            (given additions).build = .error (.unresolved c.predicate f.name name) := by
  constructor
  · intro s hb
    obtain ⟨cs, hcs, hfault, rfl⟩ := build_eq_ok.1 hb
    rw [queue_given] at hcs
    exact grounded_laid _ hcs hfault
  · intro cs hcs c f name hbefore hf hnone hkept
    have hfault := fault?_of_soundBefore hbefore
      (fieldFault?_of_not_hasType _ hcs hf hnone hkept c.predicate)
    rw [← queue_given] at hcs
    rw [build_of_makes hcs, hfault]

section

/-- A constructor moves to another type, and one stays in the type to which a field refers. -/
def movedText : List Char :=
  "a#00000001 = T;\nb#00000002 = T;\nc#00000003 x:T = C;\na#00000001 = U;".toList

/-- A field refers to a type that nothing declares. -/
def loneText : List Char :=
  "a#00000001 x:int y:T = A;".toList

/-- The field to nowhere. -/
def loneField : Field :=
  ⟨"y", .value (.named ⟨"T", false, false⟩), none⟩

/-- The constructor with the field. -/
def lone : Constructor :=
  ⟨"a", 1, "A", [⟨"x", .value (.named ⟨"int", true, false⟩), none⟩, loneField], true⟩

theorem movedText_grounded :
    (∃ s, (given [.source movedText .api]).build = .ok s ∧
      s.Grounded (Addition.queued [.source movedText .api]) ∧ s.HasType "T") ∧
    (given [.source loneText .api]).build = .error (.unresolved "a" "y" "T") := by
  constructor
  · have hsome : ((given [.source movedText .api]).build.toOption.map fun s =>
        decide (s.HasType "T")) = some true := by decide +kernel
    obtain ⟨s, hs, htype⟩ := Option.map_eq_some_iff.1 hsome
    have hb := eq_ok_of_toOption hs
    exact ⟨s, hb, (grounded_of_build _).1 s hb, of_decide_eq_true htype⟩
  · have hmakes : List.Forall₂ Makes (Addition.queued [.source loneText .api]) [lone] :=
      mapM_constructorOf_eq_ok.1 (eq_ok_of_toOption (by decide +kernel))
    refine (grounded_of_build [.source loneText .api]).2 [lone] hmakes lone loneField "T" ?_ rfl
      (by decide +kernel) (by decide +kernel)
    exact ⟨[], [], lone.fields.take 1, [], by decide +kernel, rfl, by simp, by decide +kernel⟩

/-- The only constructor of a type moves to another type after a field has referred to it. -/
def emptiedText : List Char :=
  "a#00000001 = T;\nb#00000002 x:T = B;\na#00000001 = U;".toList

theorem emptied_passes : ∃ s, (given [.source emptiedText .api]).build = .ok s ∧
    s.typeDef? "T" = some ⟨"T", []⟩ ∧ ¬ s.HasType "T" ∧
      ∃ c ∈ s.constructors, ∃ f ∈ c.fields, f.boxedRef? = some "T" := by
  have hsome : ((given [.source emptiedText .api]).build.toOption.map fun s =>
      (s.typeDef? "T", decide (s.HasType "T"),
        s.constructors.any fun c => c.fields.any (·.boxedRef? == some "T"))) =
          some (some ⟨"T", []⟩, false, true) := by decide +kernel
  obtain ⟨s, hs, hparts⟩ := Option.map_eq_some_iff.1 hsome
  obtain ⟨hdef, hrest⟩ := Prod.mk.inj hparts
  obtain ⟨htype, hany⟩ := Prod.mk.inj hrest
  obtain ⟨c, hc, hany⟩ := List.any_eq_true.1 hany
  obtain ⟨f, hf, href⟩ := List.any_eq_true.1 hany
  exact ⟨s, eq_ok_of_toOption hs, hdef, of_decide_eq_false htype, c, hc, f, hf, eq_of_beq href⟩

end

end Schema

end TypeLang
