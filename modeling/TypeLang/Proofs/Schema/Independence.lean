import TypeLang.Proofs.Schema.Layering

/-!
# Schemas that differ in order only

`Alike` schemas hold the same constructors, in whatever order, and answer every question alike, up
to the order in which a type lists its members.  Whatever looks at a schema through these questions
cannot tell them apart; the first instance is the check of references.

Additions that share neither numbers nor predicates are `Independent`.  The last of two such lists
with a number, or of a predicate, lies in one of them, so it does not matter which comes first.
-/

namespace TypeLang

open Declaration

/-- The same name and, in some order, the same members. -/
def TypeDef.Alike (t t' : TypeDef) : Prop :=
  t.name = t'.name ∧ t.members.Perm t'.members

namespace Schema

/-- Schemas that differ in the order of their parts only. -/
structure Alike (s s' : Schema) : Prop where
  layer : s.layer = s'.layer
  constructors : s.constructors.Perm s'.constructors
  byId : ∀ id, s.byId? id = s'.byId? id
  byPredicate : ∀ predicate, s.byPredicate? predicate = s'.byPredicate? predicate
  typeDef : ∀ name, Option.Rel TypeDef.Alike (s.typeDef? name) (s'.typeDef? name)

namespace Alike

lemma symm {s s' : Schema} (h : s.Alike s') : s'.Alike s where
  layer := h.layer.symm
  constructors := h.constructors.symm
  byId id := (h.byId id).symm
  byPredicate predicate := (h.byPredicate predicate).symm
  typeDef name := by
    rcases cases_of_rel (h.typeDef name) with ⟨ht, ht'⟩ | ⟨t, t', ht, ht', hname, hperm⟩
    · rw [ht, ht']
      exact .none
    · rw [ht, ht']
      exact .some ⟨hname.symm, hperm.symm⟩

variable {s s' : Schema} (h : s.Alike s')

include h

/-! ## Questions -/

lemma isSome_typeDef?_eq (name : String) :
    (s.typeDef? name).isSome = (s'.typeDef? name).isSome :=
  isSome_eq_of_rel (h.typeDef name)

lemma bare?_eq (name : String) : s.bare? name = s'.bare? name := by
  unfold bare?
  rw [h.byPredicate name]
  cases s'.byPredicate? name with
  | some c => rfl
  | none =>
      rcases cases_of_rel (h.typeDef name) with ⟨ht, ht'⟩ | ⟨⟨_, ids⟩, ⟨_, ids'⟩, ht, ht', -, hperm⟩
      · rw [ht, ht']
      · rw [ht, ht']
        -- A single member has no order.
        have hlength : ids.length = ids'.length := hperm.length_eq
        match ids, ids' with
        | [], [] => rfl
        | [only], [only'] =>
            obtain rfl : only = only' := by simpa using hperm
            exact h.byId only
        | _ :: _ :: _, _ :: _ :: _ => rfl

/-! ## References -/

lemma refFault?_eq (predicate field : String) (r : TypeRef) :
    s.refFault? predicate field r = s'.refFault? predicate field r := by
  unfold refFault?
  rw [h.byPredicate, h.isSome_typeDef?_eq]
  rcases cases_of_rel (h.typeDef r.name) with ⟨ht, ht'⟩ | ⟨t, t', ht, ht', -, hperm⟩
  · rw [ht, ht']
  · rw [ht, ht']
    simp only [hperm.length_eq]

lemma fault?_eq_none : s.fault? = none ↔ s'.fault? = none := by
  have hfield : ∀ predicate f, s.fieldFault? predicate f = s'.fieldFault? predicate f := by
    intro predicate f
    unfold fieldFault?
    cases f.kind with
    | value type => exact h.refFault?_eq predicate f.name type.leaf
    | _ => rfl
  simp only [fault?, List.findSome?_eq_none_iff, hfield, h.constructors.mem_iff]

end Alike

/-! ## Runs in either order -/

lemma find?_reverse_append_comm {α : Type} {p : α → Bool} {as bs : List α}
    (h : ∀ a ∈ as, ∀ b ∈ bs, ¬(p a = true ∧ p b = true)) :
    (as ++ bs).reverse.find? p = (bs ++ as).reverse.find? p := by
  simp only [List.reverse_append, List.find?_append]
  cases ha : as.reverse.find? p with
  | none => simp
  | some a =>
      have hnone : bs.reverse.find? p = none := by
        rw [List.find?_eq_none]
        intro b hb hpb
        have hmem : a ∈ as := by simpa using List.mem_of_find?_eq_some ha
        exact h a hmem b (by simpa using hb) ⟨List.find?_some ha, hpb⟩
      simp [hnone]

lemma typeDef?_alike {s s' : Schema} {name : String}
    (hsome : (s.typeDef? name).isSome ↔ (s'.typeDef? name).isSome)
    (hperm : (s.idsOf name).Perm (s'.idsOf name)) :
    Option.Rel TypeDef.Alike (s.typeDef? name) (s'.typeDef? name) := by
  unfold idsOf at hperm
  cases ht : s.typeDef? name with
  | none =>
      rw [ht] at hsome
      cases ht' : s'.typeDef? name with
      | none => exact .none
      | some t' => simp [ht'] at hsome
  | some t =>
      rw [ht] at hsome hperm
      cases ht' : s'.typeDef? name with
      | none => simp [ht'] at hsome
      | some t' =>
          rw [ht'] at hperm
          have hname : t.name = name := by simpa using List.find?_some ht
          have hname' : t'.name = name := by simpa using List.find?_some ht'
          exact .some ⟨hname.trans hname'.symm, hperm⟩

section

variable {cs ds : List Constructor} (layer : Option Int)
  (h : ∀ c ∈ cs, ∀ d ∈ ds, c.id ≠ d.id ∧ c.predicate ≠ d.predicate)

include h

lemma byId?_laid_comm (id : UInt32) :
    (laid layer (cs ++ ds)).byId? id = (laid layer (ds ++ cs)).byId? id := by
  rw [byId?_laid, byId?_laid]
  refine find?_reverse_append_comm fun c hc d hd hboth => (h c hc d hd).1 ?_
  simp only [beq_iff_eq] at hboth
  rw [hboth.1, hboth.2]

/-- Constructors that share neither numbers nor predicates may be put in in either order. -/
lemma alike_laid : (laid layer (cs ++ ds)).Alike (laid layer (ds ++ cs)) where
  layer := by rw [layer_laid, layer_laid]
  byId := byId?_laid_comm layer h
  constructors := by
    have hdistinct := hasDistinctIds_laid layer (cs ++ ds)
    have hdistinct' := hasDistinctIds_laid layer (ds ++ cs)
    refine (List.perm_ext_iff_of_nodup hdistinct.of_map hdistinct'.of_map).2 fun c => ?_
    rw [hdistinct.mem_iff, hdistinct'.mem_iff, byId?_laid_comm layer h]
  byPredicate := by
    intro predicate
    simp only [byPredicate?_laid, byId?_laid_comm layer h]
    congr 1
    refine find?_reverse_append_comm fun c hc d hd hboth => (h c hc d hd).2 ?_
    simp only [beq_iff_eq] at hboth
    rw [hboth.1, hboth.2]
  typeDef := by
    intro name
    have hs := indexed_laid layer (cs ++ ds)
    have hs' := indexed_laid layer (ds ++ cs)
    refine typeDef?_alike ?_ ((List.perm_ext_iff_of_nodup (hs.nodup name) (hs'.nodup name)).2 ?_)
    · rw [isSome_typeDef?_laid, isSome_typeDef?_laid]
      simp only [List.mem_append, or_comm]
    · intro id
      rw [hs.member, hs'.member, byId?_laid_comm layer h]

end

end Schema

/-! ## Independent additions -/

/-- No two declarations, one from each list, share a number or a predicate. -/
def Independent (first second : List Addition) : Prop :=
  ∀ e ∈ Addition.queued first, ∀ e' ∈ Addition.queued second,
    e.1.id ≠ e'.1.id ∧ e.1.name.full ≠ e'.1.name.full

instance (first second : List Addition) : Decidable (Independent first second) :=
  inferInstanceAs (Decidable (∀ e ∈ _, ∀ e' ∈ _, _))

lemma Independent.symm {first second : List Addition} (h : Independent first second) :
    Independent second first :=
  fun e he e' he' => ⟨(h e' he' e he).1.symm, (h e' he' e he).2.symm⟩

namespace Builder

lemma exists_of_makes_append {first second : List Entry} {cs : List Constructor}
    (h : List.Forall₂ Makes (first ++ second) cs) :
    ∃ ds es, List.Forall₂ Makes first ds ∧ List.Forall₂ Makes second es ∧ cs = ds ++ es := by
  induction first generalizing cs with
  | nil => exact ⟨[], cs, .nil, h, rfl⟩
  | cons e rest ih =>
      obtain ⟨c, more, hmakes, hmore, rfl⟩ := List.forall₂_cons_left_iff.1 h
      obtain ⟨ds, es, hds, hes, rfl⟩ := ih hmore
      exact ⟨c :: ds, es, .cons hmakes hds, hes, rfl⟩

/-- What builds in one order builds in the other, and the schemas are alike. -/
lemma exists_build_swapped {first second : List Addition} (h : Independent first second)
    {s : Schema} (hs : (given (first ++ second)).build = .ok s) :
    ∃ s', (given (second ++ first)).build = .ok s' ∧ s.Alike s' := by
  obtain ⟨cs, hcs, hfault, rfl⟩ := build_eq_ok.1 hs
  rw [queue_given, Addition.queued_append] at hcs
  obtain ⟨ds, es, hds, hes, rfl⟩ := exists_of_makes_append hcs
  have hdisjoint : ∀ d ∈ ds, ∀ e ∈ es, d.id ≠ e.id ∧ d.predicate ≠ e.predicate := by
    intro d hd e he
    obtain ⟨x, hx, hmakes⟩ := exists_makes_of_mem hds hd
    obtain ⟨y, hy, hmakes'⟩ := exists_makes_of_mem hes he
    obtain ⟨hid, hname, -⟩ := eq_of_makes hmakes
    obtain ⟨hid', hname', -⟩ := eq_of_makes hmakes'
    rw [hid, hid', hname, hname']
    exact h x hx y hy
  have halike := Schema.alike_laid (given (first ++ second)).layer hdisjoint
  have hlayer : (given (second ++ first)).layer = (given (first ++ second)).layer := by
    rw [layer_given_append, layer_given_append, higherLayer_comm]
  refine ⟨_, build_eq_ok.2 ⟨es ++ ds, ?makes, ?fault, rfl⟩, by rwa [hlayer]⟩
  case makes =>
    rw [queue_given, Addition.queued_append]
    exact List.rel_append hes hds
  case fault =>
    rw [hlayer]
    exact halike.fault?_eq_none.1 hfault

end Builder

end TypeLang
