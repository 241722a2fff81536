import TypeLang.Proofs.Schema.Indexes
import TypeLang.Proofs.Schema.Queue

/-!
# Schemas in layers

Sources are laid over each other: a later declaration replaces what an earlier one with its number
made.  What a schema holds is therefore said in terms of the last queued declarations, whatever the
history before them: the last one with a number stands under it (`Layered`), and the last one of a
predicate holds it while it is in force.

A predicate may have several holders.  The schema remembers the last of them only, so that replacing
that one hides the others.
-/

namespace TypeLang

open Declaration

/-- The last queued declaration of a predicate. -/
def lastUnder (queue : List Entry) (predicate : String) : Option Entry :=
  queue.reverse.find? (·.1.name.full == predicate)

/-- A queued declaration whose number no later one takes. -/
def InForce (queue : List Entry) (e : Entry) : Prop :=
  queue.reverse.find? (·.1.id == e.1.id) = some e

instance (queue : List Entry) (e : Entry) : Decidable (InForce queue e) :=
  inferInstanceAs (Decidable (_ = _))

section

variable {α β : Type} {R : α → β → Prop} {x : Option α} {y : Option β}

lemma cases_of_rel (h : Option.Rel R x y) :
    (x = none ∧ y = none) ∨ ∃ a b, x = some a ∧ y = some b ∧ R a b := by
  cases h with
  | none => exact .inl ⟨rfl, rfl⟩
  | some hab => exact .inr ⟨_, _, rfl, rfl, hab⟩

lemma isSome_eq_of_rel (h : Option.Rel R x y) : x.isSome = y.isSome := by
  cases h <;> rfl

end

namespace Builder

lemma eq_some_iff_of_rel {x : Option Entry} {y : Option Constructor} (h : Option.Rel Makes x y)
    {c : Constructor} : y = some c ↔ ∃ e ∈ x, Makes e c := by
  cases h with
  | none => simp
  | @some e k hmakes =>
      have hk : constructorOf e = .ok k := hmakes
      simp [Makes, hk]

/-- What is last of its kind among the queued declarations makes what is last among the
constructors. -/
lemma last_of_makes {queue : List Entry} {cs : List Constructor}
    (h : List.Forall₂ Makes queue cs) {p : Entry → Bool} {q : Constructor → Bool}
    (hpq : ∀ {e c}, Makes e c → p e = q c) :
    Option.Rel Makes (queue.reverse.find? p) (cs.reverse.find? q) := by
  have hreverse : List.Forall₂ Makes queue.reverse cs.reverse := List.rel_reverse h
  generalize queue.reverse = es at hreverse
  generalize cs.reverse = ds at hreverse
  induction hreverse with
  | nil => exact .none
  | @cons e c es ds hmakes _ ih =>
      rw [List.find?_cons, List.find?_cons, hpq hmakes]
      cases q c with
      | true => exact .some hmakes
      | false => exact ih

section

variable (layer : Option Int) {queue : List Entry} {cs : List Constructor}
  (hcs : List.Forall₂ Makes queue cs)

include hcs

/-- Under a number stands what the last declaration with it makes. -/
lemma rel_byId? (id : UInt32) :
    Option.Rel Makes (queue.reverse.find? (·.1.id == id)) ((Schema.laid layer cs).byId? id) := by
  rw [Schema.byId?_laid]
  exact last_of_makes hcs fun hmakes => by rw [(eq_of_makes hmakes).1]

lemma rel_predicate (predicate : String) :
    Option.Rel Makes (lastUnder queue predicate)
      (cs.reverse.find? (·.predicate == predicate)) :=
  last_of_makes hcs fun hmakes => by rw [(eq_of_makes hmakes).2.1]

end

end Builder

namespace Schema

open Builder

/-- A schema holds what the last of the queued declarations with each number makes, and groups it
by types. -/
structure Layered (queue : List Entry) (s : Schema) : Prop where
  /-- Every number is held once. -/
  distinct : s.HasDistinctIds
  /-- To look up a number is to find its constructor. -/
  found : ∀ {id c}, s.byId? id = some c ↔ c ∈ s.constructors ∧ c.id = id
  /-- The numbers are those of the queue. -/
  declared : ∀ id, (s.byId? id).isSome ↔ ∃ e ∈ queue, e.1.id = id
  /-- The last declaration with a number counts. -/
  last : ∀ {id e}, queue.reverse.find? (·.1.id == id) = some e →
    ∃ c, constructorOf e = .ok c ∧ s.byId? id = some c
  /-- No type lists a number twice. -/
  nodup : ∀ {name t}, s.typeDef? name = some t → t.members.Nodup
  /-- A type lists the numbers under which constructors of the type stand now. -/
  member : ∀ {name id}, (∃ t, s.typeDef? name = some t ∧ id ∈ t.members) ↔
    ∃ c, s.byId? id = some c ∧ c.type = name

lemma mem_idsOf {s : Schema} {name : String} {id : UInt32} :
    id ∈ s.idsOf name ↔ ∃ t, s.typeDef? name = some t ∧ id ∈ t.members := by
  unfold idsOf
  cases s.typeDef? name <;> simp

lemma layered_laid {layer : Option Int} {queue : List Entry} {cs : List Constructor}
    (hcs : List.Forall₂ Makes queue cs) : (laid layer cs).Layered queue := by
  have hs := indexed_laid layer cs
  have hdistinct := hasDistinctIds_laid layer cs
  refine ⟨hdistinct, ?found, ?declared, ?last, ?nodup, ?member⟩
  case found =>
    intro id c
    refine ⟨fun hc => ⟨mem_of_byId? hc, by simpa using List.find?_some hc⟩, ?_⟩
    rintro ⟨hc, rfl⟩
    exact hdistinct.byId?_eq hc
  case declared =>
    intro id
    rw [← isSome_eq_of_rel (rel_byId? layer hcs id), List.find?_isSome]
    simp
  case last =>
    intro id e he
    have hrel := rel_byId? layer hcs id
    rw [he] at hrel
    cases hc : (laid layer cs).byId? id with
    | none => simp [hc] at hrel
    | some c =>
        obtain ⟨k, hk, hmakes⟩ := (eq_some_iff_of_rel hrel).1 hc
        obtain rfl := Option.some.inj hk
        exact ⟨c, hmakes, rfl⟩
  case nodup =>
    intro name t ht
    simpa [idsOf, ht] using hs.nodup name
  case member =>
    intro name id
    rw [← mem_idsOf]
    exact hs.member

/-- **A schema is consistent after any layering.**  Whatever sources and declarations a builder is
given, the schema that it builds holds what was queued last under each number, grouped by types. -/
theorem layered_of_build {additions : List Addition} {s : Schema}
    (h : (Builder.given additions).build = .ok s) :
    s.Layered (Addition.queued additions) := by
  obtain ⟨cs, hcs, -, rfl⟩ := build_eq_ok.1 h
  rw [queue_given] at hcs
  exact layered_laid hcs

/-- Three layers.  The second renames a constructor and moves it to another type, and the third
moves it back. -/
def relayered : List Addition :=
  [.source "a#00000001 = T;\nb#00000002 = T;\n---functions---\nf#00000003 = T;".toList .api,
    .declaration ⟨⟨[], "c"⟩, 1, [], .plain ⟨⟨[], "U"⟩, false, false⟩, .types⟩ .secret,
    .source "d#00000001 x:int = T;".toList .mtproto]

lemma exists_relayered : ∃ s, (Builder.given relayered).build = .ok s ∧
    s.typeDef? "T" = some ⟨"T", [2, 1]⟩ ∧ s.typeDef? "U" = some ⟨"U", []⟩ := by
  have hsome : ((Builder.given relayered).build.toOption.map fun s =>
      (s.typeDef? "T", s.typeDef? "U")) = some (some ⟨"T", [2, 1]⟩, some ⟨"U", []⟩) := by
    decide +kernel
  obtain ⟨s, hs, htypes⟩ := Option.map_eq_some_iff.1 hsome
  exact ⟨s, eq_ok_of_toOption hs, congrArg Prod.fst htypes, congrArg Prod.snd htypes⟩

theorem relayered_layered : ∃ s, (Builder.given relayered).build = .ok s ∧
    s.Layered (Addition.queued relayered) ∧ s.typeDef? "T" = some ⟨"T", [2, 1]⟩ ∧
      s.typeDef? "U" = some ⟨"U", []⟩ := by
  obtain ⟨s, hs, hT, hU⟩ := exists_relayered
  exact ⟨s, hs, layered_of_build hs, hT, hU⟩

/-! ## Predicates -/

lemma find?_eq_of_both {α : Type} {p q : α → Bool} {as : List α} {a b : α}
    (ha : as.find? p = some a) (hb : as.find? q = some b) (hqa : q a = true) (hpb : p b = true) :
    a = b := by
  induction as with
  | nil => simp at ha
  | cons x rest ih =>
      rw [List.find?_cons] at ha hb
      cases hp : p x with
      | true =>
          rw [hp] at ha
          obtain rfl := Option.some.inj ha
          simpa [hqa] using hb
      | false =>
          rw [hp] at ha
          cases hq : q x with
          | true =>
              rw [hq] at hb
              obtain rfl := Option.some.inj hb
              simp [hp] at hpb
          | false =>
              rw [hq] at hb
              exact ih ha hb

section

variable (layer : Option Int) {queue : List Entry} {cs : List Constructor}
  (hcs : List.Forall₂ Makes queue cs)

include hcs

lemma byPredicate?_laid_eq_some {predicate : String} {c : Constructor} :
    (laid layer cs).byPredicate? predicate = some c ↔
      ∃ e ∈ lastUnder queue predicate, InForce queue e ∧ constructorOf e = .ok c := by
  have hlast : cs.reverse.find? (·.predicate == predicate) = some c ↔
      ∃ e ∈ lastUnder queue predicate, Makes e c :=
    eq_some_iff_of_rel (rel_predicate hcs predicate)
  have hstands : (laid layer cs).byId? c.id = some c ↔
      ∃ e ∈ queue.reverse.find? (·.1.id == c.id), Makes e c :=
    eq_some_iff_of_rel (rel_byId? layer hcs c.id)
  rw [byPredicate?_laid, Option.filter_eq_some_iff, decide_eq_true_iff, hlast, hstands]
  constructor
  · rintro ⟨⟨e, he, hmakes⟩, e', he', hmakes'⟩
    obtain ⟨hid, hname, -⟩ := eq_of_makes hmakes
    obtain ⟨-, hname', -⟩ := eq_of_makes hmakes'
    have hpredicate : e.1.name.full = predicate := by simpa using List.find?_some he
    obtain rfl : e = e' :=
      find?_eq_of_both he he' (by simp [hid]) (by simp [← hname', hname, hpredicate])
    refine ⟨e, he, ?_, hmakes⟩
    rw [InForce, ← hid]
    exact he'
  · rintro ⟨e, he, hforce, hmakes⟩
    obtain ⟨hid, -, -⟩ := eq_of_makes hmakes
    exact ⟨⟨e, he, hmakes⟩, e, by rwa [hid], hmakes⟩

/-- Every constructor is what a declaration in force makes. -/
lemma exists_inForce {c : Constructor} (hc : c ∈ (laid layer cs).constructors) :
    ∃ e ∈ queue, InForce queue e ∧ Makes e c := by
  have hstands := (hasDistinctIds_laid layer cs).byId?_eq hc
  obtain ⟨e, he, hmakes⟩ := (eq_some_iff_of_rel (rel_byId? layer hcs c.id)).1 hstands
  refine ⟨e, by simpa using List.mem_of_find?_eq_some he, ?_, hmakes⟩
  rw [InForce, ← (eq_of_makes hmakes).1]
  exact he

/-- What a predicate leads to was queued last under it. -/
lemma exists_lastUnder {predicate : String} {c : Constructor}
    (hc : c ∈ (laid layer cs).constructors) (hholds : c.predicate = predicate) :
    ∃ e, lastUnder queue predicate = some e := by
  obtain ⟨e, hmem, -, hmakes⟩ := exists_inForce layer hcs hc
  have hname := (eq_of_makes hmakes).2.1
  refine Option.isSome_iff_exists.1 (List.find?_isSome.2 ⟨e, by simpa using hmem, ?_⟩)
  simp [← hname, hholds]

end

/-- **What a predicate leads to.**  It is what the last declaration of the predicate makes, while no
later declaration takes its number.  So what is found is a holder of the predicate and the last that
was declared, but a predicate with holders leads nowhere once its last declaration is replaced. -/
theorem found_by_predicate_of_build {additions : List Addition} {s : Schema}
    (h : (Builder.given additions).build = .ok s) (predicate : String) :
    (∀ c, s.byPredicate? predicate = some c ↔
      ∃ e ∈ lastUnder (Addition.queued additions) predicate,
        InForce (Addition.queued additions) e ∧ constructorOf e = .ok c) ∧
    (∀ c, s.byPredicate? predicate = some c → c ∈ s.constructors ∧ c.predicate = predicate) ∧
    ((∃ c ∈ s.constructors, c.predicate = predicate) →
      ((s.byPredicate? predicate).isSome ↔
        ∀ e ∈ lastUnder (Addition.queued additions) predicate,
          InForce (Addition.queued additions) e)) := by
  obtain ⟨cs, hcs, -, rfl⟩ := build_eq_ok.1 h
  rw [queue_given] at hcs
  have hanswer : ∀ c, (laid (given additions).layer cs).byPredicate? predicate = some c ↔ _ :=
    fun c => byPredicate?_laid_eq_some (given additions).layer hcs
  refine ⟨hanswer, ?member, ?complete⟩
  case member =>
    intro c hc
    rw [byPredicate?_laid, Option.filter_eq_some_iff, decide_eq_true_iff] at hc
    exact ⟨mem_of_byId? hc.2, by simpa using List.find?_some hc.1⟩
  case complete =>
    rintro ⟨c, hc, hholds⟩
    obtain ⟨e, he⟩ := exists_lastUnder (given additions).layer hcs hc hholds
    rw [Option.isSome_iff_exists]
    constructor
    · rintro ⟨k, hk⟩ e' he'
      obtain ⟨e'', he'', hforce, -⟩ := (hanswer k).1 hk
      obtain rfl := Option.some.inj (he'.symm.trans he'')
      exact hforce
    · intro hforce
      have hmakes := rel_predicate hcs predicate
      rw [he] at hmakes
      obtain ⟨k, hk⟩ := Option.isSome_iff_exists.1 (isSome_eq_of_rel hmakes).symm
      obtain ⟨e', he', hmakes⟩ := (eq_some_iff_of_rel hmakes).1 hk
      obtain rfl := Option.some.inj he'
      exact ⟨k, (hanswer k).2 ⟨e, he, hforce e he, hmakes⟩⟩

/-- Two constructors share a predicate, and then the later one of them is renamed. -/
def renamed : List Addition :=
  [.source "a#00000001 = T;\na#00000002 = U;\nb#00000002 = U;".toList .api]

/-- The declaration that renames. -/
def newName : Entry :=
  (⟨⟨[], "b"⟩, 2, [], .plain ⟨⟨[], "U"⟩, false, false⟩, .types⟩, .api)

lemma exists_renamed : ∃ s, (Builder.given renamed).build = .ok s ∧
    s.constructors = [⟨"a", 1, "T", [], true⟩, ⟨"b", 2, "U", [], true⟩] ∧
      s.byPredicate? "a" = none ∧ s.bare? "a" = none := by
  have hsome : ((Builder.given renamed).build.toOption.map fun s =>
      (s.constructors, s.byPredicate? "a", s.bare? "a")) =
        some ([⟨"a", 1, "T", [], true⟩, ⟨"b", 2, "U", [], true⟩], none, none) := by
    decide +kernel
  obtain ⟨s, hs, hparts⟩ := Option.map_eq_some_iff.1 hsome
  obtain ⟨hconstructors, hrest⟩ := Prod.mk.inj hparts
  obtain ⟨hpredicate, hbare⟩ := Prod.mk.inj hrest
  exact ⟨s, eq_ok_of_toOption hs, hconstructors, hpredicate, hbare⟩

theorem renamed_found : ∃ s, (Builder.given renamed).build = .ok s ∧
    s.byPredicate? "b" = some ⟨"b", 2, "U", [], true⟩ := by
  obtain ⟨s, hs, -⟩ := exists_renamed
  have hlast : lastUnder (Addition.queued renamed) "b" = some newName := by decide +kernel
  have hforce : InForce (Addition.queued renamed) newName := by decide +kernel
  exact ⟨s, hs, ((found_by_predicate_of_build hs "b").1 _).2 ⟨newName, hlast, hforce, rfl⟩⟩

/-- A constructor that still holds the predicate is found neither by it nor as a bare type. -/
theorem renamed_hides_namesake : ∃ s, (Builder.given renamed).build = .ok s ∧
    (∃ c ∈ s.constructors, c.predicate = "a") ∧ s.byPredicate? "a" = none ∧
      s.bare? "a" = none := by
  obtain ⟨s, hs, hconstructors, hpredicate, hbare⟩ := exists_renamed
  exact ⟨s, hs, ⟨⟨"a", 1, "T", [], true⟩, by simp [hconstructors], rfl⟩, hpredicate, hbare⟩

end Schema

end TypeLang
