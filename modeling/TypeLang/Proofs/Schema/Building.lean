import Mathlib.Data.List.Forall2
import Mathlib.Tactic
import TypeLang.Proofs.Results
import TypeLang.Schema.Builder

/-!
# What is built

A queue makes a row of constructors, one for each declaration, and the schema is laid out of them in
that order.  Building fails where a declaration makes none, or where a reference of the finished
schema leads nowhere; `build_eq_ok` says that there is no other way.
-/

namespace TypeLang

open Declaration

/-- A queued declaration with its origin. -/
abbrev Entry : Type :=
  Combinator × Origin

/-- The schema of some constructors that are put in one after another. -/
def Schema.laid (layer : Option Int) (cs : List Constructor) : Schema :=
  cs.foldl Schema.add { Schema.empty with layer }

namespace Builder

/-- A queued declaration makes a constructor. -/
def Makes (e : Entry) (c : Constructor) : Prop :=
  constructorOf e = .ok c

lemma eq_of_makes {e : Entry} {c : Constructor} (h : Makes e c) :
    c.id = e.1.id ∧ c.predicate = e.1.name.full ∧ c.type = e.1.result.head.name.full := by
  obtain ⟨fields, -, rfl⟩ := map_eq_ok.1 (mapError_eq_ok.1 h)
  exact ⟨rfl, rfl, rfl⟩

lemma fieldsOf_of_makes {e : Entry} {c : Constructor} (h : Makes e c) :
    Constructor.fieldsOf e.1.args = .ok c.fields := by
  obtain ⟨fields, hfields, rfl⟩ := map_eq_ok.1 (mapError_eq_ok.1 h)
  exact hfields

lemma exists_makes_of_mem {queue : List Entry} {cs : List Constructor}
    (h : List.Forall₂ Makes queue cs) {c : Constructor} (hc : c ∈ cs) :
    ∃ e ∈ queue, Makes e c := by
  induction h with
  | nil => simp at hc
  | @cons e k es ks hmakes _ ih =>
      rcases List.mem_cons.1 hc with rfl | hmem
      · exact ⟨e, List.mem_cons_self, hmakes⟩
      · obtain ⟨x, hx, hmakes⟩ := ih hmem
        exact ⟨x, List.mem_cons_of_mem _ hx, hmakes⟩

lemma mapM_constructorOf_eq_ok {queue : List Entry} {cs : List Constructor} :
    queue.mapM constructorOf = .ok cs ↔ List.Forall₂ Makes queue cs := by
  induction queue generalizing cs with
  | nil => simp [pure, Except.pure, eq_comm]
  | cons e rest ih =>
      rw [List.mapM_cons, List.forall₂_cons_left_iff]
      cases hc : constructorOf e with
      | error fault => simp [bind, Except.bind, Makes, hc]
      | ok c =>
          cases hmore : rest.mapM constructorOf with
          | error fault => simp [bind, Except.bind, Makes, hc, ← ih, hmore]
          | ok more => simp [bind, Except.bind, pure, Except.pure, Makes, hc, ← ih, hmore, eq_comm]

/-- The constructors that the queue makes are laid out, and the schema is given out if nothing is
wrong with it. -/
lemma build_of_makes {b : Builder} {cs : List Constructor} (h : List.Forall₂ Makes b.queue cs) :
    b.build = match (Schema.laid b.layer cs).fault? with
      | some fault => .error fault
      | none => .ok (Schema.laid b.layer cs) := by
  unfold build
  rw [mapM_constructorOf_eq_ok.2 h]
  show (match (Schema.laid b.layer cs).fault? with
    | some fault => throw fault
    | none => return Schema.laid b.layer cs) = _
  cases (Schema.laid b.layer cs).fault? <;> rfl

/-- A schema is built from the constructors that the queue makes, if its references lead
somewhere. -/
lemma build_eq_ok {b : Builder} {s : Schema} : b.build = .ok s ↔
    ∃ cs, List.Forall₂ Makes b.queue cs ∧ (Schema.laid b.layer cs).fault? = none ∧
      s = Schema.laid b.layer cs := by
  constructor
  · intro h
    cases hcs : b.queue.mapM constructorOf with
    | error fault =>
        rw [build, hcs] at h
        cases h
    | ok cs =>
        have hmakes := mapM_constructorOf_eq_ok.1 hcs
        rw [build_of_makes hmakes] at h
        cases hfault : (Schema.laid b.layer cs).fault? with
        | some fault => simp [hfault] at h
        | none => exact ⟨cs, hmakes, hfault, by simpa [hfault] using h.symm⟩
  · rintro ⟨cs, hmakes, hfault, rfl⟩
    rw [build_of_makes hmakes, hfault]

end Builder

end TypeLang
