import TypeLang.Proofs.Plan.Making

/-!
# Finished plans

The plan of a schema holds a routine for every type and every constructor, each the one that its
references make of it when they are looked up in the plan itself, and the two dispatches over
objects.  No routine that a subject refers to is still to come.
-/

namespace TypeLang.Plan

open Wire

variable {s : Schema}

/-- The numbers and routines of a plan are those of the schema. -/
structure Finished (s : Schema) (p : Plan) : Prop where
  any : ∃ d, dispatchOver (found s p) objectName (objects s) = .ok d ∧
    p.routine anyObject = .dispatch d
  top : ∃ d, dispatchOver (found s p) objectName (standalone s) = .ok d ∧
    p.routine topLevel = .dispatch d
  type : ∀ {name t}, s.typeDef? name = some t → name ≠ objectName →
    ∃ n d, p.number? (.type name) = some n ∧
      dispatchOver (found s p) name (s.members t) = .ok d ∧ p.routine n = .dispatch d
  member : ∀ c : s.Member, ∃ n b, p.number? (.constructor c.val.id) = some n ∧
    bodyOf (found s p) c.val = .ok b ∧ p.routine n = .body b
  known : ∀ {name n}, p.number? (.type name) = some n → (s.typeDef? name).isSome

/-! ## What is numbered -/

lemma isOk_ofType_of_numberTypes {numbers : Numbering s (Except Fault)} {types : List TypeDef}
    (h : numberTypes numbers types = .ok ()) {t : TypeDef} (ht : t ∈ types) :
    ∃ n, numbers.ofType t.name = .ok n := by
  induction types with
  | nil => simp at ht
  | cons u rest ih =>
      obtain ⟨n, hn, hrest⟩ := bind_eq_ok.1 h
      rcases List.mem_cons.1 ht with rfl | hmem
      · exact ⟨n, hn⟩
      · exact ih hrest hmem

lemma isOk_ofMember_of_numberMembers {numbers : Numbering s (Except Fault)}
    {members : List s.Member} (h : numberMembers numbers members = .ok ()) {c : s.Member}
    (hc : c ∈ members) : ∃ n, numbers.ofMember c = .ok n := by
  induction members with
  | nil => simp at hc
  | cons u rest ih =>
      obtain ⟨n, hn, hrest⟩ := bind_eq_ok.1 h
      rcases List.mem_cons.1 hc with rfl | hmem
      · exact ⟨n, hn⟩
      · exact ih hrest hmem

/-! ## The dispatches over objects -/

lemma put_eq_ok {bound : ℕ} {n : ℕ} {r : Routine} {p q : Draft s bound} {u : Unit}
    (h : put n r p = .ok (u, q)) : q.val = p.val.fill n r := by
  cases h
  rfl

/-- Putting in a dispatch over objects touches no number. -/
lemma consistent_put {p : Plan} {n : ℕ} {r : Routine} (hp : Consistent s [] p)
    (hn : n ≤ topLevel) (hreserved : p.routine n = .reserved) :
    Consistent s [] (p.fill n r) where
  range {x m} hx := by
    simpa using hp.range hx
  injective hx hy := hp.injective hx hy
  pending hx := absurd hx List.not_mem_nil
  settled {x m} hx hmem q hq := by
    have hm := (hp.range hx).1
    rw [routine_fill, if_neg (by omega)]
    exact hp.settled hx hmem ((extends_fill r hreserved).trans hq)
  room := by simpa using hp.room
  taken hm hsize := hp.taken hm (by simpa using hsize)
  object := hp.object

lemma of_put {bound n : ℕ} {r : Routine} {p q : Draft s bound} {u : Unit}
    (hp : Consistent s [] p.val) (hn : n ≤ topLevel) (hreserved : p.val.routine n = .reserved)
    (h : put n r p = .ok (u, q)) : Consistent s [] q.val ∧ Extends p.val q.val := by
  rw [put_eq_ok h]
  exact ⟨consistent_put hp hn hreserved, extends_fill r hreserved⟩

lemma consistent_blank : Consistent s [] blank where
  range hx := by simp [blank, number?] at hx
  injective hx := by simp [blank, number?] at hx
  pending hx := absurd hx List.not_mem_nil
  settled hx := by simp [blank, number?] at hx
  room := by decide
  taken {n} hn hsize := absurd hn (Nat.not_lt.2 (Nat.le_of_lt_succ hsize))
  object := rfl

/-! ## Compiling -/

/-- What a plan holds for a subject, once nothing is still to come. -/
lemma routineFor_found {p : Plan} {x : Subject} {n : ℕ} (hp : Consistent s [] p)
    (hx : p.number? x = some n) : routineFor s (found s p) x = .ok (p.routine n) :=
  hp.settled hx List.not_mem_nil (.refl p)

/-- A plan that is consistent, with nothing still to come, holds the routine of every type and every
constructor that it numbers. -/
lemma finished_of_consistent (hs : s.HasDistinctIds) {p : Plan} (hp : Consistent s [] p)
    (htypes : numberTypes (found s p) s.types = .ok ())
    (hmembers : numberMembers (found s p) s.constructors.attach = .ok ())
    (hany : ∃ d, dispatchOver (found s p) objectName (objects s) = .ok d ∧
      p.routine anyObject = .dispatch d)
    (htop : ∃ d, dispatchOver (found s p) objectName (standalone s) = .ok d ∧
      p.routine topLevel = .dispatch d) : Finished s p where
  any := hany
  top := htop
  type := by
    intro name t ht hname
    obtain rfl : t.name = name := by simpa using List.find?_some ht
    obtain ⟨n, hn⟩ := isOk_ofType_of_numberTypes htypes (List.mem_of_find?_eq_some ht)
    simp only [found, hname, if_false] at hn
    have hnumber := lookUp_eq_ok.1 hn
    have hroutine := routineFor_found hp hnumber
    simp only [routineFor, ht] at hroutine
    obtain ⟨d, hd, hpure⟩ := bind_eq_ok.1 hroutine
    exact ⟨n, d, hnumber, hd, (Except.ok.inj hpure).symm⟩
  member := by
    intro c
    obtain ⟨n, hn⟩ := isOk_ofMember_of_numberMembers hmembers (List.mem_attach _ c)
    have hnumber := lookUp_eq_ok.1 hn
    have hroutine := routineFor_found hp hnumber
    simp only [routineFor, hs.member?_id] at hroutine
    obtain ⟨b, hb, hpure⟩ := bind_eq_ok.1 hroutine
    exact ⟨n, b, hnumber, hb, (Except.ok.inj hpure).symm⟩
  known := by
    intro name n hn
    have hroutine := routineFor_found hp hn
    cases ht : s.typeDef? name with
    | some t => rfl
    | none => simp [routineFor, ht] at hroutine

lemma consistent_and_finished_of_compile (hs : s.HasDistinctIds) {p : Plan}
    (h : compile s = .ok p) : Consistent s [] p ∧ Finished s p := by
  have hmaking := keepsNumbers_making hs (awaited s blank + 1)
  unfold compile at h
  split at h
  case h_2 => cases h
  case h_1 u q hrun =>
  cases h
  unfold makePlan at hrun
  obtain ⟨_, p₁, hp₁, hrun⟩ := run_bind_eq_ok.1 hrun
  obtain ⟨_, p₂, hp₂, hrun⟩ := run_bind_eq_ok.1 hrun
  obtain ⟨any, p₃, hp₃, hrun⟩ := run_bind_eq_ok.1 hrun
  obtain ⟨_, p₄, hp₄, hrun⟩ := run_bind_eq_ok.1 hrun
  obtain ⟨top, p₅, hp₅, hrun⟩ := run_bind_eq_ok.1 hrun
  -- Each stage lets the plan grow; between them the two reserved places are filled.
  obtain ⟨hg₁, hc₁, hl₁⟩ := (keeps_numberTypes hmaking _).of_run consistent_blank hp₁
  obtain ⟨hg₂, hc₂, hl₂⟩ := (keeps_numberMembers hmaking _).of_run hc₁ hp₂
  obtain ⟨hg₃, hc₃, hl₃⟩ := (keeps_dispatchOver hmaking _ _).of_run hc₂ hp₃
  have hany₃ : p₃.val.routine anyObject = .reserved := by
    rw [hg₃.any, hg₂.any, hg₁.any]
    rfl
  obtain ⟨hc₄, he₄⟩ := of_put hc₃ (by decide) hany₃ hp₄
  obtain ⟨hg₅, hc₅, hl₅⟩ := (keeps_dispatchOver hmaking _ _).of_run hc₄ hp₅
  have htop₅ : p₅.val.routine topLevel = .reserved := by
    rw [hg₅.top, put_eq_ok hp₄, routine_fill, if_neg (by simp [anyObject, topLevel])]
    rw [hg₃.top, hg₂.top, hg₁.top]
    rfl
  obtain ⟨hc, he₅⟩ := of_put hc₅ le_rfl htop₅ hrun
  have he₃ : Extends p₃.val q.val := he₄.trans (hg₅.toExtends.trans he₅)
  have htypes := hl₁ (hg₂.toExtends.trans (hg₃.toExtends.trans he₃))
  have hmembers := hl₂ (hg₃.toExtends.trans he₃)
  refine ⟨hc, finished_of_consistent hs hc htypes hmembers ⟨any, hl₃ he₃, ?_⟩ ⟨top, hl₅ he₅, ?_⟩⟩
  · have hany₄ : p₄.val.routine anyObject = .dispatch any := by
      rw [put_eq_ok hp₄, routine_fill, if_pos ⟨rfl, Nat.lt_of_succ_lt hc₃.room⟩]
    rw [put_eq_ok hrun, routine_fill, if_neg (by simp [anyObject, topLevel]), hg₅.any, hany₄]
  · rw [put_eq_ok hrun, routine_fill, if_pos ⟨rfl, hc₅.room⟩]

/-- In the plan of a schema, no routine is still to come. -/
lemma consistent_of_compile (hs : s.HasDistinctIds) {p : Plan} (h : compile s = .ok p) :
    Consistent s [] p :=
  (consistent_and_finished_of_compile hs h).1

/-- **A schema that compiles has a finished plan.** -/
theorem finished_of_compile (hs : s.HasDistinctIds) {p : Plan} (h : compile s = .ok p) :
    Finished s p :=
  (consistent_and_finished_of_compile hs h).2

end TypeLang.Plan
