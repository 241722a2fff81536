import Mathlib.Tactic
import TypeLang.Plan.Compile
import TypeLang.Proofs.Results
import TypeLang.Proofs.Schema.Identity

/-!
# What making a plan keeps

A plan is made by computations that call each other while the routines further up are still to
come.  What holds at every moment is `Consistent`: numbers are taken once, no routine stands where
none was asked for, and the routine of every subject that is not being made right now is the one
that `routineFor` gives for it when its references are only looked up.  That look-up may be done in
any plan that extends the present one, since numbers and routines that are there stay there.

`Keeps` says of a computation that it preserves this, and that its result too can be looked up
later.  The laws of `Keeps` follow the shape of the computations, from a single reference up to
`making`, where the induction is on the bound.
-/

namespace TypeLang.Plan

open Wire

variable {s : Schema}

/-! ## Larger plans -/

/-- Whatever has a number keeps it, and whatever routine is there stays there. -/
structure Extends (p q : Plan) : Prop where
  number : ∀ {x : Subject} {n : ℕ}, p.number? x = some n → q.number? x = some n
  routine : ∀ {n : ℕ}, p.routine n ≠ .reserved → q.routine n = p.routine n

namespace Extends

lemma refl (p : Plan) : Extends p p :=
  ⟨id, fun _ => rfl⟩

lemma trans {p q r : Plan} (hpq : Extends p q) (hqr : Extends q r) : Extends p r where
  number h := hqr.number (hpq.number h)
  routine h := by
    have hq := hpq.routine h
    rw [hqr.routine (by rwa [hq]), hq]

end Extends

/-- A larger plan with the same dispatches over objects. -/
structure Grows (p q : Plan) : Prop extends Extends p q where
  size : p.routines.size ≤ q.routines.size
  any : q.routine anyObject = p.routine anyObject
  top : q.routine topLevel = p.routine topLevel

namespace Grows

lemma refl (p : Plan) : Grows p p :=
  ⟨.refl p, le_rfl, rfl, rfl⟩

lemma trans {p q r : Plan} (hpq : Grows p q) (hqr : Grows q r) : Grows p r :=
  ⟨hpq.toExtends.trans hqr.toExtends, hpq.size.trans hqr.size, hqr.any.trans hpq.any,
    hqr.top.trans hpq.top⟩

end Grows

/-! ## Taking a number and putting in a routine -/

lemma routine_reserve (p : Plan) (x : Subject) (n : ℕ) : (p.reserve x).routine n = p.routine n := by
  simp only [routine, reserve, Array.getD_eq_getD_getElem?, Array.getElem?_push]
  split
  case isTrue h => simp [h]
  case isFalse => rfl

lemma routine_fill (p : Plan) (n m : ℕ) (r : Routine) :
    (p.fill n r).routine m = if n = m ∧ n < p.routines.size then r else p.routine m := by
  simp only [routine, fill, Array.getD_eq_getD_getElem?, Array.getElem?_setIfInBounds]
  by_cases hnm : n = m
  · subst hnm
    by_cases hn : n < p.routines.size <;> simp [hn]
  · simp [hnm]

@[simp] lemma size_fill (p : Plan) (n : ℕ) (r : Routine) :
    (p.fill n r).routines.size = p.routines.size := by
  simp [fill]

@[simp] lemma size_reserve (p : Plan) (x : Subject) :
    (p.reserve x).routines.size = p.routines.size + 1 := by
  simp [reserve]

lemma extends_fill {p : Plan} {n : ℕ} (r : Routine) (h : p.routine n = .reserved) :
    Extends p (p.fill n r) where
  number hx := hx
  routine {m} hm := by
    have hnm : n ≠ m := by rintro rfl; exact hm h
    rw [routine_fill, if_neg (fun hc => hnm hc.1)]

lemma grows_reserve {p : Plan} {x : Subject} (h : p.number? x = none) : Grows p (p.reserve x) where
  number {y n} hy := by
    have hyx : y ≠ x := by rintro rfl; simp [h] at hy
    rw [number?_reserve, if_neg hyx, hy]
  routine _ := routine_reserve p x _
  size := by simp
  any := routine_reserve p x _
  top := routine_reserve p x _

/-! ## The invariant -/

/-- The routine of a subject, given the numbers that it refers to. -/
def routineFor (s : Schema) (numbers : Numbering s (Except Fault)) : Subject → Except Fault Routine
  | .type name =>
    match s.typeDef? name with
    | some t => do return .dispatch (← dispatchOver numbers name (s.members t))
    | none => .error (.unknownType name)
  | .constructor id =>
    match s.member? id with
    | some c => do return .body (← bodyOf numbers c.val)
    | none => .error (.unknownType "")

/-- The numbers and routines of a plan fit together, but for the routines of the subjects in
`opened`, which are still to come. -/
structure Consistent (s : Schema) (opened : List Subject) (p : Plan) : Prop where
  /-- The places before the first number are those of the dispatches over objects. -/
  range : ∀ {x n}, p.number? x = some n → topLevel < n ∧ n < p.routines.size
  /-- No two subjects share a number. -/
  injective : ∀ {x y n}, p.number? x = some n → p.number? y = some n → x = y
  /-- Subjects whose routines are still to come have a number with nothing in its place. -/
  pending : ∀ {x}, x ∈ opened → ∃ n, p.number? x = some n ∧ p.routine n = .reserved
  /-- All others are what the schema makes of their subjects, by the numbers of any later plan. -/
  settled : ∀ {x n}, p.number? x = some n → x ∉ opened →
    ∀ {q : Plan}, Extends p q → routineFor s (found s q) x = .ok (p.routine n)
  /-- There is room for the dispatches over objects. -/
  room : topLevel < p.routines.size
  /-- Every other place is the one of a subject. -/
  taken : ∀ {n}, topLevel < n → n < p.routines.size → ∃ x, p.number? x = some n
  /-- The type of all objects has its dispatch already, and takes no number. -/
  object : p.number? (.type objectName) = none

lemma consistent_reserve {opened : List Subject} {p : Plan} {x : Subject}
    (hp : Consistent s opened p) (h : p.number? x = none) (hx : x ≠ .type objectName) :
    Consistent s (x :: opened) (p.reserve x) where
  range {y n} hy := by
    have := hp.room
    rw [number?_reserve] at hy
    split at hy
    · cases hy
      exact ⟨hp.room, by simp⟩
    · have := hp.range hy
      simp only [size_reserve]
      omega
  injective {y z n} hy hz := by
    rw [number?_reserve] at hy hz
    split at hy <;> split at hz
    case isTrue.isTrue hyx hzx => rw [hyx, hzx]
    case isTrue.isFalse hyx hzx =>
      cases hy
      exact absurd (hp.range hz).2 (lt_irrefl _)
    case isFalse.isTrue hyx hzx =>
      cases hz
      exact absurd (hp.range hy).2 (lt_irrefl _)
    case isFalse.isFalse => exact hp.injective hy hz
  pending {y} hmem := by
    by_cases hyx : y = x
    · refine ⟨p.routines.size, by rw [number?_reserve, if_pos hyx], ?_⟩
      rw [routine_reserve]
      simp [routine]
    · obtain ⟨n, hn, hreserved⟩ := hp.pending ((List.mem_cons.1 hmem).resolve_left hyx)
      exact ⟨n, by rw [number?_reserve, if_neg hyx, hn], by rw [routine_reserve, hreserved]⟩
  settled {y n} hy hmem q hq := by
    have hyx : y ≠ x := fun hyx => hmem (by simp [hyx])
    rw [number?_reserve, if_neg hyx] at hy
    rw [routine_reserve]
    exact hp.settled hy (fun hc => hmem (List.mem_cons_of_mem _ hc))
      ((grows_reserve h).toExtends.trans hq)
  room := by
    have := hp.room
    simp only [size_reserve]
    omega
  taken {n} hn hsize := by
    rw [size_reserve] at hsize
    rcases Nat.lt_succ_iff_lt_or_eq.1 hsize with hlt | rfl
    · obtain ⟨y, hy⟩ := hp.taken hn hlt
      exact ⟨y, (grows_reserve h).number hy⟩
    · exact ⟨x, by rw [number?_reserve, if_pos rfl]⟩
  object := by rw [number?_reserve, if_neg (Ne.symm hx), hp.object]

/-- Putting in the routine of the subject that was opened last closes it. -/
lemma consistent_fill {opened : List Subject} {p : Plan} {x : Subject} {n : ℕ} {r : Routine}
    (hp : Consistent s (x :: opened) p) (hx : p.number? x = some n) (hopen : x ∉ opened)
    (hr : ∀ {q : Plan}, Extends p q → routineFor s (found s q) x = .ok r) :
    Consistent s opened (p.fill n r) := by
  obtain ⟨m, hm, hreserved⟩ := hp.pending (List.mem_cons_self ..)
  obtain rfl : m = n := Option.some.inj (hm.symm.trans hx)
  have hext : Extends p (p.fill m r) := extends_fill r hreserved
  have hother : ∀ {y k}, y ≠ x → p.number? y = some k → (p.fill m r).routine k = p.routine k := by
    intro y k hyx hy
    rw [routine_fill, if_neg]
    rintro ⟨rfl, -⟩
    exact hyx (hp.injective hy hx)
  constructor
  case range =>
    intro y k hy
    simpa using hp.range hy
  case injective => exact hp.injective
  case room => simpa using hp.room
  case taken => exact fun hn hsize => hp.taken hn (by simpa using hsize)
  case object => exact hp.object
  case pending =>
    intro y hmem
    have hyx : y ≠ x := by rintro rfl; exact hopen hmem
    obtain ⟨k, hk, hkr⟩ := hp.pending (List.mem_cons_of_mem _ hmem)
    exact ⟨k, hk, by rw [hother hyx hk, hkr]⟩
  case settled =>
    intro y k hy hmem q hq
    by_cases hyx : y = x
    · subst hyx
      obtain rfl : k = m := Option.some.inj (hy.symm.trans hx)
      rw [routine_fill, if_pos ⟨rfl, (hp.range hx).2⟩]
      exact hr (hext.trans hq)
    · rw [hother hyx hy]
      exact hp.settled hy (by simp [hyx, hmem]) (hext.trans hq)

/-! ## The parts of a run -/

lemma run_bind_eq_ok {bound : ℕ} {α β : Type} {act : Making s bound α}
    {next : α → Making s bound β} {p q : Draft s bound} {b : β} :
    (act >>= next) p = .ok (b, q) ↔ ∃ a m, act p = .ok (a, m) ∧ next a m = .ok (b, q) := by
  show (act p >>= fun am => next am.1 am.2) = _ ↔ _
  rw [bind_eq_ok]
  exact ⟨fun ⟨am, ha, hb⟩ => ⟨am.1, am.2, ha, hb⟩, fun ⟨a, m, ha, hb⟩ => ⟨(a, m), ha, hb⟩⟩

/-! ## Computations that keep the invariant -/

/-- A computation lets plans grow and keeps them consistent, and what it gives could as well be
looked up in any later plan. -/
structure Keeps {bound : ℕ} {α : Type} (act : Making s bound α) (look : Plan → Except Fault α) :
    Prop where
  of_run : ∀ {opened : List Subject} {p q : Draft s bound} {a : α},
    Consistent s opened p.val → act p = .ok (a, q) →
      Grows p.val q.val ∧ Consistent s opened q.val ∧
        ∀ {r : Plan}, Extends q.val r → look r = .ok a

section

variable {bound : ℕ} {α β : Type}

lemma keeps_pure (a : α) : Keeps (pure a : Making s bound α) fun _ => pure a := by
  constructor
  intro opened p q b hp h
  cases h
  exact ⟨.refl _, hp, fun _ => rfl⟩

lemma keeps_throw (fault : Fault) (look : Plan → Except Fault α) :
    Keeps (throw fault : Making s bound α) look := by
  constructor
  intro opened p q b hp h
  cases h

lemma keeps_bind {act : Making s bound α} {look : Plan → Except Fault α}
    {next : α → Making s bound β} {lookNext : α → Plan → Except Fault β}
    (hact : Keeps act look) (hnext : ∀ a, Keeps (next a) (lookNext a)) :
    Keeps (act >>= next) fun r => look r >>= fun a => lookNext a r := by
  constructor
  intro opened p q b hp h
  obtain ⟨a, m, ha, hb⟩ := run_bind_eq_ok.1 h
  obtain ⟨hpm, hm, hlook⟩ := hact.of_run hp ha
  obtain ⟨hmq, hq, hlookNext⟩ := (hnext a).of_run hm hb
  refine ⟨hpm.trans hmq, hq, fun hr => ?_⟩
  show look _ >>= _ = _
  rw [hlook (hmq.toExtends.trans hr)]
  exact hlookNext hr

end

/-! ## Numbers -/

/-- Numbers that are made may be looked up later. -/
structure KeepsNumbers {bound : ℕ} (numbers : Numbering s (Making s bound)) : Prop where
  ofType : ∀ name, Keeps (numbers.ofType name) fun r => (found s r).ofType name
  ofMember : ∀ c, Keeps (numbers.ofMember c) fun r => (found s r).ofMember c

lemma lookUp_eq_ok {p : Plan} {x : Subject} {fault : Fault} {n : ℕ} :
    p.lookUp x fault = .ok n ↔ p.number? x = some n := by
  unfold lookUp
  cases p.number? x <;> simp

lemma keeps_numberOf {bound : ℕ} {x : Subject} {hx : x ∈ subjects s} {fault : Fault}
    {make : Making s bound Routine} (hobject : x ≠ .type objectName)
    (hmake : Keeps make fun r => routineFor s (found s r) x) :
    Keeps (numberOf x hx make) fun r => r.lookUp x fault := by
  constructor
  intro opened p q n hp h
  unfold numberOf at h
  split at h
  case h_1 m hm =>
    cases h
    exact ⟨.refl _, hp, fun hr => lookUp_eq_ok.2 (hr.number hm)⟩
  case h_2 hnone =>
    have hopen : x ∉ opened := by
      intro hmem
      obtain ⟨m, hm, -⟩ := hp.pending hmem
      simp [hnone] at hm
    simp only at h
    split at h
    · cases h
    case h_2 r made hmade =>
      cases h
      obtain ⟨hgrow, hcons, hlook⟩ := hmake.of_run (consistent_reserve hp hnone hobject) hmade
      have hnumber : made.val.number? x = some p.val.routines.size :=
        hgrow.number (by rw [number?_reserve, if_pos rfl])
      obtain ⟨m, hm, hreserved⟩ := hcons.pending (List.mem_cons_self ..)
      obtain rfl : m = p.val.routines.size := Option.some.inj (hm.symm.trans hnumber)
      have hplace := (hcons.range hnumber).1
      have hfill : Grows made.val (made.val.fill p.val.routines.size r) :=
        { extends_fill r hreserved with
          size := (size_fill ..).ge
          any := by rw [routine_fill, if_neg]; unfold anyObject; omega
          top := by rw [routine_fill, if_neg]; omega }
      refine ⟨((grows_reserve hnone).trans hgrow).trans hfill,
        consistent_fill hcons hnumber hopen hlook, fun hr => ?_⟩
      exact lookUp_eq_ok.2 (hr.number hnumber)

/-! ## Steps, bodies and dispatches -/

section

variable {bound : ℕ} {numbers : Numbering s (Making s bound)}

lemma keeps_refStep (hnumbers : KeepsNumbers numbers) (ref : TypeRef) :
    Keeps (refStep numbers ref) fun r => refStep (found s r) ref := by
  unfold refStep
  by_cases hgeneric : ref.generic = true
  · simp only [hgeneric, if_true]
    exact keeps_pure _
  · simp only [hgeneric, Bool.false_eq_true, if_false]
    cases builtinStep? ref.name with
    | some step => exact keeps_pure _
    | none =>
      by_cases hbare : ref.bare = true
      · simp only [hbare, if_true]
        cases s.bareMember? ref.name with
        | some c => exact keeps_bind (hnumbers.ofMember c) fun _ => keeps_pure _
        | none => exact keeps_throw _ _
      · simp only [hbare, Bool.false_eq_true, if_false]
        exact keeps_bind (hnumbers.ofType _) fun _ => keeps_pure _

lemma keeps_exprStep (hnumbers : KeepsNumbers numbers) (e : TypeExpr) :
    Keeps (exprStep numbers e) fun r => exprStep (found s r) e := by
  induction e with
  | named ref => exact keeps_refStep hnumbers ref
  | vector boxed elem ih =>
      simp only [exprStep]
      exact keeps_bind ih fun _ => keeps_pure _

lemma keeps_gateOf (c : Constructor) (words : List String) (f : Field) :
    Keeps (gateOf c words f : Making s bound _) fun _ => gateOf c words f := by
  unfold gateOf
  cases f.gate with
  | none => exact keeps_pure _
  | some bit =>
    cases hslot : words.idxOf? bit.word with
    | some slot =>
      simp only [hslot]
      exact keeps_pure _
    | none =>
      simp only [hslot]
      exact keeps_throw _ _

lemma keeps_valueField (hnumbers : KeepsNumbers numbers) (c : Constructor) (name : String)
    (type : TypeExpr) (gate : Option Gate) :
    Keeps (valueField numbers c name type gate) fun r =>
      valueField (found s r) c name type gate := by
  unfold valueField
  split_ifs
  · exact keeps_pure _
  · exact keeps_pure _
  · exact keeps_pure _
  · exact keeps_bind (keeps_exprStep hnumbers type) fun _ => keeps_pure _

lemma keeps_fieldStep (hnumbers : KeepsNumbers numbers) (c : Constructor) (words : List String)
    (f : Field) :
    Keeps (fieldStep numbers c words f) fun r => fieldStep (found s r) c words f := by
  unfold fieldStep
  refine keeps_bind (keeps_gateOf c words f) fun gate => ?_
  cases f.kind with
  | flagWord =>
    by_cases hfull : words.length = maxFlagWords
    · simp only [hfull, if_true]
      exact keeps_throw _ _
    · simp only [hfull, if_false]
      exact keeps_pure _
  | presence => exact keeps_pure _
  | value type => exact keeps_bind (keeps_valueField hnumbers c _ type gate) fun _ => keeps_pure _

lemma keeps_fieldSteps (hnumbers : KeepsNumbers numbers) (c : Constructor) (fields : List Field) :
    ∀ words, Keeps (fieldSteps numbers c words fields) fun r =>
      fieldSteps (found s r) c words fields := by
  induction fields with
  | nil => exact fun _ => keeps_pure _
  | cons f rest ih =>
      intro words
      simp only [fieldSteps]
      refine keeps_bind (keeps_fieldStep hnumbers c words f) fun step => ?_
      exact keeps_bind (ih step.2) fun _ => keeps_pure _

lemma keeps_bodyOf (hnumbers : KeepsNumbers numbers) (c : Constructor) :
    Keeps (bodyOf numbers c) fun r => bodyOf (found s r) c :=
  keeps_bind (keeps_fieldSteps hnumbers c c.fields []) fun _ => keeps_pure _

lemma keeps_armsOf (hnumbers : KeepsNumbers numbers) (members : List s.Member) :
    Keeps (armsOf numbers members) fun r => armsOf (found s r) members := by
  induction members with
  | nil => exact keeps_pure _
  | cons c rest ih =>
      simp only [armsOf]
      refine keeps_bind (hnumbers.ofMember c) fun n => ?_
      exact keeps_bind ih fun _ => keeps_pure _

lemma keeps_dispatchOver (hnumbers : KeepsNumbers numbers) (expected : String)
    (members : List s.Member) :
    Keeps (dispatchOver numbers expected members) fun r =>
      dispatchOver (found s r) expected members :=
  keeps_bind (keeps_armsOf hnumbers _) fun _ => keeps_pure _

lemma keeps_numberTypes (hnumbers : KeepsNumbers numbers) (types : List TypeDef) :
    Keeps (numberTypes numbers types) fun r => numberTypes (found s r) types := by
  induction types with
  | nil => exact keeps_pure _
  | cons t rest ih => exact keeps_bind (hnumbers.ofType t.name) fun _ => ih

lemma keeps_numberMembers (hnumbers : KeepsNumbers numbers) (members : List s.Member) :
    Keeps (numberMembers numbers members) fun r => numberMembers (found s r) members := by
  induction members with
  | nil => exact keeps_pure _
  | cons c rest ih => exact keeps_bind (hnumbers.ofMember c) fun _ => ih

end

/-! ## Making routines -/

/-- Whatever the bound, numbers are made consistently. -/
lemma keepsNumbers_making (hs : s.HasDistinctIds) (bound : ℕ) :
    KeepsNumbers (making s bound) := by
  induction bound with
  | zero =>
      constructor
      · exact fun _ => ⟨fun {_ p} _ _ _ _ => absurd p.property (Nat.not_lt_zero _)⟩
      · exact fun _ => ⟨fun {_ p} _ _ _ _ => absurd p.property (Nat.not_lt_zero _)⟩
  | succ bound ih =>
      constructor
      case ofType =>
        intro name
        by_cases hname : name = objectName
        · simp only [making, found, hname, if_true]
          exact keeps_pure _
        · simp only [making, found, hname, if_false]
          split
          case h_1 t ht =>
            refine keeps_numberOf (by simpa using hname) ?_
            simp only [routineFor, ht]
            exact keeps_bind (keeps_dispatchOver ih name _) fun _ => keeps_pure _
          case h_2 => exact keeps_throw _ _
      case ofMember =>
        intro c
        simp only [making, found]
        refine keeps_numberOf Subject.noConfusion ?_
        simp only [routineFor, hs.member?_id]
        exact keeps_bind (keeps_bodyOf ih c.val) fun _ => keeps_pure _

end TypeLang.Plan
