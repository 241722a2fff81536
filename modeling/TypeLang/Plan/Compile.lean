import TypeLang.Plan.Body

/-!
# Compiling a schema

The plan of a schema is made by following references depth first.  A type or a constructor takes the
next number when it is first met, so that whatever refers back to it finds the number, and its
routine is put in once all that it refers to has been numbered.  So every subject gets one routine,
also in a schema whose types refer to themselves, and the fault of a schema is the first one that is
met on the way.

A computation in `Making s bound` works on plans in which fewer than `bound` subjects of `s` still
await a number.  Taking a number brings the bound down by one, which is why making the numbering
recurses on the bound; at the bound zero there is no plan to work on.
-/

namespace TypeLang.Plan

open Wire

/-! ## Subjects that await a number -/

/-- What a plan holds routines for, besides the dispatches over objects. -/
def subjects (s : Schema) : List Subject :=
  s.types.map (fun t => .type t.name) ++ s.constructors.map fun c => .constructor c.id

/-- The number of subjects that have no number yet. -/
def awaited (s : Schema) (p : Plan) : Nat :=
  ((subjects s).filter fun x => (p.number? x).isNone).length

theorem type_mem_subjects {s : Schema} {name : String} {t : TypeDef}
    (h : s.typeDef? name = some t) : .type name ∈ subjects s := by
  have hname : t.name = name := by simpa using List.find?_some h
  have ht := List.mem_of_find?_eq_some h
  exact List.mem_append_left _ (List.mem_map.2 ⟨t, ht, by rw [hname]⟩)

theorem constructor_mem_subjects {s : Schema} (c : s.Member) :
    .constructor c.val.id ∈ subjects s :=
  List.mem_append_right _ (List.mem_map.2 ⟨c.val, c.property, rfl⟩)

theorem number?_reserve (p : Plan) (x y : Subject) :
    (p.reserve x).number? y = if y = x then some p.routines.size else p.number? y := by
  by_cases h : y = x
  · simp [number?, reserve, h]
  · simp [number?, reserve, h, List.lookup_cons, beq_false_of_ne h]

theorem awaited_reserve_lt {s : Schema} {p : Plan} {x : Subject} (hx : x ∈ subjects s)
    (h : p.number? x = none) : awaited s (p.reserve x) < awaited s p := by
  have hfilter : (subjects s).filter (fun y => ((p.reserve x).number? y).isNone) =
      ((subjects s).filter fun y => (p.number? y).isNone).filter (· != x) := by
    rw [List.filter_filter]
    refine List.filter_congr fun y _ => ?_
    by_cases hy : y = x <;> simp [number?_reserve, hy]
  unfold awaited
  rw [hfilter, List.length_filter_lt_length_iff_exists]
  exact ⟨x, by simp [hx, h], by simp⟩

/-! ## Making routines -/

/-- A plan in which fewer than `bound` subjects await a number. -/
abbrev Draft (s : Schema) (bound : Nat) : Type :=
  { p : Plan // awaited s p < bound }

/-- A computation that adds to a plan. -/
abbrev Making (s : Schema) (bound : Nat) : Type → Type :=
  StateT (Draft s bound) (Except Fault)

/-- Puts in the routine of a number. -/
def put {s : Schema} {bound : Nat} (n : Nat) (r : Routine) : Making s bound Unit := fun p =>
  .ok ((), ⟨p.val.fill n r, p.property⟩)

/-- The number of a subject.  One that has none takes the next, and then its routine is made. -/
def numberOf {s : Schema} {bound : Nat} (x : Subject) (hx : x ∈ subjects s)
    (make : Making s bound Routine) : Making s (bound + 1) Nat := fun p =>
  match h : p.val.number? x with
  | some n => .ok (n, p)
  | none =>
    let n := p.val.routines.size
    let reserved : Draft s bound :=
      ⟨p.val.reserve x, by have := awaited_reserve_lt hx h; have := p.property; omega⟩
    match make reserved with
    | .error fault => .error fault
    | .ok (r, made) =>
      .ok (n, ⟨made.val.fill n r, Nat.lt_succ_of_lt made.property⟩)

/-- The numbering that makes the routines of what it is asked for. -/
def making (s : Schema) : (bound : Nat) → Numbering s (Making s bound)
  | 0 =>
    { ofType := fun _ p => absurd p.property (Nat.not_lt_zero _)
      ofMember := fun _ p => absurd p.property (Nat.not_lt_zero _) }
  | bound + 1 =>
    { ofType := fun name =>
        if name = objectName then pure anyObject
        else
          match h : s.typeDef? name with
          | some t => numberOf (.type name) (type_mem_subjects h) do
            return .dispatch (← dispatchOver (making s bound) name (s.members t))
          | none => throw (.unknownType name)
      ofMember := fun c => numberOf (.constructor c.val.id) (constructor_mem_subjects c) do
        return .body (← bodyOf (making s bound) c.val) }

/-- The constructors that are objects. -/
def objects (s : Schema) : List s.Member :=
  s.constructors.attach.filter fun c => isObject c.val

/-- The constructors that may stand alone. -/
def standalone (s : Schema) : List s.Member :=
  s.constructors.attach.filter fun c => isTopLevel c.val

/-- Makes all routines: those of the types, those of the constructors, and then the dispatches over
all objects and over those that may stand alone. -/
def makePlan (s : Schema) {bound : Nat} : Making s bound Unit := do
  numberTypes (making s bound) s.types
  numberMembers (making s bound) s.constructors.attach
  put anyObject (.dispatch (← dispatchOver (making s bound) objectName (objects s)))
  put topLevel (.dispatch (← dispatchOver (making s bound) objectName (standalone s)))

/-- The plan with nothing but the places of the two dispatches over objects. -/
def blank : Plan :=
  ⟨#[.reserved, .reserved], []⟩

/-- The plan of a schema, unless something is wrong with it. -/
def compile (s : Schema) : Except Fault Plan :=
  match makePlan s ⟨blank, Nat.lt_succ_self (awaited s blank)⟩ with
  | .ok (_, p) => .ok p.val
  | .error fault => .error fault

/-! ## Finding numbers -/

/-- The number of a subject, or else a fault. -/
def lookUp (p : Plan) (x : Subject) (fault : Fault) : Except Fault Nat :=
  match p.number? x with
  | some n => .ok n
  | none => .error fault

/-- The numbering that only looks up what a plan holds. -/
def found (s : Schema) (p : Plan) : Numbering s (Except Fault) where
  ofType name :=
    if name = objectName then .ok anyObject else p.lookUp (.type name) (.unknownType name)
  ofMember c := p.lookUp (.constructor c.val.id) (.unknownType c.val.predicate)

end TypeLang.Plan
