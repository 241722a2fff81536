import TypeLang.Proofs.Decoder.Reports
import TypeLang.Proofs.Schema.Reloading

/-!
# Compiled plans are well formed

While a plan is made, it has holes, and routines refer to numbers whose routines are still to come.
None of that is left when a schema has compiled: every number that stands anywhere in the plan is
that of a routine, every arm of a dispatch leads to the body of the constructor that the tag
announces, and every gate looks at a slot that an earlier field of its body has filled.  Nothing is
in the plan but the two dispatches over objects and one routine for each type and each constructor.

So a routine never meets what a finished plan cannot hold.  A routine that is missing or still to
come would be reported as unsupported by whoever calls it, and no reading reports that.
-/

namespace TypeLang

open Wire

/-! ## The numbers in a plan -/

/-- The numbers of the routines that a step calls. -/
def Step.calls : Step → List ℕ
  | vector _ elem | entries _ elem => elem.calls
  | call routine => [routine]
  | _ => []

/-- The numbers of the routines that a field calls. -/
def FieldOp.calls : FieldOp → List ℕ
  | read step => step.calls
  | _ => []

/-- The numbers of the routines that a routine calls. -/
def Routine.calls : Routine → List ℕ
  | reserved => []
  | dispatch d => d.arms.map (·.2)
  | body b => b.fields.flatMap (·.op.calls)

namespace Plan

/-- The slots of a body: fewer than eight, and every gate looks at one that was filled before. -/
structure SlotsFilled (b : Body) : Prop where
  words : ∀ f ∈ b.fields, ∀ slot, f.op = .flagWord slot → slot < 8
  gates : ∀ before f after, b.fields = before ++ f :: after → ∀ gate ∈ f.gate,
    gate.slot < 8 ∧ ∃ g ∈ before, g.op = .flagWord gate.slot

/-- The plan of a schema is whole and closed. -/
structure WellFormed (s : Schema) (p : Plan) : Prop where
  /-- Nothing is still to come. -/
  made : ∀ n < p.routines.size, p.routine n ≠ .reserved
  /-- The two dispatches over objects are there. -/
  objects : anyObject < p.routines.size ∧ topLevel < p.routines.size
  /-- Types and constructors have numbers of routines. -/
  numbered : ∀ x n, p.number? x = some n → n < p.routines.size
  /-- Whatever is called is there. -/
  calls : ∀ n < p.routines.size, ∀ m ∈ (p.routine n).calls, m < p.routines.size
  /-- An arm leads to the body of the constructor that its tag announces. -/
  arms : ∀ n < p.routines.size, ∀ d, p.routine n = .dispatch d → ∀ arm ∈ d.arms,
    ∃ c ∈ s.constructors, c.id = arm.1 ∧
      ∃ b, bodyOf (found s p) c = .ok b ∧ p.routine arm.2 = .body b
  /-- A type has an arm for each of its members, but none for the tag of envelopes. -/
  types : ∀ t ∈ s.types, t.name ≠ objectName →
    ∃ n d, p.number? (.type t.name) = some n ∧ p.routine n = .dispatch d ∧
      d.arms.map (·.1) = t.members.filter (· != Tag.gzipPacked)
  slots : ∀ n < p.routines.size, ∀ b, p.routine n = .body b → SlotsFilled b
  /-- There is one routine for each type and constructor, besides the two over objects. -/
  count : p.routines.size =
    2 + s.constructors.length + (s.types.filter (·.name != objectName)).length
  /-- On no wire does a routine find the plan wanting. -/
  run : ∀ limits levels, ∀ n < p.routines.size, ∀ c fault stop,
    Decoder.run p limits levels n c = .failed fault stop →
      (∀ name, fault ≠ .unknownType name) ∧ ∀ predicate cause, fault ≠ .unsupported predicate cause

variable {s : Schema} {p : Plan}

/-! ## Slots -/

lemma lt_length_of_gateOf {c : Constructor} {names : List String} {f : Field} {gate : Option Gate}
    (h : gateOf c names f = (.ok gate : Except Fault _)) : ∀ g ∈ gate, g.slot < names.length := by
  intro g hg
  unfold gateOf at h
  cases hbit : f.gate with
  | none =>
      rw [hbit] at h
      cases h
      cases hg
  | some bit =>
      rw [hbit] at h
      simp only at h
      cases hslot : names.idxOf? bit.word with
      | none =>
          rw [hslot] at h
          cases h
      | some slot =>
          rw [hslot] at h
          cases h
          cases hg
          exact (List.idxOf?_eq_some_iff.1 hslot).1

lemma op_of_valueField {c : Constructor} {name : String} {type : TypeExpr} {gate : Option Gate}
    {st : FieldStep} (h : valueField (found s p) c name type gate = .ok st) (slot : ℕ) :
    st.op ≠ .flagWord slot := by
  unfold valueField at h
  split_ifs at h
  · cases h
    simp
  · cases h
    simp
  · cases h
    simp
  · obtain ⟨step, -, h⟩ := bind_eq_ok.1 h
    cases h
    simp

/-- A field becomes a word in the next slot or something that fills none; its gate looks at the slot
of a word before it. -/
lemma slots_of_fieldStep {c : Constructor} {names names' : List String} {f : Field}
    {st : FieldStep} (h : fieldStep (found s p) c names f = .ok (st, names')) :
    (∀ g ∈ st.gate, g.slot < names.length) ∧
      (st.op = .flagWord names.length ∧ names.length ≠ maxFlagWords ∧
          names'.length = names.length + 1 ∨
        (∀ slot, st.op ≠ .flagWord slot) ∧ names'.length = names.length) := by
  obtain ⟨gate, hgate, hst⟩ := Decoder.fieldStep_eq_ok h
  have hslots := lt_length_of_gateOf hgate
  rcases hst with ⟨-, hroom, rfl, rfl⟩ | ⟨-, rfl, rfl⟩ | ⟨type, -, hvalue, rfl⟩
  · exact ⟨hslots, .inl ⟨rfl, hroom, by simp⟩⟩
  · exact ⟨hslots, .inr ⟨fun _ => FieldOp.noConfusion, rfl⟩⟩
  · rw [Decoder.gate_of_valueField hvalue]
    exact ⟨hslots, .inr ⟨op_of_valueField hvalue, rfl⟩⟩

/-- Behind `names.length` words, gates look at these or at words among the fields before them. -/
lemma slots_of_fieldSteps {c : Constructor} {names : List String} {fs : List Field}
    {steps : List FieldStep} (h : fieldSteps (found s p) c names fs = .ok steps)
    (hnames : names.length ≤ maxFlagWords) :
    (∀ f ∈ steps, ∀ slot, f.op = .flagWord slot → slot < maxFlagWords) ∧
      ∀ before f after, steps = before ++ f :: after → ∀ gate ∈ f.gate,
        gate.slot < maxFlagWords ∧
          (gate.slot < names.length ∨ ∃ g ∈ before, g.op = .flagWord gate.slot) := by
  induction fs generalizing names steps with
  | nil =>
      cases h
      refine ⟨fun f hf => absurd hf List.not_mem_nil, fun before f after hsteps => ?_⟩
      exact absurd hsteps.symm (List.append_ne_nil_of_right_ne_nil _ (List.cons_ne_nil _ _))
  | cons f rest ih =>
      obtain ⟨⟨st, names'⟩, hst, h⟩ := bind_eq_ok.1 h
      obtain ⟨more, hmore, h⟩ := bind_eq_ok.1 h
      cases h
      obtain ⟨hgate, hword⟩ := slots_of_fieldStep hst
      have hnames' : names'.length ≤ maxFlagWords := by omega
      obtain ⟨hwords, hgates⟩ := ih hmore hnames'
      refine ⟨fun g hg slot hop => ?_, fun before g after hsteps gate hg => ?_⟩
      · rcases List.mem_cons.1 hg with rfl | hlater
        · rcases hword with ⟨hslot, hroom, -⟩ | ⟨hnone, -⟩
          · cases hslot.symm.trans hop
            omega
          · exact absurd hop (hnone slot)
        · exact hwords g hlater slot hop
      · cases before with
        | nil =>
            cases hsteps
            have := hgate gate hg
            exact ⟨by omega, .inl this⟩
        | cons first before =>
            cases hsteps
            obtain ⟨hlt, hslot⟩ := hgates before g after rfl gate hg
            refine ⟨hlt, ?_⟩
            rcases hslot with hslot | ⟨k, hk, hop⟩
            · rcases hword with ⟨hop, -, hlength⟩ | ⟨-, hlength⟩
              · rcases Nat.lt_succ_iff_lt_or_eq.1 (hlength ▸ hslot) with hlt | heq
                · exact .inl hlt
                · exact .inr ⟨_, List.mem_cons_self, heq ▸ hop⟩
              · exact .inl (hlength ▸ hslot)
            · exact .inr ⟨k, List.mem_cons_of_mem _ hk, hop⟩

lemma slotsFilled_of_bodyOf {c : Constructor} {b : Body} (h : bodyOf (found s p) c = .ok b) :
    SlotsFilled b := by
  obtain ⟨steps, hsteps, hb⟩ := bind_eq_ok.1 h
  cases hb
  obtain ⟨hwords, hgates⟩ := slots_of_fieldSteps hsteps (Nat.zero_le _)
  refine ⟨hwords, fun before f after hfields gate hgate => ?_⟩
  obtain ⟨hlt, hslot⟩ := hgates before f after hfields gate hgate
  exact ⟨hlt, hslot.resolve_left (Nat.not_lt_zero _)⟩

/-! ## Calls -/

lemma calls_builtinStep? {name : String} {st : Step} (h : builtinStep? name = some st) :
    ∀ m ∈ st.calls, m = anyObject := by
  unfold builtinStep? at h
  split at h <;> cases h <;> simp [Step.calls]

section

variable (hp : Consistent s [] p)

include hp

lemma lt_size_of_number {x : Subject} {n : ℕ} (h : p.number? x = some n) :
    ∀ m ∈ (Step.call n).calls, m < p.routines.size := by
  intro m hm
  rw [List.mem_singleton.1 hm]
  exact (hp.range h).2

lemma calls_refStep {r : TypeRef} {st : Step} (h : refStep (found s p) r = .ok st) :
    ∀ m ∈ st.calls, m < p.routines.size := by
  have hany : ∀ m, m = anyObject → m < p.routines.size :=
    fun m hm => hm ▸ Nat.lt_of_succ_lt hp.room
  unfold refStep at h
  by_cases hgeneric : r.generic = true
  · simp only [hgeneric, if_true] at h
    cases h
    exact fun m hm => hany m (List.mem_singleton.1 hm)
  · simp only [hgeneric, Bool.false_eq_true, if_false] at h
    cases hbuiltin : builtinStep? r.name with
    | some step =>
        simp only [hbuiltin] at h
        cases h
        exact fun m hm => hany m (calls_builtinStep? hbuiltin m hm)
    | none =>
        simp only [hbuiltin] at h
        by_cases hbare : r.bare = true
        · simp only [hbare, if_true] at h
          cases hc : s.bareMember? r.name with
          | none => simp [hc] at h
          | some c =>
              simp only [hc] at h
              obtain ⟨n, hn, h⟩ := bind_eq_ok.1 h
              cases h
              exact lt_size_of_number hp (Decoder.ofMember_eq_ok.1 hn)
        · simp only [hbare, Bool.false_eq_true, if_false] at h
          obtain ⟨n, hn, h⟩ := bind_eq_ok.1 h
          cases h
          by_cases hname : r.name = objectName
          · simp only [found, hname, if_true] at hn
            cases hn
            exact fun m hm => hany m (List.mem_singleton.1 hm)
          · simp only [found, hname, if_false] at hn
            exact lt_size_of_number hp (lookUp_eq_ok.1 hn)

lemma calls_exprStep {e : TypeExpr} {st : Step} (h : exprStep (found s p) e = .ok st) :
    ∀ m ∈ st.calls, m < p.routines.size := by
  induction e generalizing st with
  | named r => exact calls_refStep hp h
  | vector boxed elem ih =>
      obtain ⟨step, hstep, h⟩ := bind_eq_ok.1 h
      cases h
      have hcalls := ih hstep
      split_ifs
      · exact hcalls
      · exact hcalls

lemma calls_valueField {c : Constructor} {name : String} {type : TypeExpr} {gate : Option Gate}
    {st : FieldStep} (h : valueField (found s p) c name type gate = .ok st) :
    ∀ m ∈ st.op.calls, m < p.routines.size := by
  unfold valueField at h
  split_ifs at h
  · cases h
    simp [FieldOp.calls]
  · cases h
    simp [FieldOp.calls, Step.calls]
  · cases h
    simp [FieldOp.calls]
  · obtain ⟨step, hstep, h⟩ := bind_eq_ok.1 h
    cases h
    exact calls_exprStep hp hstep

lemma calls_fieldStep {c : Constructor} {names names' : List String} {f : Field} {st : FieldStep}
    (h : fieldStep (found s p) c names f = .ok (st, names')) :
    ∀ m ∈ st.op.calls, m < p.routines.size := by
  obtain ⟨gate, -, hst⟩ := Decoder.fieldStep_eq_ok h
  rcases hst with ⟨-, -, rfl, -⟩ | ⟨-, rfl, -⟩ | ⟨type, -, hvalue, -⟩
  · simp [FieldOp.calls]
  · simp [FieldOp.calls]
  · exact calls_valueField hp hvalue

lemma calls_fieldSteps {c : Constructor} {names : List String} {fs : List Field}
    {steps : List FieldStep} (h : fieldSteps (found s p) c names fs = .ok steps) :
    ∀ st ∈ steps, ∀ m ∈ st.op.calls, m < p.routines.size := by
  induction fs generalizing names steps with
  | nil =>
      cases h
      simp
  | cons f rest ih =>
      obtain ⟨⟨st, names'⟩, hst, h⟩ := bind_eq_ok.1 h
      obtain ⟨more, hmore, h⟩ := bind_eq_ok.1 h
      cases h
      intro other hother
      rcases List.mem_cons.1 hother with rfl | hlater
      · exact calls_fieldStep hp hst
      · exact ih hmore other hlater

lemma calls_bodyOf {c : Constructor} {b : Body} (h : bodyOf (found s p) c = .ok b) :
    ∀ m ∈ (Routine.body b).calls, m < p.routines.size := by
  obtain ⟨steps, hsteps, hb⟩ := bind_eq_ok.1 h
  cases hb
  intro m hm
  obtain ⟨st, hst, hcalls⟩ := List.mem_flatMap.1 hm
  exact calls_fieldSteps hp hsteps st hst m hcalls

end

/-! ## Arms -/

lemma mem_armsOf {members : List s.Member} {arms : List (UInt32 × ℕ)}
    (h : armsOf (found s p) members = .ok arms) {arm : UInt32 × ℕ} (harm : arm ∈ arms) :
    ∃ c : s.Member, c.val.id = arm.1 ∧ p.number? (.constructor c.val.id) = some arm.2 := by
  induction members generalizing arms with
  | nil =>
      cases h
      cases harm
  | cons c rest ih =>
      obtain ⟨n, hn, h⟩ := bind_eq_ok.1 h
      obtain ⟨more, hmore, h⟩ := bind_eq_ok.1 h
      cases h
      rcases List.mem_cons.1 harm with rfl | hlater
      · exact ⟨c, rfl, Decoder.ofMember_eq_ok.1 hn⟩
      · exact ih hmore hlater

lemma map_fst_armsOf {members : List s.Member} {arms : List (UInt32 × ℕ)}
    (h : armsOf (found s p) members = .ok arms) : arms.map (·.1) = members.map (·.val.id) := by
  induction members generalizing arms with
  | nil =>
      cases h
      rfl
  | cons c rest ih =>
      obtain ⟨n, hn, h⟩ := bind_eq_ok.1 h
      obtain ⟨more, hmore, h⟩ := bind_eq_ok.1 h
      cases h
      simp only [List.map_cons, ih hmore]

lemma mem_arms {expected : String} {members : List s.Member} {d : Dispatch}
    (h : dispatchOver (found s p) expected members = .ok d) {arm : UInt32 × ℕ}
    (harm : arm ∈ d.arms) :
    ∃ c : s.Member, c.val.id = arm.1 ∧ p.number? (.constructor c.val.id) = some arm.2 := by
  obtain ⟨arms, harms, h⟩ := bind_eq_ok.1 h
  cases h
  exact mem_armsOf harms harm

/-- All numbers that a type lists are those of constructors. -/
lemma map_id_members (hs : s.Indexed) {t : TypeDef} (ht : s.typeDef? t.name = some t) :
    (s.members t).map (·.val.id) = t.members := by
  have hfound : ∀ id ∈ t.members, (s.member? id).map (·.val.id) = some id := by
    intro id hid
    have hmem : id ∈ s.idsOf t.name := by
      unfold Schema.idsOf
      rwa [ht]
    obtain ⟨c, hc, -⟩ := hs.member.1 hmem
    obtain ⟨k, hk, rfl⟩ : ∃ k, s.member? id = some k ∧ k.val = c := by
      rw [← Schema.map_val_member?] at hc
      exact Option.map_eq_some_iff.1 hc
    have hkid : k.val.id = id := by simpa using List.find?_some hc
    rw [hk, Option.map_some, hkid]
  rw [Schema.members, List.map_filterMap, List.filterMap_congr hfound, List.filterMap_some]

lemma map_fst_arms (hs : s.Indexed) {t : TypeDef} (ht : s.typeDef? t.name = some t)
    {expected : String} {d : Dispatch}
    (h : dispatchOver (found s p) expected (s.members t) = .ok d) :
    d.arms.map (·.1) = t.members.filter (· != Tag.gzipPacked) := by
  obtain ⟨arms, harms, h⟩ := bind_eq_ok.1 h
  cases h
  show arms.map (·.1) = _
  rw [map_fst_armsOf harms, ← map_id_members hs ht, List.filter_map, Function.comp_def]

/-! ## What there is a routine for -/

section

variable (hc : Consistent s [] p) (hp : Finished s p)

include hc

lemma exists_member_of_number {id : UInt32} {n : ℕ}
    (h : p.number? (.constructor id) = some n) : ∃ c : s.Member, c.val.id = id := by
  have hroutine := routineFor_found hc h
  simp only [routineFor] at hroutine
  cases hmember : s.member? id with
  | none => simp [hmember] at hroutine
  | some c =>
      have hbyId : s.byId? id = some c.val := by
        rw [← Schema.map_val_member?, hmember]
        rfl
      exact ⟨c, by simpa using List.find?_some hbyId⟩

/-- A number of the plan is that of a dispatch over a choice or of the body of a constructor. -/
lemma serves_or_member {n : ℕ} (hn : n < p.routines.size) :
    (∃ choice, Decoder.Serves p choice n) ∨
      ∃ c : s.Member, p.number? (.constructor c.val.id) = some n := by
  rcases Nat.lt_or_ge topLevel n with hlater | hobjects
  · obtain ⟨x, hx⟩ := hc.taken hlater hn
    cases x with
    | type name =>
        refine .inl ⟨.type name, ?_, hx⟩
        rintro rfl
        rw [hc.object] at hx
        cases hx
    | constructor id =>
        obtain ⟨c, rfl⟩ := exists_member_of_number hc hx
        exact .inr ⟨c, hx⟩
  · have hcases : n = anyObject ∨ n = topLevel := by
      unfold topLevel at hobjects
      unfold anyObject topLevel
      omega
    rcases hcases with rfl | rfl
    · exact .inl ⟨.object, rfl⟩
    · exact .inl ⟨.standalone, rfl⟩

include hp

/-- A routine of the plan is a dispatch over a choice, or the body of a constructor. -/
lemma routine_of_lt {n : ℕ} (hn : n < p.routines.size) :
    (∃ choice d, dispatchOver (found s p) choice.expected (Decoder.membersOf s choice) = .ok d ∧
        p.routine n = .dispatch d) ∨
      ∃ c b, bodyOf (found s p) c = .ok b ∧ p.routine n = .body b := by
  rcases serves_or_member hc hn with ⟨choice, hserves⟩ | ⟨c, hnumber⟩
  · obtain ⟨d, hd, hroutine⟩ := Decoder.exists_dispatch hp hserves
    exact .inl ⟨choice, d, hd, hroutine⟩
  · obtain ⟨m, b, hm, hb, hroutine⟩ := hp.member c
    obtain rfl : m = n := Option.some.inj (hm.symm.trans hnumber)
    exact .inr ⟨c.val, b, hb, hroutine⟩

lemma routine_ne_reserved {n : ℕ} (hn : n < p.routines.size) : p.routine n ≠ .reserved := by
  rcases routine_of_lt hc hp hn with ⟨choice, d, -, hroutine⟩ | ⟨c, b, -, hroutine⟩
  · simp [hroutine]
  · simp [hroutine]

/-- A dispatch calls the bodies of its members, a body what its fields call; all have numbers. -/
lemma calls_routine {n : ℕ} (hn : n < p.routines.size) :
    ∀ m ∈ (p.routine n).calls, m < p.routines.size := by
  rcases routine_of_lt hc hp hn with ⟨choice, d, hd, hroutine⟩ | ⟨c, b, hb, hroutine⟩
  · rw [hroutine]
    intro m hm
    obtain ⟨arm, harm, rfl⟩ := List.mem_map.1 hm
    obtain ⟨k, -, hk⟩ := mem_arms hd harm
    exact (hc.range hk).2
  · rw [hroutine]
    exact calls_bodyOf hc hb

lemma arm_of_dispatch {n : ℕ} (hn : n < p.routines.size) {d : Dispatch}
    (hd : p.routine n = .dispatch d) {arm : UInt32 × ℕ} (harm : arm ∈ d.arms) :
    ∃ c ∈ s.constructors, c.id = arm.1 ∧
      ∃ b, bodyOf (found s p) c = .ok b ∧ p.routine arm.2 = .body b := by
  rcases routine_of_lt hc hp hn with ⟨choice, d', hd', hroutine⟩ | ⟨c, b, -, hroutine⟩
  · cases hroutine.symm.trans hd
    obtain ⟨k, hid, hk⟩ := mem_arms hd' harm
    obtain ⟨m, b, hm, hb, hbody⟩ := hp.member k
    obtain rfl : m = arm.2 := Option.some.inj (hm.symm.trans hk)
    exact ⟨k.val, k.property, hid, b, hb, hbody⟩
  · cases hroutine.symm.trans hd

lemma slotsFilled_of_routine {n : ℕ} (hn : n < p.routines.size) {b : Body}
    (hb : p.routine n = .body b) : SlotsFilled b := by
  rcases routine_of_lt hc hp hn with ⟨choice, d, -, hroutine⟩ | ⟨c, b', hb', hroutine⟩
  · cases hroutine.symm.trans hb
  · cases hroutine.symm.trans hb
    exact slotsFilled_of_bodyOf hb'

end

/-! ## How many routines there are -/

/-- What takes a number of its own. -/
def numbered (s : Schema) : List Subject :=
  (s.types.filter (·.name != objectName)).map (fun t => .type t.name) ++
    s.constructors.map fun c => .constructor c.id

lemma nodup_numbered (hs : s.HasDistinctIds) (htypes : s.typeNames.Nodup) :
    (numbered s).Nodup := by
  have hnames : ((s.types.filter (·.name != objectName)).map (·.name)).Nodup :=
    htypes.sublist (List.filter_sublist.map _)
  refine List.nodup_append.2 ⟨?_, ?_, ?_⟩
  · have := hnames.map (f := Subject.type) fun _ _ h => by cases h; rfl
    rwa [List.map_map] at this
  · have := List.Nodup.map (f := Subject.constructor) (fun _ _ h => by cases h; rfl) hs
    rwa [List.map_map] at this
  · rintro x hx y hy rfl
    obtain ⟨t, -, rfl⟩ := List.mem_map.1 hx
    obtain ⟨c, -, hc⟩ := List.mem_map.1 hy
    cases hc

lemma mem_numbered_iff (htypes : s.typeNames.Nodup) (hc : Consistent s [] p) (hp : Finished s p)
    {x : Subject} : x ∈ numbered s ↔ ∃ n, p.number? x = some n := by
  constructor
  · intro hx
    rcases List.mem_append.1 hx with htype | hmember
    · obtain ⟨t, ht, rfl⟩ := List.mem_map.1 htype
      obtain ⟨hmem, hname⟩ := List.mem_filter.1 ht
      obtain ⟨n, d, hn, -⟩ := hp.type (Schema.typeDef?_eq htypes hmem) (by simpa using hname)
      exact ⟨n, hn⟩
    · obtain ⟨c, hmem, rfl⟩ := List.mem_map.1 hmember
      obtain ⟨n, b, hn, -⟩ := hp.member ⟨c, hmem⟩
      exact ⟨n, hn⟩
  · rintro ⟨n, hn⟩
    cases x with
    | type name =>
        obtain ⟨t, ht⟩ := Option.isSome_iff_exists.1 (hp.known hn)
        obtain rfl : t.name = name := by simpa using List.find?_some ht
        have hname : t.name ≠ objectName := by
          intro hname
          rw [hname, hc.object] at hn
          cases hn
        refine List.mem_append_left _ (List.mem_map.2 ⟨t, List.mem_filter.2 ⟨?_, ?_⟩, rfl⟩)
        · exact List.mem_of_find?_eq_some ht
        · simpa using hname
    | constructor id =>
        obtain ⟨c, rfl⟩ := exists_member_of_number hc hn
        exact List.mem_append_right _ (List.mem_map.2 ⟨c.val, c.property, rfl⟩)

/-- The numbers behind those of the dispatches over objects are taken once each. -/
lemma size_routines (hs : s.HasDistinctIds) (htypes : s.typeNames.Nodup)
    (hc : Consistent s [] p) (hp : Finished s p) :
    p.routines.size = 2 + (numbered s).length := by
  have hroom : 1 < p.routines.size := hc.room
  have hnumber : ∀ x ∈ numbered s, ∃ n, p.number? x = some n :=
    fun x hx => (mem_numbered_iff htypes hc hp).1 hx
  let number : Subject → ℕ := fun x => (p.number? x).getD 0
  have hnodup : ((numbered s).map number).Nodup := by
    refine List.Nodup.map_on (fun x hx y hy hxy => ?_) (nodup_numbered hs htypes)
    obtain ⟨n, hn⟩ := hnumber x hx
    obtain ⟨m, hm⟩ := hnumber y hy
    simp only [number, hn, hm, Option.getD_some] at hxy
    exact hc.injective hn (hxy ▸ hm)
  have hrange : ((numbered s).map number).toFinset = Finset.Ico 2 p.routines.size := by
    ext n
    rw [List.mem_toFinset, List.mem_map, Finset.mem_Ico]
    constructor
    · rintro ⟨x, hx, rfl⟩
      obtain ⟨n, hn⟩ := hnumber x hx
      simp only [number, hn, Option.getD_some]
      exact hc.range hn
    · rintro ⟨hlow, hhigh⟩
      obtain ⟨x, hx⟩ := hc.taken hlow hhigh
      exact ⟨x, (mem_numbered_iff htypes hc hp).2 ⟨n, hx⟩, by simp [number, hx]⟩
  have hcard := List.toFinset_card_of_nodup hnodup
  rw [hrange, Nat.card_Ico, List.length_map] at hcard
  omega

/-! ## Running -/

/-- On no wire does a routine of the plan find the plan wanting. -/
lemma isOfSchema_of_run (hs : s.HasDistinctIds) (hc : Consistent s [] p) (hp : Finished s p)
    (limits : Limits) (levels : ℕ) {n : ℕ} (hn : n < p.routines.size) {c stop : Cursor}
    {fault : Fault} (h : Decoder.run p limits levels n c = .failed fault stop) :
    fault.isOfSchema = false := by
  have hmatches := (Decoder.matches_levels hs hp limits levels).1
  obtain ⟨hboxed, hbare, -⟩ :=
    Direct.traced_levels (Direct.knowsTypes_of_finished hp) limits levels
  have htraced : ∃ t, Traced limits none (Decoder.run p limits levels n) t := by
    rcases serves_or_member hc hn with ⟨choice, hserves⟩ | ⟨k, hnumber⟩
    · rw [hmatches.dispatch choice hserves]
      exact ⟨_, hboxed choice⟩
    · rw [hmatches.member hnumber]
      exact ⟨_, hbare k.val k.property⟩
  obtain ⟨t, ht⟩ := htraced
  exact ((ht.reports trivial).failed h).2.2.1

/-- **Compiled plans are well formed.** -/
theorem wellFormed_of_compile {b : Builder} (hb : b.build = .ok s) (h : compile s = .ok p) :
    WellFormed s p := by
  have hs := Schema.hasDistinctIds_of_build hb
  have hc := consistent_of_compile hs h
  have hp := finished_of_compile hs h
  have hindexed : s.Indexed ∧ s.typeNames.Nodup := by
    obtain ⟨cs, -, -, rfl⟩ := Builder.build_eq_ok.1 hb
    exact ⟨Schema.indexed_laid b.layer cs, Schema.nodup_typeNames_laid b.layer cs⟩
  obtain ⟨hindexed, htypes⟩ := hindexed
  constructor
  case made => exact fun n hn => routine_ne_reserved hc hp hn
  case objects => exact ⟨Nat.lt_of_succ_lt hc.room, hc.room⟩
  case numbered => exact fun x n hx => (hc.range hx).2
  case calls => exact fun n hn => calls_routine hc hp hn
  case arms => exact fun n hn d hd arm harm => arm_of_dispatch hc hp hn hd harm
  case types =>
    intro t ht hname
    have htype := Schema.typeDef?_eq htypes ht
    obtain ⟨n, d, hn, hd, hroutine⟩ := hp.type htype hname
    exact ⟨n, d, hn, hroutine, map_fst_arms hindexed htype hd⟩
  case slots => exact fun n hn b hb => slotsFilled_of_routine hc hp hn hb
  case count =>
    rw [size_routines hs htypes hc hp, numbered, List.length_append, List.length_map,
      List.length_map]
    omega
  case run =>
    intro limits levels n hn c fault stop hfailed
    have hschema := isOfSchema_of_run hs hc hp limits levels hn hfailed
    refine ⟨fun name hname => ?_, fun predicate cause hcause => ?_⟩
    · rw [hname] at hschema
      cases hschema
    · rw [hcause] at hschema
      cases hschema

/-! ### A schema whose type refers to itself, and one constructor without a type of its own -/

section

open Declaration

/-- Chains of nodes, each with a gated next one, and an object that is nothing else. -/
def chains : Builder :=
  let type (name : String) : TypeTerm := .plain ⟨⟨[], name⟩, false, false⟩
  let next : Arg := ⟨"next", .value (type "Node") (some ⟨"flags", 0⟩)⟩
  let chain : Arg := ⟨"chain", .value (type "Node") none⟩
  ⟨[(⟨⟨[], "node"⟩, 1, [⟨"flags", .flagWord⟩, next], type "Node", .types⟩, .api),
    (⟨⟨[], "thing"⟩, 2, [chain], type "Object", .types⟩, .api)], none⟩

lemma exists_chains : ∃ s p, chains.build = .ok s ∧ compile s = .ok p ∧ p.routines.size = 5 := by
  have hsize : (chains.build.toOption.bind fun s =>
      (compile s).toOption.map fun p => p.routines.size) = some 5 := by
    decide +kernel
  obtain ⟨s, hs, hsize⟩ := Option.bind_eq_some_iff.1 hsize
  obtain ⟨p, hp, hsize⟩ := Option.map_eq_some_iff.1 hsize
  exact ⟨s, p, eq_ok_of_toOption hs, eq_ok_of_toOption hp, hsize⟩

theorem chains_wellFormed : ∃ s p, chains.build = .ok s ∧ compile s = .ok p ∧
    p.routines.size = 5 ∧ WellFormed s p := by
  obtain ⟨s, p, hs, hp, hsize⟩ := exists_chains
  exact ⟨s, p, hs, hp, hsize, wellFormed_of_compile hs hp⟩

end

end Plan

end TypeLang
