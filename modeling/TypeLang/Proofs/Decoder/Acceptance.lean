import TypeLang.Proofs.Decoder.Meaning

/-!
# Which schemas compile

A schema is refused for a field of one of its constructors: its type has no meaning, its gate names
no flag word before it, or it is one flag word too many.  `Obstructed` says so of a row of fields,
behind the words that came before.

Computations of the compiler fail for such reasons only, however they are nested (`FailsOnly`), and
a finished plan leaves room for none of them.  So whether a schema compiles can be seen without
compiling it, and the order of its parts does not matter to it.
-/

namespace TypeLang.Plan

open Wire

variable {s : Schema}

/-! ## Obstacles -/

/-- What there is to say against reading fields of a constructor behind the flag words `names`. -/
inductive Obstructed (s : Schema) (c : Constructor) : List String → List Field → Fault → Prop
  | type {names f rest type} (hkind : f.kind = .value type)
      (hunknown : Direct.isKnown s type.leaf = false) :
      Obstructed s c names (f :: rest) (.unknownType type.leaf.name)
  | gate {names f rest bit} (hgate : f.gate = some bit) (hword : bit.word ∉ names) :
      Obstructed s c names (f :: rest) (.unsupported c.predicate (.unknownFlagWord f.name bit.word))
  | words {names f rest} (hkind : f.kind = .flagWord) (hfull : names.length = maxFlagWords) :
      Obstructed s c names (f :: rest) (.unsupported c.predicate (.tooManyFlagWords maxFlagWords))
  | later {names f rest fault} (h : Obstructed s c (Direct.wordsUpTo names f) rest fault) :
      Obstructed s c names (f :: rest) fault

/-- A fault of one of the constructors of a schema. -/
def Faulty (s : Schema) (fault : Fault) : Prop :=
  ∃ c ∈ s.constructors, Obstructed s c [] c.fields fault

/-! ## Computations that fail for a reason -/

/-- On every plan, a computation gives something or fails for one of the reasons `bad`. -/
structure FailsOnly {bound : ℕ} {α : Type} (bad : Fault → Prop) (act : Making s bound α) :
    Prop where
  of_run : ∀ {p fault}, act p = .error fault → bad fault

section

variable {bound : ℕ} {α β : Type} {bad : Fault → Prop}

lemma failsOnly_pure (a : α) : FailsOnly bad (pure a : Making s bound α) :=
  ⟨fun h => nomatch h⟩

lemma failsOnly_throw {fault : Fault} (h : bad fault) :
    FailsOnly bad (throw fault : Making s bound α) :=
  ⟨fun hrun => by cases hrun; exact h⟩

/-- A run stops in the first part, or else in the second. -/
lemma error_of_run_bind {act : Making s bound α} {next : α → Making s bound β}
    {p : Draft s bound} {fault : Fault} (h : (act >>= next) p = .error fault) :
    act p = .error fault ∨ ∃ a q, act p = .ok (a, q) ∧ next a q = .error fault := by
  cases hrun : act p with
  | error other => exact .inl (by simpa [bind, StateT.bind, Except.bind, hrun] using h)
  | ok aq =>
      obtain ⟨a, q⟩ := aq
      exact .inr ⟨a, q, rfl, by simpa [bind, StateT.bind, Except.bind, hrun] using h⟩

lemma failsOnly_bind {act : Making s bound α} {next : α → Making s bound β}
    (hact : FailsOnly bad act) (hnext : ∀ {p a q}, act p = .ok (a, q) → FailsOnly bad (next a)) :
    FailsOnly bad (act >>= next) := by
  constructor
  intro p fault h
  rcases error_of_run_bind h with hfirst | ⟨a, q, hrun, hsecond⟩
  · exact hact.of_run hfirst
  · exact (hnext hrun).of_run hsecond

lemma failsOnly_put (n : ℕ) (r : Routine) : FailsOnly bad (put n r : Making s bound Unit) :=
  ⟨fun h => nomatch h⟩

/-- A number is always there to be taken; only its routine may be at fault. -/
lemma failsOnly_numberOf {x : Subject} {hx : x ∈ subjects s} {make : Making s bound Routine}
    (hmake : FailsOnly bad make) : FailsOnly bad (numberOf x hx make) := by
  constructor
  intro p fault h
  unfold numberOf at h
  split at h
  case h_1 => cases h
  case h_2 hnone =>
    simp only at h
    split at h
    case h_1 other hrun =>
      cases h
      exact hmake.of_run hrun
    case h_2 => cases h

end

/-- Numbers are refused for a reason only: a type that is not there, or else a `bad` one. -/
structure NumbersFailOnly {bound : ℕ} (bad : Fault → Prop)
    (numbers : Numbering s (Making s bound)) : Prop where
  ofType : ∀ name, (name ≠ objectName → s.typeDef? name = none → bad (.unknownType name)) →
    FailsOnly bad (numbers.ofType name)
  ofMember : ∀ c, FailsOnly bad (numbers.ofMember c)

/-! ## Steps, bodies and dispatches -/

section

variable {bound : ℕ} {bad : Fault → Prop} {numbers : Numbering s (Making s bound)}

lemma failsOnly_refStep (hnumbers : NumbersFailOnly bad numbers) {r : TypeRef}
    (hunknown : Direct.isKnown s r = false → bad (.unknownType r.name)) :
    FailsOnly bad (refStep numbers r) := by
  unfold refStep
  by_cases hgeneric : r.generic = true
  · simp only [hgeneric, if_true]
    exact failsOnly_pure _
  · simp only [hgeneric, Bool.false_eq_true, if_false]
    cases hbuiltin : builtinStep? r.name with
    | some step => exact failsOnly_pure _
    | none =>
      -- Without a built-in step, the name is known to the schema or not at all.
      obtain ⟨hprimitive, hname⟩ := Decoder.builtinStep?_eq_none hbuiltin
      simp only [Direct.isKnown, hgeneric, hprimitive, beq_false_of_ne hname,
        Option.isSome_none, Bool.false_or] at hunknown
      by_cases hbare : r.bare = true
      · simp only [hbare, if_true] at hunknown ⊢
        cases hc : s.bareMember? r.name with
        | some c => exact failsOnly_bind (hnumbers.ofMember c) fun _ => failsOnly_pure _
        | none =>
            refine failsOnly_throw (hunknown ?_)
            rw [← Schema.map_val_bareMember?, hc]
            rfl
      · simp only [hbare, Bool.false_eq_true, if_false] at hunknown ⊢
        refine failsOnly_bind (hnumbers.ofType _ fun _ ht => hunknown ?_) fun _ =>
          failsOnly_pure _
        rw [ht]
        rfl

lemma failsOnly_exprStep (hnumbers : NumbersFailOnly bad numbers) {e : TypeExpr}
    (hunknown : Direct.isKnown s e.leaf = false → bad (.unknownType e.leaf.name)) :
    FailsOnly bad (exprStep numbers e) := by
  induction e with
  | named r => exact failsOnly_refStep hnumbers hunknown
  | vector boxed elem ih => exact failsOnly_bind (ih hunknown) fun _ => failsOnly_pure _

lemma failsOnly_gateOf {c : Constructor} {names : List String} {f : Field}
    (hword : ∀ bit, f.gate = some bit → bit.word ∉ names →
      bad (.unsupported c.predicate (.unknownFlagWord f.name bit.word))) :
    FailsOnly bad (gateOf c names f : Making s bound _) := by
  unfold gateOf
  cases hgate : f.gate with
  | none => exact failsOnly_pure _
  | some bit =>
    cases hslot : names.idxOf? bit.word with
    | some slot =>
        simp only [hslot]
        exact failsOnly_pure _
    | none =>
        simp only [hslot]
        exact failsOnly_throw (hword bit hgate (List.idxOf?_eq_none_iff.1 hslot))

lemma failsOnly_valueField (hnumbers : NumbersFailOnly bad numbers) {c : Constructor}
    {name : String} {type : TypeExpr} {gate : Option Gate}
    (hunknown : Direct.isKnown s type.leaf = false → bad (.unknownType type.leaf.name)) :
    FailsOnly bad (valueField numbers c name type gate) := by
  unfold valueField
  split_ifs
  · exact failsOnly_pure _
  · exact failsOnly_pure _
  · exact failsOnly_pure _
  · exact failsOnly_bind (failsOnly_exprStep hnumbers hunknown) fun _ => failsOnly_pure _

lemma failsOnly_fieldStep (hnumbers : NumbersFailOnly bad numbers) {c : Constructor}
    {names : List String} {f : Field} {rest : List Field}
    (hbad : ∀ {fault}, Obstructed s c names (f :: rest) fault → bad fault) :
    FailsOnly bad (fieldStep numbers c names f) := by
  unfold fieldStep
  refine failsOnly_bind (failsOnly_gateOf fun _ hgate hword => hbad (.gate hgate hword)) fun _ => ?_
  cases hkind : f.kind with
  | flagWord =>
      simp only
      split_ifs with hfull
      · exact failsOnly_throw (hbad (.words hkind hfull))
      · exact failsOnly_pure _
  | presence => exact failsOnly_pure _
  | value type =>
      refine failsOnly_bind (failsOnly_valueField hnumbers fun hunknown => ?_) fun _ =>
        failsOnly_pure _
      exact hbad (.type hkind hunknown)

/-- The words behind a field are those before it, and its own name if it is one. -/
lemma words_of_fieldStep {c : Constructor} {names names' : List String} {f : Field}
    {st : FieldStep} {p q : Draft s bound}
    (h : fieldStep numbers c names f p = .ok ((st, names'), q)) :
    names' = Direct.wordsUpTo names f := by
  obtain ⟨gate, m, -, h⟩ := run_bind_eq_ok.1 h
  unfold Direct.wordsUpTo
  cases hkind : f.kind with
  | flagWord =>
      simp only [hkind] at h
      split_ifs at h with hfull
      · cases h
      · cases h
        rfl
  | presence =>
      simp only [hkind] at h
      cases h
      rfl
  | value type =>
      simp only [hkind] at h
      obtain ⟨st', m', -, h⟩ := run_bind_eq_ok.1 h
      cases h
      rfl

lemma failsOnly_fieldSteps (hnumbers : NumbersFailOnly bad numbers) {c : Constructor}
    {names : List String} {fs : List Field}
    (hbad : ∀ {fault}, Obstructed s c names fs fault → bad fault) :
    FailsOnly bad (fieldSteps numbers c names fs) := by
  induction fs generalizing names with
  | nil => exact failsOnly_pure _
  | cons f rest ih =>
      refine failsOnly_bind (failsOnly_fieldStep hnumbers hbad) fun {p stepped q} hrun => ?_
      obtain ⟨st, names'⟩ := stepped
      obtain rfl := words_of_fieldStep hrun
      exact failsOnly_bind (ih fun h => hbad (.later h)) fun _ => failsOnly_pure _

lemma failsOnly_bodyOf (hnumbers : NumbersFailOnly bad numbers) {c : Constructor}
    (hbad : ∀ {fault}, Obstructed s c [] c.fields fault → bad fault) :
    FailsOnly bad (bodyOf numbers c) :=
  failsOnly_bind (failsOnly_fieldSteps hnumbers hbad) fun _ => failsOnly_pure _

lemma failsOnly_armsOf (hnumbers : NumbersFailOnly bad numbers) (members : List s.Member) :
    FailsOnly bad (armsOf numbers members) := by
  induction members with
  | nil => exact failsOnly_pure _
  | cons c rest ih =>
      refine failsOnly_bind (hnumbers.ofMember c) fun _ => ?_
      exact failsOnly_bind ih fun _ => failsOnly_pure _

lemma failsOnly_dispatchOver (hnumbers : NumbersFailOnly bad numbers) (expected : String)
    (members : List s.Member) : FailsOnly bad (dispatchOver numbers expected members) :=
  failsOnly_bind (failsOnly_armsOf hnumbers _) fun _ => failsOnly_pure _

lemma failsOnly_numberTypes (hnumbers : NumbersFailOnly bad numbers) {types : List TypeDef}
    (htypes : types ⊆ s.types) : FailsOnly bad (numberTypes numbers types) := by
  induction types with
  | nil => exact failsOnly_pure _
  | cons t rest ih =>
      obtain ⟨ht, hrest⟩ := List.cons_subset.1 htypes
      refine failsOnly_bind (hnumbers.ofType t.name fun _ hnone => ?_) fun _ => ih hrest
      -- A type of the schema is found under its name.
      exact absurd (List.find?_eq_none.1 hnone t ht) (by simp)

lemma failsOnly_numberMembers (hnumbers : NumbersFailOnly bad numbers) (members : List s.Member) :
    FailsOnly bad (numberMembers numbers members) := by
  induction members with
  | nil => exact failsOnly_pure _
  | cons c rest ih => exact failsOnly_bind (hnumbers.ofMember c) fun _ => ih

end

/-! ## Compiling -/

/-- Whatever the bound, numbers are refused for the faults of constructors only. -/
lemma numbersFailOnly_making (s : Schema) (bound : ℕ) :
    NumbersFailOnly (Faulty s) (making s bound) := by
  induction bound with
  | zero =>
      constructor
      · exact fun _ _ => ⟨fun {p} _ _ => absurd p.property (Nat.not_lt_zero _)⟩
      · exact fun _ => ⟨fun {p} _ _ => absurd p.property (Nat.not_lt_zero _)⟩
  | succ bound ih =>
      constructor
      case ofType =>
        intro name hunknown
        by_cases hname : name = objectName
        · simp only [making, hname, if_true]
          exact failsOnly_pure _
        · simp only [making, hname, if_false]
          split
          case h_1 t ht =>
            refine failsOnly_numberOf ?_
            exact failsOnly_bind (failsOnly_dispatchOver ih name _) fun _ => failsOnly_pure _
          case h_2 ht => exact failsOnly_throw (hunknown hname ht)
      case ofMember =>
        intro c
        simp only [making]
        refine failsOnly_numberOf ?_
        refine failsOnly_bind (failsOnly_bodyOf ih ?_) fun _ => failsOnly_pure _
        exact fun h => ⟨c.val, c.property, h⟩

/-- A schema that does not compile is refused for the fault of a constructor. -/
lemma faulty_of_compile {fault : Fault} (h : compile s = .error fault) : Faulty s fault := by
  have hnumbers := numbersFailOnly_making s (awaited s blank + 1)
  have hmake : FailsOnly (Faulty s) (makePlan s : Making s (awaited s blank + 1) Unit) := by
    unfold makePlan
    refine failsOnly_bind (failsOnly_numberTypes hnumbers (List.Subset.refl _)) fun _ => ?_
    refine failsOnly_bind (failsOnly_numberMembers hnumbers _) fun _ => ?_
    refine failsOnly_bind (failsOnly_dispatchOver hnumbers _ _) fun _ => ?_
    refine failsOnly_bind (failsOnly_put _ _) fun _ => ?_
    exact failsOnly_bind (failsOnly_dispatchOver hnumbers _ _) fun _ => failsOnly_put _ _
  unfold compile at h
  split at h
  case h_1 => cases h
  case h_2 other hrun =>
    cases h
    exact hmake.of_run hrun

/-! ## Finished plans -/

lemma isKnown_of_isOctets {type : TypeExpr} (h : isOctets type = true) :
    Direct.isKnown s type.leaf = true := by
  cases type with
  | vector boxed elem => cases h
  | named r =>
      have hname : r.name = "bytes" ∨ r.name = "string" := by simpa [isOctets] using h
      rcases hname with hname | hname <;> simp [Direct.isKnown, TypeExpr.leaf, hname,
        Direct.primitive?]

lemma isKnown_of_valueField {p : Plan} (hp : Finished s p) {c : Constructor} {name : String}
    {type : TypeExpr} {gate : Option Gate} {st : FieldStep}
    (h : valueField (found s p) c name type gate = .ok st) :
    Direct.isKnown s type.leaf = true := by
  cases hoctets : isOctets type with
  | true => exact isKnown_of_isOctets hoctets
  | false =>
      unfold valueField at h
      simp only [hoctets, Bool.false_and, Bool.false_eq_true, if_false] at h
      obtain ⟨step, hstep, -⟩ := bind_eq_ok.1 h
      by_contra hunknown
      rw [(Decoder.exprStep_found hp type).2 (by simpa using hunknown)] at hstep
      cases hstep

/-- Fields that have become steps are not obstructed. -/
lemma not_obstructed_of_fieldSteps {p : Plan} (hp : Finished s p) {c : Constructor}
    {names : List String} {fs : List Field} {steps : List FieldStep}
    (h : fieldSteps (found s p) c names fs = .ok steps) (fault : Fault) :
    ¬Obstructed s c names fs fault := by
  intro hobstructed
  induction hobstructed generalizing steps with
  | @type names f rest type hkind hunknown =>
      obtain ⟨_, hst, -⟩ := bind_eq_ok.1 h
      obtain ⟨gate, -, hst⟩ := Decoder.fieldStep_eq_ok hst
      rcases hst with ⟨hk, -⟩ | ⟨hk, -⟩ | ⟨type', hk, hvalue, -⟩
      · cases hkind.symm.trans hk
      · cases hkind.symm.trans hk
      · cases hkind.symm.trans hk
        rw [isKnown_of_valueField hp hvalue] at hunknown
        cases hunknown
  | @gate names f rest bit hgate hword =>
      obtain ⟨_, hst, -⟩ := bind_eq_ok.1 h
      obtain ⟨gate, hgateOf, -⟩ := Decoder.fieldStep_eq_ok hst
      exact hword (Direct.mem_of_gateOf hgateOf bit hgate)
  | @words names f rest hkind hfull =>
      obtain ⟨_, hst, -⟩ := bind_eq_ok.1 h
      obtain ⟨gate, -, hst⟩ := Decoder.fieldStep_eq_ok hst
      rcases hst with ⟨-, hroom, -⟩ | ⟨hk, -⟩ | ⟨type, hk, -⟩
      · exact hroom hfull
      · cases hkind.symm.trans hk
      · cases hkind.symm.trans hk
  | @later names f rest fault _ ih =>
      obtain ⟨⟨st, names'⟩, hst, hrest⟩ := bind_eq_ok.1 h
      obtain ⟨more, hmore, -⟩ := bind_eq_ok.1 hrest
      exact ih (Direct.names_of_fieldStep hst ▸ hmore)

/-- **A schema with distinct numbers compiles exactly when no constructor is at fault.** -/
theorem exists_compile_iff (hs : s.HasDistinctIds) :
    (∃ p, compile s = .ok p) ↔ ∀ fault, ¬Faulty s fault := by
  constructor
  · rintro ⟨p, hcompile⟩ fault ⟨c, hc, hobstructed⟩
    have hp := finished_of_compile hs hcompile
    obtain ⟨n, b, -, hb, -⟩ := hp.member ⟨c, hc⟩
    obtain ⟨steps, hsteps, -⟩ := bind_eq_ok.1 hb
    exact not_obstructed_of_fieldSteps hp hsteps fault hobstructed
  · intro hnone
    cases hcompile : compile s with
    | ok p => exact ⟨p, rfl⟩
    | error fault => exact absurd (faulty_of_compile hcompile) (hnone fault)

end TypeLang.Plan
