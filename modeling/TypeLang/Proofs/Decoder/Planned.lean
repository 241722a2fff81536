import TypeLang.Decoder.Direct
import TypeLang.Proofs.Decoder.Rows
import TypeLang.Proofs.Plan.Finished

/-!
# Reading by a plan is reading by the schema

A routine of a finished plan reads what its subject reads in the schema: value for value, fault for
fault, and up to the same cursor.  The proof relates the two readings part by part, from names and
gates up to whole routines, and then goes by induction on the levels that are left.
-/

namespace TypeLang.Decoder

open Wire Plan

variable {s : Schema} {p : Plan}

/-! ## Candidates -/

/-- The members of the schema that may stand where a tag is due. -/
def membersOf (s : Schema) : Direct.Choice → List s.Member
  | .object => objects s
  | .standalone => standalone s
  | .type name =>
    match s.typeDef? name with
    | some t => s.members t
    | none => []

lemma mem_membersOf (hs : s.HasDistinctIds) (choice : Direct.Choice) (c : s.Member) :
    c ∈ membersOf s choice ↔ choice.admits s c.val = true := by
  cases choice with
  | object => simp [membersOf, objects, Direct.Choice.admits]
  | standalone => simp [membersOf, standalone, Direct.Choice.admits]
  | type name =>
      cases ht : s.typeDef? name with
      | none => simp [membersOf, Direct.Choice.admits, ht]
      | some t =>
          simp only [membersOf, ht, Schema.members, List.mem_filterMap, Direct.Choice.admits,
            Option.any_some, List.contains_iff_mem]
          constructor
          · rintro ⟨id, hid, hc⟩
            have hbyId : s.byId? id = some c.val := by
              rw [← Schema.map_val_member?, hc]
              rfl
            have : c.val.id = id := by simpa using List.find?_some hbyId
            rwa [this]
          · exact fun hmem => ⟨c.val.id, hmem, hs.member?_id c⟩

/-- Among the members that a choice admits, a tag finds the candidate that it announces. -/
lemma find?_membersOf (hs : s.HasDistinctIds) (choice : Direct.Choice) (tag : UInt32) :
    ((membersOf s choice).find? (·.val.id == tag)).map Subtype.val = choice.candidate? s tag := by
  unfold Direct.Choice.candidate?
  cases hfind : (membersOf s choice).find? (·.val.id == tag) with
  | some c =>
      have hid : c.val.id = tag := by simpa using List.find?_some hfind
      have hadmits := (mem_membersOf hs choice c).1 (List.mem_of_find?_eq_some hfind)
      rw [← hid, hs.byId?_eq c.property, Option.filter_some, if_pos hadmits]
      rfl
  | none =>
      cases hbyId : s.byId? tag with
      | none => rfl
      | some c =>
          have hid : c.id = tag := by simpa using List.find?_some hbyId
          have hnot : choice.admits s c = false := by
            by_contra hadmits
            have hmem := (mem_membersOf hs choice ⟨c, Schema.mem_of_byId? hbyId⟩).2
              (by simpa using hadmits)
            simpa [hid] using List.find?_eq_none.1 hfind _ hmem
          simp [Option.filter_some, hnot]

/-! ## Dispatches -/

lemma ofMember_eq_ok {c : s.Member} {n : ℕ} :
    (found s p).ofMember c = .ok n ↔ p.number? (.constructor c.val.id) = some n :=
  lookUp_eq_ok

/-- The arm of a tag leads to the body of the member with that tag. -/
lemma lookup_armsOf {members : List s.Member} {arms : List (UInt32 × ℕ)}
    (h : armsOf (found s p) members = .ok arms) (tag : UInt32) :
    arms.lookup tag = (members.find? (·.val.id == tag)).bind fun c =>
      p.number? (.constructor c.val.id) := by
  induction members generalizing arms with
  | nil =>
      cases h
      rfl
  | cons c rest ih =>
      obtain ⟨n, hn, h⟩ := bind_eq_ok.1 h
      obtain ⟨more, hmore, h⟩ := bind_eq_ok.1 h
      cases h
      by_cases hc : tag = c.val.id
      · subst hc
        simp [ofMember_eq_ok.1 hn]
      · simp [List.lookup_cons, beq_false_of_ne hc, beq_false_of_ne (Ne.symm hc), ih hmore]

/-- A dispatch over the members of a choice follows a tag to its candidate, and knows none for the
tag of envelopes. -/
lemma lookup_dispatch (hs : s.HasDistinctIds) {choice : Direct.Choice} {d : Dispatch}
    (hd : dispatchOver (found s p) choice.expected (membersOf s choice) = .ok d) (tag : UInt32) :
    d.expected = choice.expected ∧
      d.arms.lookup tag = if tag = Tag.gzipPacked then none
        else (choice.candidate? s tag).bind fun c => p.number? (.constructor c.id) := by
  obtain ⟨arms, harms, h⟩ := bind_eq_ok.1 hd
  cases h
  refine ⟨rfl, ?_⟩
  show arms.lookup tag = _
  rw [lookup_armsOf harms, List.find?_filter]
  by_cases hgzip : tag = Tag.gzipPacked
  · rw [if_pos hgzip, Option.bind_eq_none_iff]
    intro c hc
    have := List.find?_some hc
    simp_all
  · rw [if_neg hgzip, ← find?_membersOf hs]
    have hpred : (fun c : s.Member => decide ((c.val.id != Tag.gzipPacked) = true ∧
        (c.val.id == tag) = true)) = fun c => c.val.id == tag := by
      funext c
      by_cases hc : c.val.id = tag <;> simp [hc, hgzip]
    rw [hpred]
    cases (membersOf s choice).find? (·.val.id == tag) <;> rfl

/-! ## Fields -/

/-- The slots hold the values of the words so far, and zeros behind them. -/
def Slots (words : Words) (named : Direct.Words) : Prop :=
  named.length ≤ maxFlagWords ∧
    words = named.map (·.2) ++ List.replicate (maxFlagWords - named.length) 0

lemma slots_nil : Slots noWords [] :=
  ⟨Nat.zero_le _, rfl⟩

/-- The next word goes into the first slot that is free; while none is read, that slot holds
zero. -/
lemma slots_append {words : Words} {named : Direct.Words} (h : Slots words named)
    (hroom : named.length ≠ maxFlagWords) (name : String) (word : UInt32) :
    Slots (words.set named.length word) (named ++ [(name, word)]) := by
  obtain ⟨hlength, rfl⟩ := h
  obtain ⟨k, hk⟩ : ∃ k, maxFlagWords - named.length = k + 1 :=
    Nat.exists_eq_succ_of_ne_zero (by omega)
  refine ⟨by simp only [List.length_append, List.length_singleton]; omega, ?_⟩
  have hk' : maxFlagWords - (named ++ [(name, word)]).length = k := by
    simp only [List.length_append, List.length_singleton]
    omega
  rw [hk', hk, List.replicate_succ, List.set_append_right _ _ (by simp)]
  simp

lemma set_zero {words : Words} {named : Direct.Words} (h : Slots words named)
    (hroom : named.length ≠ maxFlagWords) : words.set named.length 0 = words := by
  obtain ⟨hlength, rfl⟩ := h
  obtain ⟨k, hk⟩ : ∃ k, maxFlagWords - named.length = k + 1 :=
    Nat.exists_eq_succ_of_ne_zero (by omega)
  rw [hk, List.replicate_succ, List.set_append_right _ _ (by simp)]
  simp

/-- The slot of a name holds the value of the first word of that name. -/
lemma getD_slot {words : Words} {named : Direct.Words} (h : Slots words named) {name : String}
    {slot : ℕ} (hslot : (named.map (·.1)).idxOf? name = some slot) :
    words.getD slot 0 = (named.lookup name).getD 0 := by
  obtain ⟨-, rfl⟩ := h
  generalize List.replicate (maxFlagWords - named.length) (0 : UInt32) = free
  induction named generalizing slot with
  | nil => simp [List.idxOf?] at hslot
  | cons entry rest ih =>
      obtain ⟨first, word⟩ := entry
      by_cases hname : first = name
      · subst hname
        simp [List.idxOf?_cons] at hslot
        simp [← hslot]
      · simp only [List.map_cons, List.idxOf?_cons, beq_false_of_ne hname, Bool.false_eq_true,
          if_false, Option.map_eq_some_iff] at hslot
        obtain ⟨k, hk, rfl⟩ := hslot
        simpa [List.lookup_cons, beq_false_of_ne (Ne.symm hname)] using ih hk

/-- A field is open in a body exactly when it is open in the schema. -/
lemma isOpen_eq {words : Words} {named : Direct.Words} (h : Slots words named) {c : Constructor}
    {f : Field} {gate : Option Gate}
    (hgate : gateOf c (named.map (·.1)) f = (.ok gate : Except Fault _)) (step : FieldStep)
    (hstep : step.gate = gate) : isOpen words step = Direct.isOpen named f := by
  unfold gateOf at hgate
  unfold isOpen Direct.isOpen
  rw [hstep]
  cases hf : f.gate with
  | none =>
      rw [hf] at hgate
      cases hgate
      rfl
  | some bit =>
      rw [hf] at hgate
      cases hslot : (named.map (·.1)).idxOf? bit.word with
      | none =>
          simp only [hslot] at hgate
          cases hgate
      | some slot =>
          simp only [hslot] at hgate
          cases hgate
          simp only [Option.all_some, getD_slot h hslot]

/-- What a field becomes: a word takes the next slot, if there is one left. -/
lemma fieldStep_eq_ok {c : Constructor} {names names' : List String} {f : Field} {st : FieldStep}
    (h : fieldStep (found s p) c names f = .ok (st, names')) :
    ∃ gate, gateOf c names f = (.ok gate : Except Fault _) ∧
      ((f.kind = .flagWord ∧ names.length ≠ maxFlagWords ∧
          st = ⟨f.name, .flagWord names.length, gate⟩ ∧ names' = names ++ [f.name]) ∨
        (f.kind = .presence ∧ st = ⟨f.name, .presence, gate⟩ ∧ names' = names) ∨
        ∃ type, f.kind = .value type ∧ valueField (found s p) c f.name type gate = .ok st ∧
          names' = names) := by
  obtain ⟨gate, hgate, h⟩ := bind_eq_ok.1 h
  refine ⟨gate, hgate, ?_⟩
  cases hkind : f.kind with
  | flagWord =>
      simp only [hkind] at h
      split_ifs at h with hfull
      cases h
      exact .inl ⟨rfl, hfull, rfl, rfl⟩
  | presence =>
      simp only [hkind] at h
      cases h
      exact .inr (.inl ⟨rfl, rfl, rfl⟩)
  | value type =>
      simp only [hkind] at h
      obtain ⟨st', hst', h⟩ := bind_eq_ok.1 h
      cases h
      exact .inr (.inr ⟨type, rfl, hst', rfl⟩)

lemma gate_of_valueField {c : Constructor} {name : String} {type : TypeExpr} {gate : Option Gate}
    {st : FieldStep} (hst : valueField (found s p) c name type gate = .ok st) :
    st.gate = gate := by
  unfold valueField at hst
  split_ifs at hst
  · cases hst; rfl
  · cases hst; rfl
  · cases hst; rfl
  · obtain ⟨step, -, hst⟩ := bind_eq_ok.1 hst
    cases hst
    rfl

section

variable {run : ℕ → Reader Value} {vector : Bool → Step → Reader (List Value)}
  {value : TypeExpr → Reader Value} {minRandom : ℕ} {c : Constructor}
  (hvalue : ∀ {e st}, exprStep (found s p) e = .ok st → stepWith run vector st = value e)

include hvalue

/-- A value under a name is read by its step as it is read by its type. -/
lemma fields_value {name : String} {type : TypeExpr} {gate : Option Gate} {st : FieldStep}
    (hst : valueField (found s p) c name type gate = .ok st) {words : Words}
    (hopen : isOpen words st = true) (rest : List FieldStep) (read : List (String × Value)) :
    fields minRandom (stepWith run vector) (st :: rest) words read =
      Direct.shown minRandom value c name type >>= fun kept? =>
        fields minRandom (stepWith run vector) rest words (kept?.toList ++ read) := by
  unfold valueField at hst
  unfold Direct.shown
  split_ifs at hst ⊢
  · cases hst
    simp [fields, hopen]
  · cases hst
    simp [fields, hopen, stepWith]
  · cases hst
    simp [fields, hopen]
  · obtain ⟨step, hstep, hst⟩ := bind_eq_ok.1 hst
    cases hst
    simp [fields, hopen, hvalue hstep]

/-- Fields are read by their steps as they are read by the schema. -/
lemma fields_eq {fs : List Field} {steps : List FieldStep} {words : Words}
    {named : Direct.Words} (hsteps : fieldSteps (found s p) c (named.map (·.1)) fs = .ok steps)
    (hslots : Slots words named) (read : List (String × Value)) :
    fields minRandom (stepWith run vector) steps words read =
      Direct.fields minRandom value c fs named >>= fun more => pure (read.reverse ++ more) := by
  induction fs generalizing steps words named read with
  | nil =>
      cases hsteps
      simp only [fields, Direct.fields, pure_bind, List.append_nil]
      rfl
  | cons f rest ih =>
      obtain ⟨⟨st, names⟩, hst, hsteps⟩ := bind_eq_ok.1 hsteps
      obtain ⟨more, hmore, hsteps⟩ := bind_eq_ok.1 hsteps
      cases hsteps
      obtain ⟨gate, hgate, hbecomes⟩ := fieldStep_eq_ok hst
      unfold Direct.fields
      rcases hbecomes with ⟨hkind, hroom, rfl, rfl⟩ | ⟨hkind, rfl, rfl⟩ | ⟨type, hkind, hvf, rfl⟩
      · rw [List.length_map] at hroom
        have hopen := isOpen_eq hslots hgate
          ⟨f.name, .flagWord (named.map (·.1)).length, gate⟩ rfl
        have hnext := fun word => slots_append hslots hroom f.name word
        have hmore' : ∀ word : UInt32,
            fieldSteps (found s p) c ((named ++ [(f.name, word)]).map (·.1)) rest = .ok more := by
          intro word
          rw [List.map_append]
          exact hmore
        rw [fields, hopen, hkind]
        by_cases hf : Direct.isOpen named f = true
        · rw [if_pos hf, if_pos hf, bind_assoc, List.length_map]
          exact bind_congr fun word => ih (hmore' word) (hnext word) read
        · -- Behind a closed gate, the slot keeps its zero.
          have hzero := hnext 0
          rw [set_zero hslots hroom] at hzero
          rw [if_neg hf, if_neg hf]
          exact ih (hmore' 0) hzero read
      · have hopen := isOpen_eq hslots hgate ⟨f.name, .presence, gate⟩ rfl
        rw [fields, hopen, hkind]
        by_cases hf : Direct.isOpen named f = true
        · rw [if_pos hf, if_pos hf, ih hmore hslots, bind_assoc]
          simp
        · rw [if_neg hf, if_neg hf]
          exact ih hmore hslots read
      · have hopen := isOpen_eq hslots hgate _ (gate_of_valueField hvf)
        rw [hkind]
        by_cases hf : Direct.isOpen named f = true
        · rw [fields_value hvalue hvf (hopen.trans hf), if_pos hf]
          simp only [bind_assoc, pure_bind]
          refine bind_congr fun kept? => ?_
          rw [ih hmore hslots]
          cases kept? <;> simp
        · rw [fields, hopen, if_neg hf, if_neg hf]
          exact ih hmore hslots read

end

/-! ## Values -/

/-- A built-in name is either that of all objects or read alike by its step and by itself. -/
lemma builtinStep?_eq_some {name : String} {st : Step} (h : builtinStep? name = some st)
    (run : ℕ → Reader Value) (vector : Bool → Step → Reader (List Value)) :
    (name = objectName ∧ st = .call anyObject) ∨
      Direct.primitive? name = some (stepWith run vector st) := by
  unfold builtinStep? at h
  split at h <;> cases h
  case h_12 => exact .inl ⟨rfl, rfl⟩
  all_goals exact .inr rfl

lemma builtinStep?_eq_none {name : String} (h : builtinStep? name = none) :
    Direct.primitive? name = none ∧ name ≠ objectName := by
  unfold builtinStep? at h
  split at h <;> cases h
  refine ⟨?_, by assumption⟩
  unfold Direct.primitive?
  split <;> first | rfl | contradiction

/-- The number of the dispatch over a choice. -/
def Serves (p : Plan) : Direct.Choice → ℕ → Prop
  | .object, n => n = anyObject
  | .standalone, n => n = topLevel
  | .type name, n => name ≠ objectName ∧ p.number? (.type name) = some n

/-- Routines and vectors that read what their subjects read in the schema. -/
structure Matches (s : Schema) (p : Plan) (run : ℕ → Reader Value)
    (vector : Bool → Step → Reader (List Value)) (boxed : Direct.Choice → Reader Value)
    (bare : Constructor → Reader Value) (vec : Bool → TypeExpr → Reader (List Value)) : Prop where
  dispatch : ∀ choice {n}, Serves p choice n → run n = boxed choice
  member : ∀ {c : s.Member} {n}, p.number? (.constructor c.val.id) = some n → run n = bare c.val
  vector : ∀ {boxedVector e st}, exprStep (found s p) e = .ok st →
    vector boxedVector st = vec boxedVector e

section

variable {run : ℕ → Reader Value} {vector : Bool → Step → Reader (List Value)}
  {boxed : Direct.Choice → Reader Value} {bare : Constructor → Reader Value}
  {vec : Bool → TypeExpr → Reader (List Value)}

lemma stepWith_refStep (hm : Matches s p run vector boxed bare vec) {r : TypeRef} {st : Step}
    (h : refStep (found s p) r = .ok st) :
    stepWith run vector st = Direct.named s boxed bare r := by
  unfold refStep at h
  unfold Direct.named
  by_cases hgeneric : r.generic = true
  · simp only [hgeneric, if_true] at h ⊢
    cases h
    exact hm.dispatch .object rfl
  · simp only [hgeneric, Bool.false_eq_true, if_false] at h ⊢
    cases hbuiltin : builtinStep? r.name with
    | some step =>
        simp only [hbuiltin] at h
        cases h
        rcases builtinStep?_eq_some hbuiltin run vector with ⟨hname, rfl⟩ | hprimitive
        · simp only [hname, if_true]
          exact hm.dispatch .object rfl
        · simp only [hprimitive]
    | none =>
        obtain ⟨hprimitive, hname⟩ := builtinStep?_eq_none hbuiltin
        simp only [hbuiltin] at h
        simp only [hprimitive, hname, if_false]
        by_cases hbare : r.bare = true
        · simp only [hbare, if_true] at h ⊢
          rw [← Schema.map_val_bareMember?]
          cases hc : s.bareMember? r.name with
          | none => simp [hc] at h
          | some c =>
              simp only [hc] at h
              obtain ⟨n, hn, h⟩ := bind_eq_ok.1 h
              cases h
              exact hm.member (ofMember_eq_ok.1 hn)
        · simp only [hbare, Bool.false_eq_true, if_false] at h ⊢
          obtain ⟨n, hn, h⟩ := bind_eq_ok.1 h
          cases h
          simp only [found, hname, if_false] at hn
          exact hm.dispatch (.type r.name) ⟨hname, lookUp_eq_ok.1 hn⟩

/-- A step reads what its type expression reads. -/
lemma stepWith_exprStep (hm : Matches s p run vector boxed bare vec) {e : TypeExpr} {st : Step}
    (h : exprStep (found s p) e = .ok st) :
    stepWith run vector st = Direct.valueWith s boxed bare vec e := by
  cases e with
  | named r => exact stepWith_refStep hm h
  | vector boxedVector elem =>
      obtain ⟨step, hstep, h⟩ := bind_eq_ok.1 h
      cases h
      by_cases hentry : isEntry elem = true
      · simp only [Direct.valueWith, hentry, if_true, stepWith, hm.vector hstep]
      · simp only [Direct.valueWith, hentry, Bool.false_eq_true, if_false, stepWith,
          hm.vector hstep]

end

/-! ## Routines -/

lemma exists_dispatch (hp : Finished s p) {choice : Direct.Choice} {n : ℕ}
    (hn : Serves p choice n) :
    ∃ d, dispatchOver (found s p) choice.expected (membersOf s choice) = .ok d ∧
      p.routine n = .dispatch d := by
  cases choice with
  | object => exact hn ▸ hp.any
  | standalone => exact hn ▸ hp.top
  | type name =>
      obtain ⟨hname, hn⟩ := hn
      obtain ⟨t, ht⟩ := Option.isSome_iff_exists.1 (hp.known hn)
      obtain ⟨m, d, hm, hd, hroutine⟩ := hp.type ht hname
      obtain rfl : m = n := Option.some.inj (hm.symm.trans hn)
      exact ⟨d, by simpa only [membersOf, ht, Direct.Choice.expected] using hd, hroutine⟩

/-- A dispatch goes on from a tag as its choice does. -/
lemma dispatch_eq (hs : s.HasDistinctIds) (hp : Finished s p) (maxInflated : ℕ)
    {run : ℕ → Reader Value} {again : Reader Value} {choice : Direct.Choice}
    {bare : Constructor → Reader Value} {d : Dispatch}
    (hd : dispatchOver (found s p) choice.expected (membersOf s choice) = .ok d)
    (hbare : ∀ {c : s.Member} {n}, p.number? (.constructor c.val.id) = some n →
      run n = bare c.val) :
    dispatch maxInflated d run again =
      Direct.announced s maxInflated choice bare again := by
  unfold dispatch Direct.announced
  refine bind_congr fun tag => ?_
  obtain ⟨hexpected, hlookup⟩ := lookup_dispatch hs hd tag
  rw [hlookup, hexpected]
  by_cases hgzip : tag = Tag.gzipPacked
  · simp only [hgzip, if_true]
  · simp only [hgzip, if_false]
    cases hc : choice.candidate? s tag with
    | none => rfl
    | some c =>
        have hmem : c ∈ s.constructors :=
          Schema.mem_of_byId? (Option.filter_eq_some_iff.1 hc).1
        obtain ⟨n, b, hn, -⟩ := hp.member ⟨c, hmem⟩
        simp only [Option.bind_some, hn]
        exact hbare (c := ⟨c, hmem⟩) hn

/-- A body reads what its constructor reads. -/
lemma body_eq {run : ℕ → Reader Value} {vector : Bool → Step → Reader (List Value)}
    {value : TypeExpr → Reader Value} {minRandom : ℕ} {c : Constructor} {b : Body}
    (hb : bodyOf (found s p) c = .ok b)
    (hvalue : ∀ {e st}, exprStep (found s p) e = .ok st → stepWith run vector st = value e) :
    body minRandom (stepWith run vector) b = Direct.construct minRandom value c := by
  obtain ⟨steps, hsteps, hb⟩ := bind_eq_ok.1 hb
  cases hb
  unfold body Direct.construct
  rw [fields_eq hvalue hsteps slots_nil]
  simp

/-! ## Levels -/

/-- At every level, routines read what their subjects read in the schema. -/
lemma matches_levels (hs : s.HasDistinctIds) (hp : Finished s p) (limits : Limits)
    (levels : ℕ) :
    Matches s p (run p limits levels) (vector p limits levels) (Direct.boxed s limits levels)
        (Direct.bare s limits levels) (Direct.vector s limits levels) ∧
      ∀ {choice d}, dispatchOver (found s p) choice.expected (membersOf s choice) = .ok d →
        reopen p limits levels d = Direct.boxed s limits levels choice := by
  induction levels with
  | zero => exact ⟨⟨fun _ _ _ => rfl, fun _ => rfl, fun _ => rfl⟩, fun _ => rfl⟩
  | succ levels ih =>
      obtain ⟨hm, hreopen⟩ := ih
      have hvalue : ∀ {e st}, exprStep (found s p) e = .ok st →
          stepWith (run p limits levels) (vector p limits levels) st =
            Direct.valueWith s (Direct.boxed s limits levels) (Direct.bare s limits levels)
              (Direct.vector s limits levels) e :=
        stepWith_exprStep hm
      refine ⟨⟨?dispatch, ?member, ?vector⟩, ?reopen⟩
      case dispatch =>
        intro choice n hn
        obtain ⟨d, hd, hroutine⟩ := exists_dispatch hp hn
        simp only [run, hroutine, Direct.boxed]
        rw [dispatch_eq hs hp _ hd hm.member, hreopen hd]
      case member =>
        intro c n hn
        obtain ⟨m, b, hm, hb, hroutine⟩ := hp.member c
        obtain rfl : m = n := Option.some.inj (hm.symm.trans hn)
        simp only [run, hroutine, Direct.bare]
        exact body_eq hb hvalue
      case vector =>
        intro boxedVector e st hst
        simp only [vector, Direct.vector, hvalue hst, Direct.vectorOf, vectorOf_eq]
      case reopen =>
        intro choice d hd
        simp only [reopen, Direct.boxed]
        rw [dispatch_eq hs hp _ hd hm.member, hreopen hd]

/-! ## Entry points -/

lemma readObject_eq_direct (hs : s.HasDistinctIds) (hp : Finished s p) (limits : Limits) :
    readObject ⟨s, p, limits⟩ = Direct.readObject s limits :=
  (matches_levels hs hp limits _).1.dispatch .standalone rfl

/-- A reference that the schema has a meaning for has a step; any other is reported. -/
lemma refStep_found (hp : Finished s p) (r : TypeRef) :
    (Direct.isKnown s r = true → ∃ st, refStep (found s p) r = .ok st) ∧
      (Direct.isKnown s r = false → refStep (found s p) r = .error (.unknownType r.name)) := by
  unfold refStep Direct.isKnown
  by_cases hgeneric : r.generic = true
  · simp [hgeneric, pure, Except.pure]
  · simp only [hgeneric, Bool.false_eq_true, if_false, Bool.false_or]
    cases hbuiltin : builtinStep? r.name with
    | some st =>
        have hsome : ((Direct.primitive? r.name).isSome || r.name == objectName) = true := by
          rcases builtinStep?_eq_some hbuiltin (fun _ => .fail (notMade 0))
            (fun _ _ => .fail (notMade 0)) with ⟨hname, -⟩ | hprimitive
          · simp [hname]
          · simp [hprimitive]
        simp [hsome, pure, Except.pure]
    | none =>
        obtain ⟨hprimitive, hname⟩ := builtinStep?_eq_none hbuiltin
        simp only [hprimitive, beq_false_of_ne hname, Option.isSome_none, Bool.false_or]
        by_cases hbare : r.bare = true
        · simp only [hbare, if_true]
          rw [← Schema.map_val_bareMember?, Option.isSome_map]
          cases hc : s.bareMember? r.name with
          | none => exact ⟨fun h => absurd h Bool.false_ne_true, fun _ => rfl⟩
          | some c =>
              obtain ⟨n, b, hn, -⟩ := hp.member c
              exact ⟨fun _ => ⟨_, bind_eq_ok.2 ⟨n, ofMember_eq_ok.2 hn, rfl⟩⟩,
                fun h => absurd h (by simp)⟩
        · simp only [hbare, Bool.false_eq_true, if_false, found, hname]
          cases ht : s.typeDef? r.name with
          | none =>
              have hnone : p.number? (.type r.name) = none := by
                by_contra hsome
                obtain ⟨n, hn⟩ := Option.ne_none_iff_exists'.1 hsome
                simpa [ht] using hp.known hn
              refine ⟨fun h => absurd h Bool.false_ne_true, fun _ => ?_⟩
              simp [lookUp, hnone, bind, Except.bind]
          | some t =>
              obtain ⟨n, d, hn, -⟩ := hp.type ht hname
              exact ⟨fun _ => ⟨_, bind_eq_ok.2 ⟨n, lookUp_eq_ok.2 hn, rfl⟩⟩,
                fun h => absurd h (by simp)⟩

/-- The same for type expressions, by the reference inside all vectors. -/
lemma exprStep_found (hp : Finished s p) (e : TypeExpr) :
    (Direct.isKnown s e.leaf = true → ∃ st, exprStep (found s p) e = .ok st) ∧
      (Direct.isKnown s e.leaf = false →
        exprStep (found s p) e = .error (.unknownType e.leaf.name)) := by
  induction e with
  | named r => exact refStep_found hp r
  | vector boxedVector elem ih =>
      refine ⟨fun h => ?_, fun h => ?_⟩
      · obtain ⟨st, hst⟩ := ih.1 h
        exact ⟨_, bind_eq_ok.2 ⟨st, hst, rfl⟩⟩
      · simp only [exprStep, TypeExpr.leaf, ih.2 h, bind, Except.bind]

lemma readType_eq_direct (hs : s.HasDistinctIds) (hp : Finished s p) (limits : Limits)
    (type : String) : readType ⟨s, p, limits⟩ type = Direct.readType s limits type := by
  unfold readType stepOf Direct.readType
  cases hread : TypeExpr.read type.toList with
  | error fault => rfl
  | ok e =>
      simp only
      cases hknown : Direct.isKnown s e.leaf with
      | false =>
          rw [(exprStep_found hp e).2 hknown]
          rfl
      | true =>
          obtain ⟨st, hst⟩ := (exprStep_found hp e).1 hknown
          rw [hst]
          exact stepWith_exprStep (matches_levels hs hp limits _).1 hst

lemma ofSchema_eq_ok {limits : Limits} {d : Decoder} (h : ofSchema s limits = .ok d) :
    ∃ p, compile s = .ok p ∧ d = ⟨s, p, limits⟩ := by
  obtain ⟨p, hp, rfl⟩ := map_eq_ok.1 h
  exact ⟨p, hp, rfl⟩

lemma ofSchema_of_compile (h : compile s = .ok p) (limits : Limits) :
    ofSchema s limits = .ok ⟨s, p, limits⟩ := by
  simp only [ofSchema, h, Except.map]

/-- The two readings of a decoder of a schema that was built. -/
lemma eq_direct_of_build {b : Builder} {limits : Limits} {d : Decoder} (hb : b.build = .ok s)
    (hd : ofSchema s limits = .ok d) :
    d.readObject = Direct.readObject s limits ∧
      ∀ type, d.readType type = Direct.readType s limits type := by
  obtain ⟨p, hp, rfl⟩ := ofSchema_eq_ok hd
  have hs := Schema.hasDistinctIds_of_build hb
  have hfinished := finished_of_compile hs hp
  exact ⟨readObject_eq_direct hs hfinished limits, readType_eq_direct hs hfinished limits⟩

/-- **Specialisation is correct.**  On every wire and from every place, a decoder gives what the
schema alone gives: the same value or the same fault, and the same cursor. -/
theorem decoder_reads_by_schema {b : Builder} {limits : Limits} {d : Decoder}
    (hb : b.build = .ok s) (hd : ofSchema s limits = .ok d) (c : Cursor) :
    d.readObject c = Direct.readObject s limits c ∧
      ∀ type, d.readType type c = Direct.readType s limits type c := by
  obtain ⟨hobject, htype⟩ := eq_direct_of_build hb hd
  exact ⟨congrFun hobject c, fun type => congrFun (htype type) c⟩

/-! ### A schema whose type refers to itself -/

section

open Declaration

/-- Formatted text: plain, bold, or a gated row of texts. -/
def richText : Builder :=
  let small (name : String) : TypeTerm := .plain ⟨⟨[], name⟩, true, false⟩
  let text : TypeTerm := .plain ⟨⟨[], "RichText"⟩, false, false⟩
  let texts : TypeTerm := .applied ⟨⟨[], "Vector"⟩, false, false⟩ text
  let declare (name : String) (id : UInt32) (args : List Arg) : Combinator × Origin :=
    (⟨⟨[], name⟩, id, args, text, .types⟩, .mtproto)
  ⟨[declare "textPlain" 0x744694E0 [⟨"text", .value (small "string") none⟩],
    declare "textBold" 0x6724ABC4 [⟨"text", .value text none⟩],
    declare "textConcat" 0x7E6260D7
      [⟨"flags", .flagWord⟩, ⟨"texts", .value texts (some ⟨"flags", 0⟩)⟩]], none⟩

lemma exists_richText : ∃ s d, richText.build = .ok s ∧ ofSchema s {} = .ok d := by
  have hsome : (richText.build.toOption.bind fun s => (ofSchema s {}).toOption).isSome = true := by
    decide +kernel
  obtain ⟨d, hd⟩ := Option.isSome_iff_exists.1 hsome
  obtain ⟨s, hs, hd⟩ := Option.bind_eq_some_iff.1 hd
  exact ⟨s, d, eq_ok_of_toOption hs, eq_ok_of_toOption hd⟩

theorem richText_reads_by_schema : ∃ s d, richText.build = .ok s ∧ ofSchema s {} = .ok d ∧
    d.readObject (Cursor.start [0xE0, 0x94, 0x46, 0x74, 2, 0x68, 0x69, 0]) =
      Direct.readObject s {} (Cursor.start [0xE0, 0x94, 0x46, 0x74, 2, 0x68, 0x69, 0]) ∧
    d.readType "Vector<RichText>" (Cursor.start [0, 1]) =
      Direct.readType s {} "Vector<RichText>" (Cursor.start [0, 1]) := by
  obtain ⟨s, d, hs, hd⟩ := exists_richText
  exact ⟨s, d, hs, hd, (decoder_reads_by_schema hs hd _).1,
    (decoder_reads_by_schema hs hd _).2 "Vector<RichText>"⟩

end

end TypeLang.Decoder
