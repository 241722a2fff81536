import TypeLang.Proofs.Decoder.Planned

/-!
# What references, gates and names mean

The terms in which the laws of whole schemas are stated.  A reference stands for a primitive type, a
choice of tagged constructors or one bare constructor.  A gate asks for a bit of the flag word that
it names; in a schema that compiles such a word comes before it, so that a constructor may be
described by one assignment of words to names.  A few fields of octets are not shown as they are.
-/

namespace TypeLang.Direct

open Wire

/-! ## References -/

/-- What a reference stands for. -/
inductive Meaning where
  /-- A type that needs no schema. -/
  | primitive (name : String)
  /-- A tagged constructor. -/
  | tagged (choice : Choice)
  /-- A constructor without its tag. -/
  | bare (c : Constructor)
  /-- Nothing in this schema. -/
  | unknown
  deriving DecidableEq, Repr

/-- The meaning of a reference.  The built-in names come before those of the schema. -/
def meaning (s : Schema) (r : TypeRef) : Meaning :=
  if r.generic then .tagged .object
  else if (primitive? r.name).isSome then .primitive r.name
  else if r.name = Plan.objectName then .tagged .object
  else if r.bare then (s.bare? r.name).elim .unknown .bare
  else .tagged (.type r.name)

section

variable {s : Schema} {r : TypeRef}

lemma mem_of_meaning_bare {c : Constructor} (h : meaning s r = .bare c) : c ∈ s.constructors := by
  unfold meaning at h
  split_ifs at h
  cases hc : s.bare? r.name with
  | none => simp [hc] at h
  | some k =>
      simp only [hc, Option.elim_some, Meaning.bare.injEq] at h
      exact h ▸ Schema.mem_of_bare? hc

variable (boxed : Choice → Reader Value) (bare : Constructor → Reader Value)

/-- How a meaning is read, given how tagged constructors and bare ones are. -/
def readMeaning (name : String) : Meaning → Reader Value
  | .primitive p => (primitive? p).getD (Reader.fail (.unknownType p))
  | .tagged choice => boxed choice
  | .bare c => bare c
  | .unknown => Reader.fail (.unknownType name)

lemma named_eq : named s boxed bare r = readMeaning boxed bare r.name (meaning s r) := by
  unfold named meaning
  by_cases hgeneric : r.generic = true
  · rw [if_pos hgeneric, if_pos hgeneric]
    rfl
  · rw [if_neg hgeneric, if_neg hgeneric]
    cases hprimitive : primitive? r.name with
    | some read => simp [readMeaning, hprimitive]
    | none =>
        simp only [Option.isSome_none, Bool.false_eq_true, if_false]
        split_ifs
        · rfl
        · cases s.bare? r.name <;> rfl
        · rfl

lemma valueWith_named (vector : Bool → TypeExpr → Reader (List Value)) :
    valueWith s boxed bare vector (.named r) =
      readMeaning boxed bare r.name (meaning s r) :=
  named_eq boxed bare

lemma valueWith_vector (vector : Bool → TypeExpr → Reader (List Value)) {b : Bool}
    {elem : TypeExpr} (h : Plan.isEntry elem = false) :
    valueWith s boxed bare vector (.vector b elem) = do return .vector (← vector b elem) := by
  simp only [valueWith, h, Bool.false_eq_true, if_false]

end

/-! ## Gates -/

/-- Whether a field is there, when each flag word has the value that its name is assigned. -/
def isPresent (words : String → UInt32) (f : Field) : Bool :=
  f.gate.all fun bit => words bit.word &&& bit.mask != 0

/-- The names of the flag words up to a field, given those before it. -/
def wordsUpTo (names : List String) (f : Field) : List String :=
  if f.kind = .flagWord then names ++ [f.name] else names

/-- Every gate names a flag word among `names` or before it. -/
def Resolves (names : List String) : List Field → Prop
  | [] => True
  | f :: rest => (∀ bit ∈ f.gate, bit.word ∈ names) ∧ Resolves (wordsUpTo names f) rest

/-- Every gate of a schema names a flag word before it. -/
def GatesResolve (s : Schema) : Prop :=
  ∀ c ∈ s.constructors, Resolves [] c.fields

lemma Resolves.behind_word {named : Words} {f : Field} {rest : List Field}
    (h : Resolves (named.map (·.1)) (f :: rest)) (hkind : f.kind = .flagWord) (word : UInt32) :
    Resolves ((named ++ [(f.name, word)]).map (·.1)) rest := by
  have hrest := h.2
  rw [wordsUpTo, if_pos hkind] at hrest
  rwa [List.map_append]

lemma Resolves.behind_other {names : List String} {f : Field} {rest : List Field}
    (h : Resolves names (f :: rest)) (hkind : f.kind ≠ .flagWord) : Resolves names rest := by
  have hrest := h.2
  rwa [wordsUpTo, if_neg hkind] at hrest

lemma mem_of_gateOf {c : Constructor} {names : List String} {f : Field} {gate : Option Gate}
    (h : Plan.gateOf c names f = (.ok gate : Except Fault _)) :
    ∀ bit ∈ f.gate, bit.word ∈ names := by
  intro bit hbit
  unfold Plan.gateOf at h
  rw [Option.mem_def.1 hbit] at h
  by_contra hmem
  have hnone : names.idxOf? bit.word = none := List.idxOf?_eq_none_iff.2 hmem
  simp [hnone] at h

/-- The words behind a field are those before it, and its own name if it is one. -/
lemma names_of_fieldStep {s : Schema} {p : Plan} {c : Constructor} {names names' : List String}
    {f : Field} {st : FieldStep}
    (h : Plan.fieldStep (Plan.found s p) c names f = .ok (st, names')) :
    names' = wordsUpTo names f := by
  obtain ⟨gate, -, hst⟩ := Decoder.fieldStep_eq_ok h
  unfold wordsUpTo
  rcases hst with ⟨hkind, -, -, rfl⟩ | ⟨hkind, -, rfl⟩ | ⟨type, hkind, -, rfl⟩
  · rw [if_pos hkind]
  · rw [if_neg (by simp [hkind])]
  · rw [if_neg (by simp [hkind])]

lemma resolves_of_fieldSteps {s : Schema} {p : Plan} {c : Constructor} {names : List String}
    {fs : List Field} {steps : List FieldStep}
    (h : Plan.fieldSteps (Plan.found s p) c names fs = .ok steps) : Resolves names fs := by
  induction fs generalizing names steps with
  | nil => trivial
  | cons f rest ih =>
      obtain ⟨⟨st, names'⟩, hst, h⟩ := bind_eq_ok.1 h
      obtain ⟨more, hmore, -⟩ := bind_eq_ok.1 h
      obtain ⟨gate, hgate, -⟩ := Decoder.fieldStep_eq_ok hst
      exact ⟨mem_of_gateOf hgate, names_of_fieldStep hst ▸ ih hmore⟩

lemma gatesResolve_of_finished {s : Schema} {p : Plan} (hp : Plan.Finished s p) :
    GatesResolve s := by
  intro c hc
  obtain ⟨n, b, -, hb, -⟩ := hp.member ⟨c, hc⟩
  obtain ⟨steps, hsteps, -⟩ := bind_eq_ok.1 hb
  exact resolves_of_fieldSteps hsteps

/-- In the schema of a decoder every gate names a flag word before it. -/
lemma gatesResolve_of_ofSchema {b : Builder} {s : Schema} {limits : Limits} {d : Decoder}
    (hb : b.build = .ok s) (hd : Decoder.ofSchema s limits = .ok d) : GatesResolve s := by
  obtain ⟨p, hp, -⟩ := Decoder.ofSchema_eq_ok hd
  exact gatesResolve_of_finished (Plan.finished_of_compile (Schema.hasDistinctIds_of_build hb) hp)

/-- An assignment that gives each of the words so far its value. -/
def Agrees (words : String → UInt32) (named : Words) : Prop :=
  ∀ name ∈ named.map (·.1), named.lookup name = some (words name)

lemma agrees_nil (words : String → UInt32) : Agrees words [] :=
  fun _ h => absurd h List.not_mem_nil

lemma mem_iff_isSome_lookup {named : Words} {name : String} :
    name ∈ named.map (·.1) ↔ (named.lookup name).isSome := by
  rw [List.lookup_isSome_iff]
  simp

lemma agrees_lookup (named : Words) : Agrees (fun name => (named.lookup name).getD 0) named := by
  intro name hname
  obtain ⟨word, hword⟩ := Option.isSome_iff_exists.1 (mem_iff_isSome_lookup.1 hname)
  simp only [hword, Option.getD_some]

lemma Agrees.of_append {words : String → UInt32} {named more : Words}
    (h : Agrees words (named ++ more)) : Agrees words named := by
  intro name hname
  have hfound := mem_iff_isSome_lookup.1 hname
  have := h name (by simp only [List.map_append, List.mem_append]; exact .inl hname)
  rw [List.lookup_append, Option.or_of_isSome hfound] at this
  exact this

/-- The first word of a name is the assigned one. -/
lemma Agrees.eq_of_first {words : String → UInt32} {named : Words} {name : String} {word : UInt32}
    (h : Agrees words (named ++ [(name, word)])) (hfirst : name ∉ named.map (·.1)) :
    words name = word := by
  have hnone : named.lookup name = none := by
    rwa [mem_iff_isSome_lookup, Option.not_isSome_iff_eq_none] at hfirst
  have hlast := h name (by simp)
  rw [List.lookup_append, hnone] at hlast
  simpa using hlast.symm

/-- One word more, which need not be the assigned one if its name has been given before. -/
lemma Agrees.append {words : String → UInt32} {named : Words} (h : Agrees words named)
    {name : String} {word : UInt32} (hfirst : name ∉ named.map (·.1) → words name = word) :
    Agrees words (named ++ [(name, word)]) := by
  intro other hother
  rw [List.lookup_append]
  cases hfound : named.lookup other with
  | some found =>
      have hmem := mem_iff_isSome_lookup.2 (Option.isSome_iff_exists.2 ⟨found, hfound⟩)
      rw [Option.some_or, ← hfound, h other hmem]
  | none =>
      have hnot : other ∉ named.map (·.1) := by
        rw [mem_iff_isSome_lookup, hfound]
        simp
      obtain rfl : other = name := by simpa [hnot] using hother
      simp [hfirst hnot]

/-- Among words that agree, a gate that is resolved asks for the assigned value. -/
lemma isOpen_eq_isPresent {words : String → UInt32} {named : Words} (h : Agrees words named)
    {f : Field} (hresolves : ∀ bit ∈ f.gate, bit.word ∈ named.map (·.1)) :
    isOpen named f = isPresent words f := by
  unfold isOpen isPresent
  cases hgate : f.gate with
  | none => rfl
  | some bit =>
      have hword := h bit.word (hresolves bit hgate)
      simp only [Option.all_some, hword, Option.getD_some]

/-! ## Fields of octets -/

/-- Whether a field of octets is not shown as it is. -/
def isTreated (c : Constructor) (name : String) (type : TypeExpr) : Bool :=
  Plan.isOctets type && (name == "random_bytes" || name == "waveform" ||
    c.predicate == "photoStrippedSize" && name == "bytes")

lemma shown_of_untreated {c : Constructor} {name : String} {type : TypeExpr}
    (h : isTreated c name type = false) (minRandom : ℕ) (value : TypeExpr → Reader Value) :
    shown minRandom value c name type = do return some (name, ← value type) := by
  unfold shown
  unfold isTreated at h
  cases hoctets : Plan.isOctets type <;> simp_all

end TypeLang.Direct
