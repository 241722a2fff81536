import TypeLang.Proofs.Decoder.Resolution
import TypeLang.Proofs.Schema.Gates

/-!
# Schemas from sources compile

A schema from sources has been checked twice when it is built: each of its gates names a word before
it, and each of its references passes.  Unless a reference is hollow, the compiler has no more to
object to than a ninth flag word.  Types may refer to each other in any way, and the names of
arguments may repeat: neither the numbering of routines nor the search for words minds.
-/

namespace TypeLang

open Wire

namespace Plan

variable {s : Schema} {c : Constructor}

/-! ## Flag words -/

/-- The flag words among some fields. -/
def wordsAmong (fs : List Field) : List Field :=
  fs.filter fun f => f.kind = .flagWord

lemma length_wordsUpTo (names : List String) (f : Field) (rest : List Field) :
    (Direct.wordsUpTo names f).length + (wordsAmong rest).length =
      names.length + (wordsAmong (f :: rest)).length := by
  unfold Direct.wordsUpTo wordsAmong
  by_cases hkind : f.kind = .flagWord
  · simp only [hkind, if_true, List.filter_cons, decide_true, List.length_append,
      List.length_cons, List.length_nil]
    omega
  · simp [hkind]

/-- Fields with one word too many are obstructed at that word. -/
lemma obstructed_of_tooManyWords {names : List String} {fs : List Field}
    (hroom : names.length ≤ maxFlagWords)
    (hmany : maxFlagWords < names.length + (wordsAmong fs).length) :
    Obstructed s c names fs (.unsupported c.predicate (.tooManyFlagWords maxFlagWords)) := by
  induction fs generalizing names with
  | nil => exact absurd hmany (by simpa [wordsAmong] using hroom)
  | cons f rest ih =>
      by_cases hfull : f.kind = .flagWord ∧ names.length = maxFlagWords
      · exact .words hfull.1 hfull.2
      · refine .later (ih ?_ (by rwa [length_wordsUpTo]))
        unfold Direct.wordsUpTo
        split_ifs with hkind
        · have hfree : names.length ≠ maxFlagWords := fun h => hfull ⟨hkind, h⟩
          simp only [List.length_append, List.length_singleton]
          omega
        · exact hroom

/-- Where gates find their words and references are known, nothing else is in the way. -/
lemma tooManyWords_of_obstructed {names : List String} {fs : List Field} {fault : Fault}
    (hresolves : Direct.Resolves names fs)
    (hknown : ∀ f ∈ fs, ∀ type, f.kind = .value type → Direct.isKnown s type.leaf = true)
    (h : Obstructed s c names fs fault) :
    fault = .unsupported c.predicate (.tooManyFlagWords maxFlagWords) ∧
      maxFlagWords < names.length + (wordsAmong fs).length := by
  induction h with
  | @type names f rest type hkind hunknown =>
      simp [hknown f (List.mem_cons_self ..) type hkind] at hunknown
  | @gate names f rest bit hgate hword => exact absurd (hresolves.1 bit hgate) hword
  | @words names f rest hkind hfull =>
      refine ⟨rfl, ?_⟩
      simp only [wordsAmong, hkind, List.filter_cons, decide_true, if_true, List.length_cons]
      omega
  | @later names f rest fault _ ih =>
      rw [← length_wordsUpTo]
      exact ih hresolves.2 fun g hg => hknown g (List.mem_cons_of_mem _ hg)

end Plan

/-! ## Compiling -/

open Plan

variable {sources : List (List Char × Origin)} {s : Schema}

/-- Only a constructor with too many flag words is at fault. -/
lemma faulty_iff_of_sources (hb : (Builder.ofSources sources).build = .ok s)
    (hnames : ∀ r ∈ s.references, r.name ∉ TypeRef.valueless) (fault : Fault) :
    Faulty s fault ↔ ∃ c ∈ s.constructors, maxFlagWords < c.flagWords.length ∧
      fault = .unsupported c.predicate (.tooManyFlagWords maxFlagWords) := by
  have hknown : ∀ r ∈ s.references, Direct.isKnown s r = true := fun r hr =>
    (Schema.isKnown_or_hollow_of_references hb hr).resolve_right fun h => hnames r hr h.1
  have hlength : ∀ c : Constructor, c.flagWords.length = (wordsAmong c.fields).length :=
    fun c => List.length_map _
  constructor
  · rintro ⟨c, hc, hobstructed⟩
    obtain ⟨hfault, hmany⟩ := tooManyWords_of_obstructed (gatesResolve_of_sources hb c hc)
      (fun f hf type hkind => hknown _ (Schema.mem_references.2 ⟨c, hc, f, hf, type, hkind, rfl⟩))
      hobstructed
    exact ⟨c, hc, by simpa [hlength] using hmany, hfault⟩
  · rintro ⟨c, hc, hmany, rfl⟩
    exact ⟨c, hc, obstructed_of_tooManyWords (Nat.zero_le _) (by simpa [← hlength] using hmany)⟩

/-- **A schema from sources compiles unless a constructor has too many flag words.**  No reference
may go by a name that no value is read by; then no type is unknown and no gate without its word. -/
theorem Decoder.ofSchema_from_sources (limits : Limits)
    (hb : (Builder.ofSources sources).build = .ok s)
    (hnames : ∀ r ∈ s.references, r.name ∉ TypeRef.valueless) :
    ((∃ d, ofSchema s limits = .ok d) ↔
        ∀ c ∈ s.constructors, c.flagWords.length ≤ maxFlagWords) ∧
      ∀ fault, ofSchema s limits = .error fault → ∃ c ∈ s.constructors,
        maxFlagWords < c.flagWords.length ∧
          fault = .unsupported c.predicate (.tooManyFlagWords maxFlagWords) := by
  have hfaulty := faulty_iff_of_sources hb hnames
  constructor
  case left =>
    have hcompiles : (∃ d, ofSchema s limits = .ok d) ↔ ∃ p, compile s = .ok p := by
      constructor
      · rintro ⟨d, hd⟩
        obtain ⟨p, hp, -⟩ := ofSchema_eq_ok hd
        exact ⟨p, hp⟩
      · rintro ⟨p, hp⟩
        exact ⟨_, ofSchema_of_compile hp limits⟩
    rw [hcompiles, exists_compile_iff (Schema.hasDistinctIds_of_build hb)]
    constructor
    · intro hnone c hc
      by_contra hmany
      exact hnone _ ((hfaulty _).2 ⟨c, hc, not_le.1 hmany, rfl⟩)
    · intro hfew fault h
      obtain ⟨c, hc, hmany, -⟩ := (hfaulty fault).1 h
      exact absurd (hfew c hc) (not_le.2 hmany)
  case right =>
    intro fault h
    refine (hfaulty fault).1 (faulty_of_compile ?_)
    cases hcompile : compile s with
    | ok p => simp [ofSchema, hcompile, Except.map] at h
    | error other =>
        simp only [ofSchema, hcompile, Except.map, Except.error.injEq] at h
        rw [h]

/-! ### Types in a cycle, repeated names and nine words -/

/-- Nodes around nodes, with two words of one name and a word that is written as a number. -/
def cyclicSources : List (List Char × Origin) :=
  [("node#00000001 flags:# flags:# next:flags.0?Node kids:flags.1?Vector<Leaf> = Node;".toList,
      .api),
    ("leaf#00000002 mask:int back:mask.3?%Leaf node:Node = Leaf;".toList, .secret)]

/-- A constructor with nine flag words. -/
def crowdedSources : List (List Char × Origin) :=
  [("crowded#00000001 a:# b:# c:# d:# e:# f:# g:# h:# i:# x:i.0?int = Crowded;".toList, .api)]

/-- The number of flag words of each constructor of a builder, if it builds and its references go by
names that values are read by. -/
def wordCounts? (b : Builder) : Option (List (String × ℕ)) :=
  (b.build.toOption.filter fun s => ∀ r ∈ s.references, r.name ∉ TypeRef.valueless).map fun s =>
    s.constructors.map fun c => (c.predicate, c.flagWords.length)

lemma exists_of_wordCounts? {b : Builder} {counts : List (String × ℕ)}
    (h : wordCounts? b = some counts) :
    ∃ s, b.build = .ok s ∧ (∀ r ∈ s.references, r.name ∉ TypeRef.valueless) ∧
      s.constructors.map (fun c => (c.predicate, c.flagWords.length)) = counts := by
  obtain ⟨s, hs, hcounts⟩ := Option.map_eq_some_iff.1 h
  obtain ⟨hs, hnames⟩ := Option.filter_eq_some_iff.1 hs
  exact ⟨s, eq_ok_of_toOption hs, of_decide_eq_true hnames, hcounts⟩

theorem Decoder.ofSchema_cyclic_crowded :
    (∃ s d, (Builder.ofSources cyclicSources).build = .ok s ∧ ofSchema s {} = .ok d) ∧
      ∃ s, (Builder.ofSources crowdedSources).build = .ok s ∧
        ofSchema s {} = .error (.unsupported "crowded" (.tooManyFlagWords maxFlagWords)) := by
  constructor
  case left =>
    have hcounts : wordCounts? (Builder.ofSources cyclicSources) =
        some [("node", 2), ("leaf", 1)] := by
      decide +kernel
    obtain ⟨s, hs, hnames, hmap⟩ := exists_of_wordCounts? hcounts
    have hfew : ∀ c ∈ s.constructors, c.flagWords.length ≤ maxFlagWords := by
      intro c hc
      have hcount : (c.predicate, c.flagWords.length) ∈ [("node", 2), ("leaf", 1)] :=
        hmap ▸ List.mem_map_of_mem hc
      simp only [List.mem_cons, Prod.mk.injEq, List.not_mem_nil, or_false] at hcount
      unfold maxFlagWords
      omega
    obtain ⟨d, hd⟩ := (ofSchema_from_sources {} hs hnames).1.2 hfew
    exact ⟨s, d, hs, hd⟩
  case right =>
    have hcounts : wordCounts? (Builder.ofSources crowdedSources) = some [("crowded", 9)] := by
      decide +kernel
    obtain ⟨s, hs, hnames, hmap⟩ := exists_of_wordCounts? hcounts
    obtain ⟨k, hk, hcount⟩ := List.map_eq_singleton_iff.1 hmap
    obtain ⟨hpredicate, hlength⟩ := Prod.mk.inj hcount
    refine ⟨s, hs, ?_⟩
    cases hd : ofSchema s {} with
    | ok d =>
        have hfew := (ofSchema_from_sources {} hs hnames).1.1 ⟨d, hd⟩ k (by simp [hk])
        rw [hlength] at hfew
        exact absurd hfew (by decide)
    | error fault =>
        obtain ⟨c, hc, -, rfl⟩ := (ofSchema_from_sources {} hs hnames).2 fault hd
        rw [hk, List.mem_singleton] at hc
        rw [hc, hpredicate]

end TypeLang
