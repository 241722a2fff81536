import TypeLang.Proofs.Schema.Gates

/-!
# Which arguments become flag words

An argument becomes a flag word if it is written `#`, or if a later gate names it; any other one
keeps the shape of its type.  The parser accepts a gate only if an argument of its name before it
can hold bits.  Where one argument alone of a name can, the two searches find the same argument, so
that flag words are what is written `#` and the plain integers that gates name
(`kind_of_ofCombinator`).

The second search goes by names alone.  Where a name is used twice, an argument that cannot hold
bits becomes a flag word next to one that can (`namesake_becomes_flagWord`).
-/

namespace TypeLang

open Declaration

namespace Declaration

/-- Whether a gate of some arguments names an argument. -/
def Arg.IsNamedBy (arg : Arg) (others : List Arg) : Prop :=
  ∃ a ∈ others, ∃ bit ∈ a.type.gate?, bit.word = arg.name

instance (arg : Arg) (others : List Arg) : Decidable (arg.IsNamedBy others) :=
  inferInstanceAs (Decidable (∃ a ∈ others, ∃ bit ∈ a.type.gate?, bit.word = arg.name))

/-- What a later gate names can hold bits, or a namesake can. -/
lemma canGate_of_isNamedBy {before later : List Arg} {arg : Arg}
    (h : Scoped [] (before ++ arg :: later)) (hnamed : arg.IsNamedBy later) :
    arg.canGate = true ∨
      ∃ other ∈ before ++ later, other.name = arg.name ∧ other.canGate = true := by
  obtain ⟨a, ha, bit, hbit, hword⟩ := hnamed
  obtain ⟨between, after, rfl⟩ := List.append_of_mem ha
  have hsplit : before ++ arg :: (between ++ a :: after) =
      (before ++ arg :: between) ++ a :: after := by simp
  rw [hsplit, scoped_append] at h
  obtain ⟨other, hother, hname, hcan⟩ := h.2.1 bit hbit
  rw [hword] at hname
  have hcases : other = arg ∨ other ∈ before ++ (between ++ a :: after) := by
    simp only [List.nil_append, List.mem_append, List.mem_cons] at hother ⊢
    tauto
  rcases hcases with rfl | hmem
  · exact .inl hcan
  · exact .inr ⟨other, hmem, hname, hcan⟩

end Declaration

namespace Constructor

lemma valueKind_ne_flagWord {type : TypeTerm} {kind : FieldKind} (h : valueKind type = .ok kind) :
    kind ≠ .flagWord := by
  unfold valueKind at h
  split_ifs at h
  · cases h
    exact nofun
  · obtain ⟨t, -, rfl⟩ := map_eq_ok.1 h
    exact nofun

/-- An argument becomes a flag word, or keeps the shape of its type. -/
lemma kind_of_fieldOf {arg : Arg} {later : List Arg} {f : Field} (h : fieldOf arg later = .ok f) :
    (f.kind = .flagWord ↔ arg.isFlagWord = true ∨ arg.IsNamedBy later) ∧
      (f.kind ≠ .flagWord →
        ∃ type gate, arg.type = .value type gate ∧ valueKind type = .ok f.kind) := by
  obtain ⟨name, type⟩ := arg
  cases type with
  | flagWord =>
      cases h
      simp [Arg.isFlagWord]
  | value type gate =>
      have hnamed : (later.any fun a => a.type.gate?.any fun bit => bit.word == name) = true ↔
          Arg.IsNamedBy ⟨name, .value type gate⟩ later := by
        simp [Arg.IsNamedBy, Option.any_eq_true]
      simp only [fieldOf] at h
      split_ifs at h with hlater
      · cases h
        simp [hnamed.1 hlater]
      · obtain ⟨kind, hkind, rfl⟩ := map_eq_ok.1 h
        have hnot := mt hnamed.2 hlater
        exact ⟨by simp [valueKind_ne_flagWord hkind, Arg.isFlagWord, hnot],
          fun _ => ⟨type, gate, rfl, hkind⟩⟩

lemma getElem?_fieldsOf {before later : List Arg} {arg : Arg} {fields : List Field}
    (h : fieldsOf (before ++ arg :: later) = .ok fields) :
    ∃ f, fields[before.length]? = some f ∧ fieldOf arg later = .ok f := by
  induction before generalizing fields with
  | nil =>
      obtain ⟨f, hf, h⟩ := bind_eq_ok.1 h
      obtain ⟨rest, -, h⟩ := bind_eq_ok.1 h
      cases h
      exact ⟨f, rfl, hf⟩
  | cons first before ih =>
      obtain ⟨f, -, h⟩ := bind_eq_ok.1 h
      obtain ⟨rest, hrest, h⟩ := bind_eq_ok.1 h
      cases h
      exact ih hrest

/-- **What becomes a flag word.**  It is what is written `#` and what a later gate names; where no
other argument of the name can hold bits, the latter is a plain integer. -/
theorem kind_of_ofCombinator {text : List Char} {d : Combinator} {origin : Origin} {c : Constructor}
    (hread : Combinator.read text = .ok d) (hmake : ofCombinator d origin = .ok c)
    {before later : List Arg} {arg : Arg} (hargs : d.args = before ++ arg :: later) :
    ∃ f, c.fields[before.length]? = some f ∧ f.name = arg.name ∧ f.gate = arg.type.gate? ∧
      (f.kind = .flagWord ↔ arg.isFlagWord = true ∨ arg.IsNamedBy later) ∧
      (f.kind ≠ .flagWord →
        ∃ type gate, arg.type = .value type gate ∧ valueKind type = .ok f.kind) ∧
      ((∀ other ∈ before ++ later, other.name = arg.name → other.canGate = false) →
        (f.kind = .flagWord ↔
          arg.isFlagWord = true ∨ arg.canGate = true ∧ arg.IsNamedBy later)) := by
  obtain ⟨fields, hfields, rfl⟩ := map_eq_ok.1 hmake
  obtain ⟨f, hf, hfield⟩ := getElem?_fieldsOf (hargs ▸ hfields)
  obtain ⟨hname, hgate, -⟩ := eq_of_fieldOf hfield
  obtain ⟨hkind, hshape⟩ := kind_of_fieldOf hfield
  refine ⟨f, hf, hname, hgate, hkind, hshape, fun halone => ?_⟩
  have hcan (hnamed : arg.IsNamedBy later) : arg.canGate = true := by
    have hscoped : Scoped [] (before ++ arg :: later) := hargs ▸ scoped_read hread
    rcases canGate_of_isNamedBy hscoped hnamed with hcan | ⟨other, hmem, hother, hcan⟩
    · exact hcan
    · simp [halone other hmem hother] at hcan
  rw [hkind]
  exact or_congr_right ⟨fun hnamed => ⟨hcan hnamed, hnamed⟩, And.right⟩

section

/-- A flag word as old layers write it, and an integer that no gate names. -/
def oldText : List Char :=
  "old#00000001 flags:int n:int a:flags.0?string = Old".toList

theorem oldText_flagWord : ∃ d c f g, Combinator.read oldText = .ok d ∧
    ofCombinator d .api = .ok c ∧ c.fields[0]? = some f ∧ f.kind = .flagWord ∧
    c.fields[1]? = some g ∧ g.kind ≠ .flagWord := by
  let int : TypeTerm := .plain ⟨⟨[], "int"⟩, true, false⟩
  let flags : Arg := ⟨"flags", .value int none⟩
  let n : Arg := ⟨"n", .value int none⟩
  let a : Arg := ⟨"a", .value (.plain ⟨⟨[], "string"⟩, true, false⟩) (some ⟨"flags", 0⟩)⟩
  let d : Combinator :=
    ⟨⟨[], "old"⟩, 1, [flags, n, a], .plain ⟨⟨[], "Old"⟩, false, false⟩, .types⟩
  have hread : Combinator.read oldText = .ok d := by decide +kernel
  obtain ⟨c, hc⟩ := Option.isSome_iff_exists.1
    (by decide +kernel : (ofCombinator d .api).toOption.isSome)
  have hmake := eq_ok_of_toOption hc
  have hflags : d.args = [] ++ flags :: [n, a] := rfl
  have hn : d.args = [flags] ++ n :: [a] := rfl
  obtain ⟨f, hf, -, -, -, -, hword⟩ := kind_of_ofCombinator hread hmake hflags
  obtain ⟨g, hg, -, -, -, -, hother⟩ := kind_of_ofCombinator hread hmake hn
  refine ⟨d, c, f, g, hread, hmake, hf, (hword (by decide)).2 (.inr (by decide)), hg, ?_⟩
  exact mt (hother (by decide)).1 (by decide)

/-- A string and a flag word of one name. -/
def namesakeText : List Char :=
  "a#00000001 flags:string flags:# x:flags.0?int = A".toList

/-- The string becomes a flag word too. -/
theorem namesake_becomes_flagWord : ∃ d c arg, Combinator.read namesakeText = .ok d ∧
    ofCombinator d .api = .ok c ∧ d.args[0]? = some arg ∧ arg.isFlagWord = false ∧
    arg.type = .value (.plain ⟨⟨[], "string"⟩, true, false⟩) none ∧ arg.canGate = false ∧
    c.fields[0]? = some ⟨"flags", .flagWord, none⟩ := by
  let string : Arg := ⟨"flags", .value (.plain ⟨⟨[], "string"⟩, true, false⟩) none⟩
  let x : Arg := ⟨"x", .value (.plain ⟨⟨[], "int"⟩, true, false⟩) (some ⟨"flags", 0⟩)⟩
  let d : Combinator :=
    ⟨⟨[], "a"⟩, 1, [string, ⟨"flags", .flagWord⟩, x], .plain ⟨⟨[], "A"⟩, false, false⟩, .types⟩
  have hread : Combinator.read namesakeText = .ok d := by decide +kernel
  have hmake : ((ofCombinator d .api).toOption.bind (·.fields[0]?)) =
      some ⟨"flags", .flagWord, none⟩ := by decide +kernel
  obtain ⟨c, hc, hfield⟩ := Option.bind_eq_some_iff.1 hmake
  exact ⟨d, c, string, hread, eq_ok_of_toOption hc, rfl, by decide, rfl, by decide, hfield⟩

end

end Constructor

end TypeLang
