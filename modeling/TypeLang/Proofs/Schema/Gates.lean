import TypeLang.Proofs.Declaration.Printing
import TypeLang.Proofs.Decoder.Meaning
import TypeLang.Proofs.Schema.Indexes
import TypeLang.Proofs.Schema.Queue

/-!
# Gates name what precedes them

Three parts of the program look for the word of a gate.  The parser wants an argument of that name
before the gated one; the constructor turns an argument into a flag word if a later gate names it;
the compiler wants a flag word of that name before the gated field.  The second search joins the
first and the third: whatever the parser finds, the constructor has turned into a flag word, also
where several arguments share the name.

So in a schema that comes from sources alone every gate finds its word.  A declaration that was read
elsewhere may have any gates, which is why the additions are restricted here.
-/

namespace TypeLang

open Declaration

/-! ## Arguments -/

namespace Declaration

/-- Every gate of some arguments names one of the arguments before it, which may be `earlier`, and
which can hold bits. -/
def Scoped (earlier : List Arg) : List Arg → Prop
  | [] => True
  | arg :: later =>
    (∀ bit ∈ arg.type.gate?, ∃ a ∈ earlier, a.name = bit.word ∧ a.canGate = true) ∧
      Scoped (earlier ++ [arg]) later

lemma scoped_append {earlier first second : List Arg} :
    Scoped earlier (first ++ second) ↔
      Scoped earlier first ∧ Scoped (earlier ++ first) second := by
  induction first generalizing earlier with
  | nil => simp [Scoped]
  | cons arg rest ih => simp [Scoped, ih, and_assoc]

lemma gate_of_isScoped {vars : List String} {earlier : List Arg} {arg : Arg}
    (h : Combinator.isScoped vars earlier arg = true) :
    ∀ bit ∈ arg.type.gate?, ∃ a ∈ earlier, a.name = bit.word ∧ a.canGate = true := by
  obtain ⟨name, type⟩ := arg
  cases type with
  | flagWord => simp [ArgType.gate?]
  | value type gate =>
      intro bit hbit
      obtain rfl : gate = some bit := hbit
      simp only [Combinator.isScoped, Bool.and_eq_true, Option.all_some, List.any_eq_true,
        beq_iff_eq] at h
      exact h.2

lemma scoped_readArgs {vars vars' : List String} {earlier args : List Arg}
    {tokens : List (List Char)} (hearlier : Scoped [] earlier)
    (h : Combinator.readArgs vars earlier tokens = .ok (vars', args)) : Scoped [] args := by
  fun_induction Combinator.readArgs vars earlier tokens with
  | case1 vars earlier =>
      cases h
      exact hearlier
  | case2 vars earlier token rest name hread ih => exact ih hearlier h
  | case3 => cases h
  | case4 => cases h
  | case5 vars earlier token rest arg hread hscoped ih =>
      refine ih (scoped_append.2 ⟨hearlier, ?_, trivial⟩) h
      simpa using gate_of_isScoped hscoped
  | case6 => cases h

/-- The gates of a declaration that was read are scoped. -/
lemma scoped_read {text : List Char} {d : Combinator} (h : Combinator.read text = .ok d) :
    Scoped [] d.args := by
  obtain ⟨tokens, term, hfrom⟩ := Combinator.exists_readFrom h
  have hnone : Scoped [] [] := trivial
  exact scoped_readArgs hnone hfrom.args

/-- The declarations of a file are ones that were read, whatever section they stand in. -/
lemma exists_read_of_mem_itemsFrom {number : ℕ} {place : Section} {pending : List Char}
    {lines : List (List Char)} {item : Item} {d : Combinator}
    (hitem : item ∈ itemsFrom number place pending lines) (hd : item.outcome = .ok d) :
    ∃ text d', Combinator.read text = .ok d' ∧ d'.args = d.args := by
  fun_induction itemsFrom number place pending lines with
  | case1 => cases hitem
  | case2 number place pending raw rest line hempty ih => exact ih hitem
  | case3 number place pending raw rest line hempty place' hmark ih => exact ih hitem
  | case4 number place pending raw rest line hempty hmark pending' hends declaration hblank ih =>
      exact ih hitem
  | case5 number place pending raw rest line hempty hmark pending' hends declaration hfull ih =>
      rcases List.mem_cons.1 hitem with rfl | hlater
      · dsimp only at hd
        obtain ⟨d', hread, rfl⟩ := map_eq_ok.1 hd
        exact ⟨declaration, d', hread, rfl⟩
      · exact ih hlater
  | case6 number place pending raw rest line hempty hmark pending' hends ih => exact ih hitem

end Declaration

/-- What a source brings has arguments that were read. -/
lemma Addition.exists_read_of_mem_source {file : List Char} {origin : Origin} {e : Entry}
    (he : e ∈ (source file origin).entries) :
    ∃ text d, Combinator.read text = .ok d ∧ d.args = e.1.args := by
  rw [entries, List.mem_flatMap] at he
  obtain ⟨item, hitem, he⟩ := he
  cases houtcome : item.outcome with
  | error fault => simp [entriesOfItem, houtcome, Except.toOption] at he
  | ok d =>
      have hd : e.1 = d := by
        simp only [entriesOfItem, houtcome, Except.toOption, Option.elim_some, entriesOf] at he
        cases hplace : d.place <;> simp_all
      rw [hd]
      exact exists_read_of_mem_itemsFrom (List.takeWhile_subset _ hitem) houtcome

namespace Builder

/-- The builder that was given some sources, the first one first. -/
def ofSources (sources : List (List Char × Origin)) : Builder :=
  given (sources.map fun source => .source source.1 source.2)

/-- What a builder of sources queues has scoped gates. -/
lemma scoped_of_mem_queue {sources : List (List Char × Origin)} {e : Entry}
    (he : e ∈ (ofSources sources).queue) : Scoped [] e.1.args := by
  rw [ofSources, queue_given, Addition.queued, List.mem_flatMap] at he
  obtain ⟨a, ha, he⟩ := he
  obtain ⟨source, -, rfl⟩ := List.mem_map.1 ha
  obtain ⟨text, d, hread, hargs⟩ := Addition.exists_read_of_mem_source he
  exact hargs ▸ scoped_read hread

end Builder

/-! ## Fields -/

namespace Constructor

/-- A field keeps the name and the gate of its argument, and is a flag word if a later gate names
it. -/
lemma eq_of_fieldOf {arg : Arg} {later : List Arg} {f : Field} (h : fieldOf arg later = .ok f) :
    f.name = arg.name ∧ f.gate = arg.type.gate? ∧
      ((∃ a ∈ later, ∃ bit ∈ a.type.gate?, bit.word = arg.name) → f.kind = .flagWord) := by
  obtain ⟨name, type⟩ := arg
  cases type with
  | flagWord =>
      cases h
      exact ⟨rfl, rfl, fun _ => rfl⟩
  | value type gate =>
      simp only [fieldOf] at h
      split_ifs at h with hnamed
      · cases h
        exact ⟨rfl, rfl, fun _ => rfl⟩
      · obtain ⟨kind, -, rfl⟩ := map_eq_ok.1 h
        refine ⟨rfl, rfl, fun ⟨a, ha, bit, hbit, hword⟩ => absurd ?_ hnamed⟩
        refine List.any_eq_true.2 ⟨a, ha, ?_⟩
        rw [Option.mem_def.1 hbit]
        simpa using hword

/-- Fields of scoped arguments have their words before them, if those of the earlier arguments that
are named have become words. -/
lemma resolves_of_fieldsOf {earlier args : List Arg} {names : List String} {fields : List Field}
    (hscoped : Scoped earlier args) (h : fieldsOf args = .ok fields)
    (hnames : ∀ a ∈ earlier, (∃ k ∈ args, ∃ bit ∈ k.type.gate?, bit.word = a.name) →
      a.name ∈ names) : Direct.Resolves names fields := by
  induction args generalizing earlier names fields with
  | nil =>
      cases h
      trivial
  | cons arg later ih =>
      obtain ⟨f, hf, h⟩ := bind_eq_ok.1 h
      obtain ⟨rest, hrest, h⟩ := bind_eq_ok.1 h
      cases h
      obtain ⟨hname, hgate, hword⟩ := eq_of_fieldOf hf
      refine ⟨fun bit hbit => ?_, ih hscoped.2 hrest fun a ha hnamed => ?_⟩
      · rw [hgate] at hbit
        obtain ⟨a, ha, haname, -⟩ := hscoped.1 bit hbit
        rw [← haname]
        exact hnames a ha ⟨arg, List.mem_cons_self .., bit, hbit, haname.symm⟩
      · rcases List.mem_append.1 ha with hbefore | hlast
        · -- A word before the field is still one behind it.
          obtain ⟨k, hk, hbit⟩ := hnamed
          have hmem := hnames a hbefore ⟨k, List.mem_cons_of_mem _ hk, hbit⟩
          unfold Direct.wordsUpTo
          split_ifs
          · exact List.mem_append_left _ hmem
          · exact hmem
        · obtain rfl := List.mem_singleton.1 hlast
          rw [Direct.wordsUpTo, if_pos (hword hnamed), hname]
          exact List.mem_append_right _ (List.mem_singleton_self _)

end Constructor

/-! ## Schemas -/

/-- **In a schema from sources, every gate names a flag word before it.** -/
lemma gatesResolve_of_sources {sources : List (List Char × Origin)} {s : Schema}
    (hb : (Builder.ofSources sources).build = .ok s) : Direct.GatesResolve s := by
  intro c hc
  obtain ⟨cs, hcs, -, rfl⟩ := Builder.build_eq_ok.1 hb
  obtain ⟨e, he, hmakes⟩ := Builder.exists_makes_of_mem hcs (Schema.mem_of_mem_laid _ cs hc)
  exact Constructor.resolves_of_fieldsOf (Builder.scoped_of_mem_queue he)
    (Builder.fieldsOf_of_makes hmakes) fun a ha => absurd ha List.not_mem_nil

end TypeLang
