import Mathlib.Order.Filter.AtTopBot.Basic
import TypeLang.Proofs.Decoder.Soundness

/-!
# Nothing else has the type

Conformance decides what is read.  Octets that conform are read as the value that they conform to,
and up to their end, on all levels from some on: each case of the relation is one of a reader, which
takes one level more than its parts.  So at one place no two values have a type, whatever octets
are tried, and a decoder that reads something reads the only value that is there.

How many levels it takes is left open, since a decoder that has read something had enough of them
already.  Flag words are given to the relation all at once and to the reader one by one; a gate is
asked only for words that both know.
-/

namespace TypeLang.Direct

open Wire
open Filter (atTop)

variable {s : Schema} {limits : Limits}

/-! ## What conforms is read -/

/-- What holds one level further down holds from some level on. -/
lemma eventually_of_succ {p : ℕ → Prop} (h : ∀ᶠ n in atTop, p (n + 1)) : ∀ᶠ n in atTop, p n := by
  rwa [← Filter.map_add_atTop_eq_nat 1, Filter.eventually_map]

lemma reads_enveloped {α : Type} {r : Reader α} {limit : ℕ} {w octets w' : List UInt8} {a : α}
    (hopened : IsPacked limit octets w) (h : Reads r w' a) (hwithin : w' <+: octets) :
    Reads (do let octets ← Reader.opened limit; Reader.within octets r) w a := by
  have hread := reads_bind (f := fun octets => Reader.within octets r) (reads_opened hopened)
    (reads_within h hwithin)
  rwa [List.append_nil] at hread

mutual

lemma Conforms.reads (hs : s.HasDistinctIds) (hgates : GatesResolve s) {e : TypeExpr}
    {w : List UInt8} {v : Value} :
    Conforms s limits e w v → ∀ᶠ levels in atTop, Reads (value s limits levels e) w v
  | .primitive hr hv => by
      obtain ⟨read, hread, hreads⟩ := reads_primitive hv
      refine .of_forall fun levels => ?_
      rwa [value, valueWith_named, hr, readMeaning, hread, Option.getD_some]
  | .tagged hr hv => by
      filter_upwards [hv.reads hs hgates] with levels hreads
      rwa [value, valueWith_named, hr]
  | .bare hr hv => by
      filter_upwards [hv.reads hs hgates (mem_of_meaning_bare hr)] with levels hreads
      rwa [value, valueWith_named, hr]
  | .vector helem hrow => by
      refine eventually_of_succ ?_
      filter_upwards [hrow.reads hs hgates] with levels hreads
      rw [value, valueWith_vector _ _ _ helem, vector]
      exact reads_bind_pure hreads rfl
  | .entries helem hrow hentries => by
      refine eventually_of_succ ?_
      filter_upwards [hrow.reads hs hgates] with levels hreads
      rw [value, valueWith, if_pos helem, vector]
      refine reads_bind_pure hreads ?_
      rw [Decoder.objectOf, hentries]
      rfl

lemma Row.reads (hs : s.HasDistinctIds) (hgates : GatesResolve s) {b : Bool} {elem : TypeExpr}
    {w : List UInt8} {items : List Value} :
    Row s limits b elem w items → ∀ᶠ levels in atTop,
      Reads (vectorOf limits.maxInflated b (value s limits levels elem)) w items
  | .bare hcount helems => by
      filter_upwards [helems.reads hs hgates] with levels hreads
      exact reads_bind (reads_count hcount) hreads
  | .boxed hrow => by
      filter_upwards [hrow.reads hs hgates] with levels hreads
      refine reads_bind (reads_uint32 Tag.vector) ?_
      rw [if_pos rfl]
      exact hreads
  | .envelope hopened hwithin hrow => by
      filter_upwards [hrow.reads hs hgates] with levels hreads
      refine reads_bind (reads_uint32 Tag.gzipPacked) ?_
      rw [if_neg (by decide), if_pos rfl]
      refine reads_enveloped hopened (reads_bind (reads_uint32 Tag.vector) ?_) hwithin
      rw [if_pos rfl]
      exact hreads

lemma Elements.reads (hs : s.HasDistinctIds) (hgates : GatesResolve s) {elem : TypeExpr}
    {w : List UInt8} {items : List Value} :
    Elements s limits elem w items → ∀ᶠ levels in atTop,
      Reads (Reader.items (value s limits levels elem) items.length) w items
  | .nil => .of_forall fun _ => reads_pure []
  | .cons hv helems => by
      filter_upwards [hv.reads hs hgates, helems.reads hs hgates] with levels hreads hrest
      rw [List.length_cons, Reader.items_succ]
      exact reads_bind hreads (reads_bind_pure hrest rfl)

lemma Announced.reads (hs : s.HasDistinctIds) (hgates : GatesResolve s) {choice : Choice}
    {w : List UInt8} {v : Value} :
    Announced s limits choice w v → ∀ᶠ levels in atTop, Reads (boxed s limits levels choice) w v
  | .constructor hc hadmits hid hv => by
      refine eventually_of_succ ?_
      filter_upwards [hv.reads hs hgates hc] with levels hreads
      have hcandidate : choice.candidate? s _ = some _ :=
        Option.filter_eq_some_iff.2 ⟨hs.byId?_eq hc, hadmits⟩
      rw [boxed]
      refine reads_bind (reads_uint32 _) ?_
      rwa [if_neg hid, hcandidate]
  | .envelope hopened hwithin hv => by
      refine eventually_of_succ ?_
      filter_upwards [hv.reads hs hgates] with levels hreads
      rw [boxed]
      refine reads_bind (reads_uint32 _) ?_
      rw [if_pos rfl]
      exact reads_enveloped hopened hreads hwithin

lemma Built.reads (hs : s.HasDistinctIds) (hgates : GatesResolve s) {c : Constructor}
    {w : List UInt8} {v : Value} (hc : c ∈ s.constructors) :
    Built s limits c w v → ∀ᶠ levels in atTop, Reads (bare s limits levels c) w v
  | .record hform hfields => by
      refine eventually_of_succ ?_
      filter_upwards [hfields.reads hs hgates rfl (agrees_nil _) (hgates c hc)] with levels hreads
      refine reads_bind_pure hreads ?_
      rw [hform]
      rfl
  | .shaped hform hfields hv => by
      refine eventually_of_succ ?_
      filter_upwards [hfields.reads hs hgates rfl (agrees_nil _) (hgates c hc)] with levels hreads
      refine reads_bind_pure hreads ?_
      rw [hv]
      rfl

/-- The words that are read on the way are those of the assignment, as far as a gate asks for
them. -/
lemma Fields.reads (hs : s.HasDistinctIds) (hgates : GatesResolve s) {c : Constructor}
    {words : String → UInt32} {names : List String} {fs : List Field} {w : List UInt8}
    {entries : List (String × Value)} {named : Words} :
    Fields s limits c words names fs w entries → named.map (·.1) = names → Agrees words named →
      Resolves (named.map (·.1)) fs → ∀ᶠ levels in atTop,
        Reads (fields limits.minRandom (value s limits levels) c fs named) w entries
  | .nil, _, _, _ => .of_forall fun _ => reads_pure []
  | .absent (f := f) hgate hword hrest, hnames, hnamed, hfs => by
      have hopen : isOpen named f = false := by rw [isOpen_eq_isPresent hnamed hfs.1, hgate]
      simp only [fields, hopen, Bool.false_eq_true, if_false]
      by_cases hkind : f.kind = .flagWord
      · have hagrees := hnamed.append fun hfirst => hword hkind (hnames ▸ hfirst)
        rw [hkind]
        exact hrest.reads hs hgates (by simp [wordsUpTo, hkind, hnames]) hagrees
          (hfs.behind_word hkind 0)
      · have hread := hrest.reads hs hgates (by simp [wordsUpTo, hkind, hnames]) hnamed
          (hfs.behind_other hkind)
        cases hf : f.kind with
        | flagWord => exact absurd hf hkind
        | presence => exact hread
        | value type => exact hread
  | .flagWord (f := f) hgate hkind hword hrest, hnames, hnamed, hfs => by
      have hopen : isOpen named f = true := by rw [isOpen_eq_isPresent hnamed hfs.1, hgate]
      have hagrees := hnamed.append fun hfirst => hword (hnames ▸ hfirst)
      have hread := hrest.reads hs hgates (by simp [hnames]) hagrees (hfs.behind_word hkind _)
      simp only [fields, hopen, hkind, if_true]
      filter_upwards [hread] with levels hread
      exact reads_bind (reads_uint32 _) hread
  | .presence (f := f) hgate hkind hrest, hnames, hnamed, hfs => by
      have hopen : isOpen named f = true := by rw [isOpen_eq_isPresent hnamed hfs.1, hgate]
      have hbehind := hfs.behind_other (by simp [hkind])
      simp only [fields, hopen, hkind, if_true]
      filter_upwards [hrest.reads hs hgates hnames hnamed hbehind] with levels hread
      exact reads_bind_pure hread rfl
  | .treated (f := f) hgate hkind htreated hentry hrest, hnames, hnamed, hfs => by
      have hopen : isOpen named f = true := by rw [isOpen_eq_isPresent hnamed hfs.1, hgate]
      have hbehind := hfs.behind_other (by simp [hkind])
      simp only [fields, hopen, hkind, if_true]
      filter_upwards [hrest.reads hs hgates hnames hnamed hbehind] with levels hread
      exact reads_bind (reads_treated (isOctets_of_isTreated htreated) hentry)
        (reads_bind_pure hread rfl)
  | .value (f := f) hgate hkind htreated hv hrest, hnames, hnamed, hfs => by
      have hopen : isOpen named f = true := by rw [isOpen_eq_isPresent hnamed hfs.1, hgate]
      have hbehind := hfs.behind_other (by simp [hkind])
      simp only [fields, hopen, hkind, if_true, shown_of_untreated htreated, bind_assoc, pure_bind]
      filter_upwards [hv.reads hs hgates, hrest.reads hs hgates hnames hnamed hbehind]
        with levels hreads hread
      exact reads_bind hreads (reads_bind_pure hread rfl)

end

/-! ## Only one value conforms -/

/-- At one place one value has a type, and takes the same octets however it is read. -/
theorem Answers.unique (hs : s.HasDistinctIds) (hgates : GatesResolve s)
    {request : Decoder.Request} {c : Cursor} {w w' : List UInt8} {v v' : Value}
    (h : Answers s limits w v request) (h' : Answers s limits w' v' request) (hw : c.Holds w)
    (hw' : c.Holds w') : w = w' ∧ v = v' := by
  cases request with
  | object =>
      obtain ⟨levels, hread, hread'⟩ := ((h.reads hs hgates).and (h'.reads hs hgates)).exists
      exact hread.unique hread' hw hw'
  | type text =>
      obtain ⟨e, he, hv⟩ := h
      obtain ⟨e', he', hv'⟩ := h'
      obtain rfl : e = e' := Except.ok.inj (he.symm.trans he')
      obtain ⟨levels, hread, hread'⟩ := ((hv.reads hs hgates).and (hv'.reads hs hgates)).exists
      exact hread.unique hread' hw hw'

/-- **What a decoder reads has the type that it was asked for**, by the octets that it consumes, and
nothing else that comes next there has it. -/
theorem answer_conforms {b : Builder} {d : Decoder} (hb : b.build = .ok s)
    (hd : Decoder.ofSchema s limits = .ok d) {request : Decoder.Request} {c after : Cursor}
    {v : Value} (h : d.answer request c = .done v after) :
    ∃ (n : ℕ) (hn : n ≤ c.remaining), after = c.advance n hn ∧
      Answers s limits (c.next n) v request ∧
        ∀ w v', c.Holds w → Answers s limits w v' request → w = c.next n ∧ v' = v := by
  obtain ⟨n, hn, hafter, hanswers⟩ := yields_answer hb hd request c after v h
  have hs := Schema.hasDistinctIds_of_build hb
  have hgates := gatesResolve_of_ofSchema hb hd
  refine ⟨n, hn, hafter, hanswers, fun w v' hw hother => ?_⟩
  exact hother.unique hs hgates hanswers hw (c.holds_next n)

theorem envelopedText_conforms : ∃ s d v after, Decoder.richText.build = .ok s ∧
    Decoder.ofSchema s {} = .ok d ∧
      d.answer .object (Cursor.start envelopedText) = .done v after ∧
        ∃ n hn, after = (Cursor.start envelopedText).advance n hn ∧
          Answers s {} ((Cursor.start envelopedText).next n) v .object ∧
            ∀ w v', (Cursor.start envelopedText).Holds w → Answers s {} w v' .object →
              w = (Cursor.start envelopedText).next n ∧ v' = v := by
  obtain ⟨s, d, v, after, hs, hd, hread⟩ := exists_envelopedText
  exact ⟨s, d, v, after, hs, hd, hread, answer_conforms hs hd hread⟩

end TypeLang.Direct
