import TypeLang.Proofs.Decoder.Nesting
import TypeLang.Proofs.Schema.Queue

/-!
# When the levels run out

Reading a site within some levels is deep exactly where a nested site is, read within the levels
that are then left (`isDeep_step`).  So by induction on the levels, whatever is deep has sites
nested in it that take one level more than there are; and by induction on the nesting, wherever
sites nest that take more levels than there are, reading is deep, in these sites or before them.

What lies before a site is read within as many levels as it takes to read it.  Fewer levels either
read it alike or run out in it.
-/

namespace TypeLang.Direct

open Wire

variable {s : Schema} {limits : Limits} {limit offset n : ℕ} {cursor : Cursor}

/-! ## One level -/

/-- Reading a site within some levels stops at `offset` because something lies too deep there. -/
def Site.IsDeep (s : Schema) (limits : Limits) (limit n : ℕ) :
    Site → Cursor → (offset : ℕ) → Prop
  | tag _ choice => Deep limit (boxed s limits n choice)
  | constructor c => Deep limit (bare s limits n c)
  | vector b elem => Deep limit (Direct.vector s limits n b elem)
  | row elem => Deep limit (Reader.afterVectorTag (Reader.bareVector (value s limits n elem)))

lemma levels_of_siteOf? {e : TypeExpr} {site : Site} (h : siteOf? s e = some site) :
    site.levels = 1 := by
  cases e with
  | named r =>
      rw [siteOf?_named] at h
      cases hmeaning : meaning s r <;> rw [hmeaning] at h <;> cases h <;> rfl
  | vector b elem =>
      cases h
      rfl

/-- Without any level, a site is deep where it begins. -/
lemma isDeep_zero {site : Site} (h : site.levels = 1) :
    site.IsDeep s limits limit 0 cursor offset ↔ limit = limits.maxDepth ∧ offset = cursor.pos := by
  have htooDeep : ∀ {α : Type}, Deep limit (Decoder.tooDeep limits : Reader α) cursor offset ↔
      limit = limits.maxDepth ∧ offset = cursor.pos := by
    intro α
    constructor
    · rintro ⟨stop, h⟩
      cases h
      exact ⟨rfl, rfl⟩
    · rintro ⟨rfl, rfl⟩
      exact ⟨cursor, rfl⟩
  cases site with
  | tag packed choice => exact htooDeep
  | constructor c => exact htooDeep
  | vector b elem => exact htooDeep
  | row elem => cases h

/-- A value is deep where the site is that opens with it. -/
lemma deep_value {e : TypeExpr} : Deep limit (value s limits n e) cursor offset ↔
    ∃ site, siteOf? s e = some site ∧ site.IsDeep s limits limit n cursor offset := by
  unfold value
  cases e with
  | named r =>
      rw [valueWith_named, siteOf?_named]
      cases meaning s r with
      | tagged choice => simp [readMeaning, Meaning.site?, Site.IsDeep]
      | bare c => simp [readMeaning, Meaning.site?, Site.IsDeep]
      | unknown =>
          refine iff_of_false (shallow_fail ?_ _ _ _) (by simp [Meaning.site?])
          exact fun _ _ h => nomatch h
      | primitive name =>
          refine iff_of_false ?_ (by simp [Meaning.site?])
          simp only [readMeaning]
          cases hread : primitive? name with
          | none => exact shallow_fail (fun _ _ h => Fault.noConfusion h) _ _ _
          | some read => exact shallow_primitive hread _ _ _
  | vector b elem =>
      simp only [siteOf?_vector, Option.some.injEq, exists_eq_left', Site.IsDeep, valueWith]
      split_ifs
      · exact deep_bind_shallow fun _ => shallow_objectOf _
      · exact deep_bind_shallow fun _ => shallow_pure _

/-- Elements of a bare vector are deep where the sites are that open with them. -/
lemma deep_elements {elem : TypeExpr} :
    Deep limit (Reader.bareVector (value s limits n elem)) cursor offset ↔
      ∃ start site, ElementBegins (value s limits n elem) cursor start ∧
        siteOf? s elem = some site ∧ site.IsDeep s limits limit n start offset := by
  rw [deep_bareVector]
  refine exists_congr fun start => ?_
  rw [deep_value]
  simp only [← exists_and_left]

/-- A site that opens in another is deep, within as many levels as are left. -/
def Site.IsDeepInside (s : Schema) (limits : Limits) (limit n : ℕ) (site : Site) (cursor : Cursor)
    (offset : ℕ) : Prop :=
  ∃ inner start, Opens s limits (value s limits n) site cursor inner start ∧
    inner.IsDeep s limits limit n start offset

lemma deep_boxed {choice : Choice} (packed : Bool) :
    Deep limit (boxed s limits (n + 1) choice) cursor offset ↔
      (Site.tag packed choice).IsDeepInside s limits limit n cursor offset := by
  show Deep limit (announced s limits.maxInflated choice (bare s limits n)
    (boxed s limits n choice)) cursor offset ↔ _
  rw [deep_announced]
  constructor
  · rintro (⟨tag, after, c, htag, hopen, hc, hdeep⟩ | ⟨octets, hunpacks, hdeep⟩)
    · exact ⟨.constructor c, after, .announced htag hopen hc, hdeep⟩
    · exact ⟨.tag true choice, .start octets, .enveloped hunpacks, hdeep⟩
  · rintro ⟨inner, start, hopens, hdeep⟩
    cases hopens with
    | announced htag hopen hc => exact .inl ⟨_, _, _, htag, hopen, hc, hdeep⟩
    | enveloped hunpacks => exact .inr ⟨_, hunpacks, hdeep⟩

lemma deep_bare {c : Constructor} : Deep limit (bare s limits (n + 1) c) cursor offset ↔
    (Site.constructor c).IsDeepInside s limits limit n cursor offset := by
  show Deep limit (construct limits.minRandom (value s limits n) c) cursor offset ↔ _
  rw [deep_construct, deep_fields]
  constructor
  · rintro ⟨type, start, hbegins, hdeep⟩
    obtain ⟨inner, hsite, hdeep⟩ := deep_value.1 hdeep
    exact ⟨inner, start, .field hbegins hsite, hdeep⟩
  · rintro ⟨inner, start, hopens, hdeep⟩
    cases hopens with
    | field hbegins hsite =>
        exact ⟨_, start, hbegins, deep_value.2 ⟨inner, hsite, hdeep⟩⟩

lemma deep_row {elem : TypeExpr} :
    Deep limit (Reader.afterVectorTag (Reader.bareVector (value s limits n elem))) cursor offset ↔
      (Site.row elem).IsDeepInside s limits limit n cursor offset := by
  rw [deep_afterVectorTag]
  constructor
  · rintro ⟨after, htag, hdeep⟩
    obtain ⟨start, inner, hbegins, hsite, hdeep⟩ := deep_elements.1 hdeep
    exact ⟨inner, start, .rowElement htag hbegins hsite, hdeep⟩
  · rintro ⟨inner, start, hopens, hdeep⟩
    cases hopens with
    | rowElement htag hbegins hsite =>
        exact ⟨_, htag, deep_elements.2 ⟨start, inner, hbegins, hsite, hdeep⟩⟩

lemma deep_vector {b : Bool} {elem : TypeExpr} :
    Deep limit (vector s limits (n + 1) b elem) cursor offset ↔
      (Site.vector b elem).IsDeepInside s limits limit n cursor offset := by
  cases b with
  | false =>
      show Deep limit (Reader.bareVector (value s limits n elem)) cursor offset ↔ _
      rw [deep_elements]
      constructor
      · rintro ⟨start, inner, hbegins, hsite, hdeep⟩
        exact ⟨inner, start, .element hbegins hsite, hdeep⟩
      · rintro ⟨inner, start, hopens, hdeep⟩
        cases hopens with
        | element hbegins hsite => exact ⟨start, inner, hbegins, hsite, hdeep⟩
  | true =>
      show Deep limit (Reader.boxedVector limits.maxInflated (value s limits n elem)) cursor offset
        ↔ _
      rw [deep_boxedVector, deep_afterVectorTag]
      constructor
      · rintro (⟨after, htag, hdeep⟩ | ⟨octets, hunpacks, hdeep⟩)
        · obtain ⟨start, inner, hbegins, hsite, hdeep⟩ := deep_elements.1 hdeep
          exact ⟨inner, start, .boxedElement htag hbegins hsite, hdeep⟩
        · exact ⟨.row elem, .start octets, .packedRow hunpacks, hdeep⟩
      · rintro ⟨inner, start, hopens, hdeep⟩
        cases hopens with
        | boxedElement htag hbegins hsite =>
            exact .inl ⟨_, htag, deep_elements.2 ⟨start, inner, hbegins, hsite, hdeep⟩⟩
        | packedRow hunpacks => exact .inr ⟨_, hunpacks, hdeep⟩

/-- A site is deep where one is that opens in it, within the levels that are left. -/
lemma isDeep_step (site : Site) : site.IsDeep s limits limit (n + site.levels) cursor offset ↔
    site.IsDeepInside s limits limit n cursor offset := by
  cases site with
  | tag packed choice => exact deep_boxed packed
  | constructor c => exact deep_bare
  | vector b elem => exact deep_vector
  | row elem => exact deep_row

/-! ## From levels to nesting -/

/-- A row takes no level, so what is deep in it is deep in an element, within as many levels. -/
lemma exists_opens_of_row {elem : TypeExpr}
    (h : (Site.row elem).IsDeep s limits limit n cursor offset) :
    ∃ inner start, Opens s limits (value s limits n) (.row elem) cursor inner start ∧
      inner.levels = 1 ∧ inner.IsDeep s limits limit n start offset := by
  obtain ⟨inner, start, hopens, hdeep⟩ := (isDeep_step (.row elem)).1 h
  refine ⟨inner, start, hopens, ?_, hdeep⟩
  cases hopens with
  | rowElement htag hbegins hsite => exact levels_of_siteOf? hsite

lemma levels_eq_one_or_row (site : Site) : site.levels = 1 ∨ ∃ elem, site = .row elem := by
  cases site with
  | row elem => exact .inr ⟨elem, rfl⟩
  | _ => exact .inl rfl

/-- In a site, others nest that take one level more than `n`, the last of them at `offset`. -/
def Exhausts (s : Schema) (limits : Limits) (limit n : ℕ) (site : Site) (cursor : Cursor)
    (offset : ℕ) : Prop :=
  limit = limits.maxDepth ∧ ∃ counted, Nests s limits site cursor (n + 1) counted offset

lemma Exhausts.inside {site inner : Site} {start : Cursor} {k : ℕ}
    (h : Exhausts s limits limit n inner start offset)
    (hopens : Opens s limits (value s limits k) site cursor inner start) :
    Exhausts s limits limit (site.levels + n) site cursor offset := by
  obtain ⟨hlimit, counted, hnests⟩ := h
  exact ⟨hlimit, _, .inside k hopens hnests⟩

/-- A row adds nothing to what its elements take, so it is enough to know of other sites. -/
lemma exhausts_of_others
    (hother : ∀ {site : Site} {cursor}, site.levels = 1 →
      site.IsDeep s limits limit n cursor offset → Exhausts s limits limit n site cursor offset)
    {site : Site} (h : site.IsDeep s limits limit n cursor offset) :
    Exhausts s limits limit n site cursor offset := by
  rcases levels_eq_one_or_row site with hlevels | ⟨elem, rfl⟩
  · exact hother hlevels h
  · obtain ⟨inner, start, hopens, hlevels, hdeep⟩ := exists_opens_of_row h
    have hinside := (hother hlevels hdeep).inside hopens
    rwa [show (Site.row elem).levels = 0 from rfl, Nat.zero_add] at hinside

/-- In what is deep, sites nest that take one level more than there are. -/
lemma exhausts_of_isDeep {site : Site} (h : site.IsDeep s limits limit n cursor offset) :
    Exhausts s limits limit n site cursor offset := by
  induction n generalizing site cursor with
  | zero =>
      refine exhausts_of_others (fun {site cursor} hlevels h => ?_) h
      obtain ⟨hlimit, rfl⟩ := (isDeep_zero hlevels).1 h
      have hhere : Nests s limits site cursor site.levels site.counted cursor.pos :=
        .here site cursor
      rw [hlevels] at hhere
      exact ⟨hlimit, _, hhere⟩
  | succ n ih =>
      refine exhausts_of_others (fun {site cursor} hlevels h => ?_) h
      rw [← hlevels] at h
      obtain ⟨inner, start, hopens, hdeep⟩ := (isDeep_step site).1 h
      have hinside := (ih hdeep).inside hopens
      rwa [hlevels, Nat.add_comm] at hinside

/-! ## What lies before a site -/

/-- Readers, one for each number of levels, that read alike unless they run out of levels. -/
def Levelled {α : Type} (limits : Limits) (r : ℕ → Reader α) : Prop :=
  ∀ ⦃m n⦄, m ≤ n → Unless (Decoder.TooDeep limits) (r m) (r n)

/-- What is read within some levels is read within any others, or is too deep for them. -/
lemma Levelled.done_or_deep {α : Type} {r : ℕ → Reader α} (h : Levelled limits r) {k : ℕ} {a : α}
    {after : Cursor} (hdone : r k cursor = .done a after) (n : ℕ) :
    r n cursor = .done a after ∨ ∃ offset, Deep limits.maxDepth (r n) cursor offset := by
  rcases le_total k n with hle | hle
  · rcases h hle cursor with hsame | ⟨fault, stop, hfailed, -⟩
    · exact .inl (hsame.symm.trans hdone)
    · rw [hdone] at hfailed
      cases hfailed
  · rcases h hle cursor with hsame | ⟨fault, stop, hfailed, offset, rfl⟩
    · exact .inl (hsame.trans hdone)
    · exact .inr ⟨offset, stop, hfailed⟩

/-- Within the same limits, levels are the only thing that readings differ in. -/
lemma congruence_levels (limits : Limits) :
    Congruence (fun _ => Unless (Decoder.TooDeep limits)) limits limits :=
  Decoder.congruence_unless (.refl _) (.refl _) fun _ h => h

lemma levelled_field (c : Constructor) (f : Field) (words : Words) :
    Levelled limits fun n => field limits.minRandom (value s limits n) c f words :=
  fun _ _ hle => (congruence_levels limits).directField
    (fun e => (congruence_levels limits).directValueOn s hle e) c f words

lemma levelled_items (elem : TypeExpr) (i : ℕ) :
    Levelled limits fun n => Reader.items (value s limits n elem) i :=
  fun _ _ hle => (congruence_levels limits).items
    ((congruence_levels limits).directValueOn s hle elem) i

lemma fieldBegins_or_deep {k : ℕ} {c : Constructor} {fs : List Field} {words : Words}
    {type : TypeExpr} {start : Cursor}
    (h : FieldBegins limits (value s limits k) c fs words cursor type start) (n : ℕ) :
    FieldBegins limits (value s limits n) c fs words cursor type start ∨
      ∃ offset, Deep limits.maxDepth (fields limits.minRandom (value s limits n) c fs words)
        cursor offset := by
  induction h with
  | here hopen hkind huntreated => exact .inl (.here hopen hkind huntreated)
  | @later f rest words words' cursor after kept type start hf _ ih =>
      rcases (levelled_field c f words).done_or_deep hf n with hf | ⟨offset, hdeep⟩
      · rcases ih with hbegins | ⟨offset, hdeep⟩
        · exact .inl (.later hf hbegins)
        · refine .inr ⟨offset, ?_⟩
          rw [fields_cons, deep_bind]
          exact .inr ⟨_, _, hf, (deep_bind_shallow fun _ => shallow_pure _).2 hdeep⟩
      · refine .inr ⟨offset, ?_⟩
        rw [fields_cons, deep_bind]
        exact .inl hdeep

lemma elementBegins_or_deep {k : ℕ} {elem : TypeExpr} {start : Cursor}
    (h : ElementBegins (value s limits k elem) cursor start) (n : ℕ) :
    ElementBegins (value s limits n elem) cursor start ∨
      ∃ offset, Deep limits.maxDepth (Reader.bareVector (value s limits n elem)) cursor offset := by
  obtain ⟨count, first, hcount, i, hi, as, has⟩ := h
  rcases (levelled_items elem i).done_or_deep has n with has | ⟨offset, hdeep⟩
  · exact .inl ⟨count, first, hcount, i, hi, as, has⟩
  · -- An element before this one is too deep, and so the whole row.
    obtain ⟨j, hj, as, after, has, hdeep⟩ := (deep_items i).1 hdeep
    exact .inr ⟨offset, deep_bareVector.2
      ⟨after, ⟨count, first, hcount, j, hj.trans hi, as, has⟩, hdeep⟩⟩

/-- Within any levels a site opens in another, or what lies before it is too deep for them. -/
lemma opens_or_isDeep {k : ℕ} {site inner : Site} {start : Cursor}
    (h : Opens s limits (value s limits k) site cursor inner start) (n : ℕ) :
    Opens s limits (value s limits n) site cursor inner start ∨
      ∃ offset, site.IsDeep s limits limits.maxDepth (n + site.levels) cursor offset := by
  cases h with
  | announced htag hopen hc => exact .inl (.announced htag hopen hc)
  | enveloped hunpacks => exact .inl (.enveloped hunpacks)
  | packedRow hunpacks => exact .inl (.packedRow hunpacks)
  | field hbegins hsite =>
      rcases fieldBegins_or_deep hbegins n with hbegins | ⟨offset, hdeep⟩
      · exact .inl (.field hbegins hsite)
      · exact .inr ⟨offset, deep_construct.2 hdeep⟩
  | element hbegins hsite =>
      rcases elementBegins_or_deep hbegins n with hbegins | hdeep
      · exact .inl (.element hbegins hsite)
      · exact .inr hdeep
  | boxedElement htag hbegins hsite =>
      rcases elementBegins_or_deep hbegins n with hbegins | ⟨offset, hdeep⟩
      · exact .inl (.boxedElement htag hbegins hsite)
      · exact .inr ⟨offset, deep_boxedVector.2 (.inl (deep_afterVectorTag.2 ⟨_, htag, hdeep⟩))⟩
  | rowElement htag hbegins hsite =>
      rcases elementBegins_or_deep hbegins n with hbegins | ⟨offset, hdeep⟩
      · exact .inl (.rowElement htag hbegins hsite)
      · exact .inr ⟨offset, deep_afterVectorTag.2 ⟨_, htag, hdeep⟩⟩

/-! ## From nesting to levels -/

/-- A site that has no level to take is deep. -/
lemma exists_isDeep_of_lt {site : Site} (h : n < site.levels) :
    ∃ offset, site.IsDeep s limits limits.maxDepth n cursor offset := by
  rcases levels_eq_one_or_row site with hlevels | ⟨elem, rfl⟩
  · obtain rfl : n = 0 := by omega
    exact ⟨_, (isDeep_zero hlevels).2 ⟨rfl, rfl⟩⟩
  · exact absurd h (Nat.not_lt_zero n)

/-- Where sites nest that take more levels than there are, reading is deep. -/
lemma isDeep_of_nests {site : Site} {levels counted : ℕ}
    (h : Nests s limits site cursor levels counted offset) (hn : n < levels) :
    ∃ offset, site.IsDeep s limits limits.maxDepth n cursor offset := by
  induction h generalizing n with
  | here site cursor => exact exists_isDeep_of_lt hn
  | @inside site inner cursor start levels counted offset k hopens _ ih =>
      by_cases hlevels : n < site.levels
      · exact exists_isDeep_of_lt hlevels
      · obtain ⟨m, rfl⟩ := Nat.exists_eq_add_of_le' (not_lt.1 hlevels)
        rcases opens_or_isDeep hopens m with hopens | hdeep
        · obtain ⟨offset, hdeep⟩ := ih (show m < levels by omega)
          exact ⟨offset, (isDeep_step site).2 ⟨inner, start, hopens, hdeep⟩⟩
        · exact hdeep

/-! ## Levels and what is counted -/

/-- Only a tag is not counted, and what opens behind it is. -/
lemma levels_le_of_nests {site : Site} {levels counted : ℕ}
    (h : Nests s limits site cursor levels counted offset) :
    levels + site.counted ≤ 2 * counted + 1 := by
  have hone : ∀ site : Site, site.levels ≤ 1 := by
    intro site
    cases site <;> simp [Site.levels]
  induction h with
  | here site cursor =>
      have := hone site
      omega
  | @inside site inner cursor start levels counted offset k hopens _ ih =>
      have := hone site
      by_cases hcounted : site.counted = 1
      · omega
      · have hinner : inner.counted = 1 := by
          cases hopens with
          | announced => rfl
          | enveloped => rfl
          | _ => exact absurd rfl hcounted
        omega

/-- Only the envelope of a vector takes no level, and what opens in it does. -/
lemma counted_le_of_nests {site : Site} {levels counted : ℕ}
    (h : Nests s limits site cursor levels counted offset) :
    counted + site.levels ≤ 2 * levels + 1 := by
  have hone : ∀ site : Site, site.counted ≤ 1 := by
    intro site
    rcases site with ⟨_ | _, _⟩ | _ | _ | _ <;> simp [Site.counted]
  induction h with
  | here site cursor =>
      have := hone site
      omega
  | @inside site inner cursor start levels counted offset k hopens _ ih =>
      have := hone site
      rcases levels_eq_one_or_row site with hlevels | ⟨elem, rfl⟩
      · omega
      · have hinner : inner.levels = 1 := by
          cases hopens with
          | rowElement htag hbegins hsite => exact levels_of_siteOf? hsite
        omega

/-! ## Requests -/

/-- What opens first when something is asked for. -/
def opensFirst? (s : Schema) : Decoder.Request → Option Site
  | .object => some (.tag false .standalone)
  | .type text =>
    match TypeExpr.read text.toList with
    | .ok e => if isKnown s e.leaf then siteOf? s e else none
    | .error _ => none

lemma deep_answer {b : Builder} {d : Decoder} (hb : b.build = .ok s)
    (hd : Decoder.ofSchema s limits = .ok d) (request : Decoder.Request) :
    Deep limit (d.answer request) cursor offset ↔
      ∃ site ∈ opensFirst? s request, site.IsDeep s limits limit limits.maxDepth cursor offset := by
  obtain ⟨hobject, htype⟩ := Decoder.eq_direct_of_build hb hd
  cases request with
  | object =>
      show Deep limit d.readObject cursor offset ↔ _
      rw [hobject]
      simp [opensFirst?, Site.IsDeep, readObject]
  | type text =>
      show Deep limit (d.readType text) cursor offset ↔ _
      rw [htype]
      unfold readType
      cases hread : TypeExpr.read text.toList with
      | error fault =>
          refine iff_of_false (shallow_fail ?_ _ _ _) (by simp [opensFirst?, hread])
          exact fun _ _ h => nomatch h
      | ok e =>
          simp only [opensFirst?, hread]
          split_ifs
          · exact deep_value
          · refine iff_of_false (shallow_fail ?_ _ _ _) (by simp)
            exact fun _ _ h => nomatch h

lemma levels_of_opensFirst? {request : Decoder.Request} {site : Site}
    (h : site ∈ opensFirst? s request) : site.levels = 1 := by
  cases request with
  | object =>
      cases h
      rfl
  | type text =>
      unfold opensFirst? at h
      cases hread : TypeExpr.read text.toList with
      | error fault => simp [hread] at h
      | ok e =>
          simp only [hread, Option.mem_def, Option.ite_none_right_eq_some] at h
          exact levels_of_siteOf? h.2

/-- How the limit on levels bears on what is read from a cursor, where `first?` opens first. -/
structure LimitsNesting (s : Schema) (limits : Limits) (first? : Option Site) (r : Reader Value)
    (cursor : Cursor) : Prop where
  refuses : (∃ limit offset, Deep limit r cursor offset) ↔ ∃ site ∈ first?,
    ∃ levels counted offset, Nests s limits site cursor levels counted offset ∧
      limits.maxDepth < levels
  /-- A fault tells the limit, and the place of the first level that is not there. -/
  reports : ∀ {limit offset}, Deep limit r cursor offset → limit = limits.maxDepth ∧
    ∃ site ∈ first?, ∃ counted, Nests s limits site cursor (limits.maxDepth + 1) counted offset
  /-- Constructors, vectors and envelopes may nest to just below half of the limit, -/
  spares : (∀ site ∈ first?, ∀ levels counted offset,
      Nests s limits site cursor levels counted offset → 2 * counted < limits.maxDepth) →
    ∀ limit offset, ¬Deep limit r cursor offset
  /-- and not beyond its double. -/
  cuts : ∀ site ∈ first?, ∀ {levels counted offset},
    Nests s limits site cursor levels counted offset → 2 * limits.maxDepth < counted →
      ∃ offset, Deep limits.maxDepth r cursor offset

/-- **Reading is refused for its depth exactly where sites nest that take more levels than there
are.**  A tag and the constructor behind it take a level each, the envelope around a vector none. -/
theorem answer_limitsNesting {b : Builder} {d : Decoder} (hb : b.build = .ok s)
    (hd : Decoder.ofSchema s limits = .ok d) (request : Decoder.Request) (cursor : Cursor) :
    LimitsNesting s limits (opensFirst? s request) (d.answer request) cursor := by
  have hreports : ∀ {limit offset}, Deep limit (d.answer request) cursor offset →
      limit = limits.maxDepth ∧ ∃ site ∈ opensFirst? s request, ∃ counted,
        Nests s limits site cursor (limits.maxDepth + 1) counted offset := by
    intro limit offset hdeep
    obtain ⟨site, hsite, hdeep⟩ := (deep_answer hb hd request).1 hdeep
    obtain ⟨hlimit, counted, hnests⟩ := exhausts_of_isDeep hdeep
    exact ⟨hlimit, site, hsite, counted, hnests⟩
  have hrefuses : ∀ site ∈ opensFirst? s request, ∀ {levels counted offset},
      Nests s limits site cursor levels counted offset → limits.maxDepth < levels →
        ∃ offset, Deep limits.maxDepth (d.answer request) cursor offset := by
    intro site hsite levels counted offset hnests hlevels
    obtain ⟨offset, hdeep⟩ := isDeep_of_nests hnests hlevels
    exact ⟨offset, (deep_answer hb hd request).2 ⟨site, hsite, hdeep⟩⟩
  constructor
  case refuses =>
    constructor
    · rintro ⟨limit, offset, hdeep⟩
      obtain ⟨-, site, hsite, counted, hnests⟩ := hreports hdeep
      exact ⟨site, hsite, _, counted, offset, hnests, Nat.lt_succ_self _⟩
    · rintro ⟨site, hsite, levels, counted, offset, hnests, hlevels⟩
      exact ⟨_, hrefuses site hsite hnests hlevels⟩
  case reports => exact hreports
  case spares =>
    intro hfew limit offset hdeep
    obtain ⟨-, site, hsite, counted, hnests⟩ := hreports hdeep
    have := hfew site hsite _ _ _ hnests
    have := levels_le_of_nests hnests
    omega
  case cuts =>
    intro site hsite levels counted offset hnests hmany
    have := counted_le_of_nests hnests
    have := levels_of_opensFirst? hsite
    exact hrefuses site hsite hnests (by omega)

/-! ### A constructor without fields, and a row in an envelope -/

/-- The constructor of `loneBuilder`. -/
def lone : Constructor :=
  ⟨"a", 1, "A", [], true⟩

/-- A single constructor without fields. -/
def loneBuilder : Builder :=
  .given [.source "a#00000001 = A;".toList .api]

lemma exists_lone : ∃ s d, loneBuilder.build = .ok s ∧
    Decoder.ofSchema s { maxDepth := 1 } = .ok d ∧
      opensFirst? s (.type "A") = some (.tag false (.type "A")) ∧
        (Choice.type "A").candidate? s 1 = some lone := by
  have hparts : (loneBuilder.build.toOption.bind fun s =>
      (Decoder.ofSchema s { maxDepth := 1 }).toOption.map fun _ =>
        (opensFirst? s (.type "A"), (Choice.type "A").candidate? s 1)) =
          some (some (.tag false (.type "A")), some lone) := by
    decide +kernel
  obtain ⟨s, hs, hparts⟩ := Option.bind_eq_some_iff.1 hparts
  obtain ⟨d, hd, hparts⟩ := Option.map_eq_some_iff.1 hparts
  obtain ⟨hfirst, hcandidate⟩ := Prod.mk.inj hparts
  exact ⟨s, d, eq_ok_of_toOption hs, eq_ok_of_toOption hd, hfirst, hcandidate⟩

/-- The wire of that constructor. -/
def loneWire : Cursor :=
  .start [1, 0, 0, 0]

lemma uint32_loneWire : ∃ after, Reader.uint32 loneWire = .done 1 after ∧ after.pos = 4 :=
  ⟨_, rfl, rfl⟩

theorem lone_limitsNesting : ∃ s d, loneBuilder.build = .ok s ∧
    Decoder.ofSchema s { maxDepth := 1 } = .ok d ∧
      ∃ limit offset, Deep limit (d.answer (.type "A")) loneWire offset := by
  obtain ⟨s, d, hs, hd, hfirst, hcandidate⟩ := exists_lone
  refine ⟨s, d, hs, hd, (answer_limitsNesting hs hd (.type "A") loneWire).refuses.2 ?_⟩
  obtain ⟨after, htag, -⟩ := uint32_loneWire
  have hopens : Opens s { maxDepth := 1 } (value s { maxDepth := 1 } 0)
      (.tag false (.type "A")) loneWire (.constructor lone) after :=
    .announced htag (by decide) hcandidate
  exact ⟨_, hfirst, 2, 1, _, .inside 0 hopens (.here _ _), by decide⟩

/-- All that nests on that wire is the constructor behind its tag. -/
lemma counted_le_of_loneWire (hcandidate : (Choice.type "A").candidate? s 1 = some lone)
    {levels counted : ℕ}
    (h : Nests s limits (.tag false (.type "A")) loneWire levels counted offset) :
    counted ≤ 1 := by
  obtain ⟨first, hfirst, -⟩ := uint32_loneWire
  cases h with
  | here => exact Nat.zero_le 1
  | inside k hopens hinner =>
      cases hopens with
      | enveloped hunpacks =>
          obtain ⟨mark, after, htag, -⟩ := hunpacks
          rw [hfirst] at htag
          cases htag
      | announced htag hopen hc =>
          rw [hfirst] at htag
          cases htag
          obtain rfl := Option.some.inj (hcandidate.symm.trans hc)
          cases hinner with
          | here => exact le_refl 1
          | inside k hopens _ =>
              cases hopens with
              | field hbegins hsite => cases hbegins

lemma unpacks_packedRow :
    ∃ octets, Unpacks Decoder.narrow.maxInflated Decoder.packedRow octets := by
  have hopened : ((do
      let tag ← Reader.uint32
      let octets ← Reader.opened Decoder.narrow.maxInflated
      return (tag, octets) : Reader _) Decoder.packedRow).done?.map (·.1.1) =
        some Tag.gzipPacked := by
    decide +kernel
  obtain ⟨⟨⟨tag, octets⟩, last⟩, hread, rfl⟩ := Option.map_eq_some_iff.1 hopened
  obtain ⟨tag', mark, htag, hread⟩ := Reader.bind_eq_done.1 (Outcome.done?_eq_some.1 hread)
  obtain ⟨octets', after, hoctets, hpure⟩ := Reader.bind_eq_done.1 hread
  cases hpure
  exact ⟨_, mark, _, htag, hoctets⟩

/-- One constructor behind its tag is refused within one level, though nothing else is open; and a
row in an envelope is not, though both are. -/
theorem levels_differ_from_counted :
    (∃ s d, loneBuilder.build = .ok s ∧ Decoder.ofSchema s { maxDepth := 1 } = .ok d ∧
      (∀ site ∈ opensFirst? s (.type "A"), ∀ levels counted offset,
        Nests s { maxDepth := 1 } site loneWire levels counted offset → counted ≤ 1) ∧
          Deep 1 (d.answer (.type "A")) loneWire 4) ∧
      ∃ s d v after, Builder.empty.build = .ok s ∧ Decoder.ofSchema s Decoder.narrow = .ok d ∧
        Decoder.narrow.maxDepth = 1 ∧
          (∃ site ∈ opensFirst? s (.type "Vector<string>"), ∃ levels offset,
            Nests s Decoder.narrow site Decoder.packedRow levels 2 offset) ∧
              d.answer (.type "Vector<string>") Decoder.packedRow = .done v after := by
  constructor
  case left =>
    obtain ⟨s, d, hs, hd, hfirst, hcandidate⟩ := exists_lone
    obtain ⟨after, htag, hpos⟩ := uint32_loneWire
    refine ⟨s, d, hs, hd, ?_, ?_⟩
    · intro site hsite levels counted offset hnests
      obtain rfl := Option.some.inj (hfirst.symm.trans hsite)
      exact counted_le_of_loneWire hcandidate hnests
    · refine (deep_answer hs hd _).2 ⟨_, hfirst, (isDeep_step (.tag false _)).2 ?_⟩
      refine ⟨.constructor lone, after, .announced htag (by decide) hcandidate, ?_⟩
      exact (isDeep_zero rfl).2 ⟨rfl, hpos.symm⟩
  case right =>
    obtain ⟨s, d, v, after, hs, hd, hread⟩ := Decoder.exists_packedRow
    obtain ⟨octets, hunpacks⟩ := unpacks_packedRow
    have hfirst : opensFirst? s (.type "Vector<string>") =
        some (.vector true (.named ⟨"string", true, false⟩)) := by
      have htype : TypeExpr.read "Vector<string>".toList =
          .ok (.vector true (.named ⟨"string", true, false⟩)) :=
        eq_ok_of_toOption (by decide +kernel)
      simp only [opensFirst?, htype]
      rfl
    have hnests : Nests s Decoder.narrow (.vector true (.named ⟨"string", true, false⟩))
        Decoder.packedRow 1 2 0 :=
      .inside 0 (.packedRow hunpacks) (.here _ _)
    exact ⟨s, d, v, after, hs, hd, rfl, ⟨_, hfirst, 1, 0, hnests⟩, hread⟩

end TypeLang.Direct
