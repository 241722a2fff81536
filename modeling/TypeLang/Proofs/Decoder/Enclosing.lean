import TypeLang.Proofs.Decoder.Depth
import TypeLang.Proofs.Json.Keyed

/-!
# What a reading that succeeds encloses

When something is read, everything that opens on the way is read with it: the constructor behind a
tag, the value of a field, the elements of a vector, the content of an envelope.  `Encloses` follows
the sites from an outer one inwards and counts the layers that they add to the value, and
`exists_read_of_encloses` says that each of them has been read.  So what a reading makes sure of
where a site opens holds of all sites that it encloses.
-/

namespace TypeLang.Direct

open Wire

/-! ## Reading a site -/

namespace Site

/-- The layers that a site adds to what opens in it.  A tag adds none, and neither does an
envelope. -/
def layers : Site → ℕ
  | constructor _ | vector _ _ => 1
  | tag _ _ | row _ => 0

/-- Reads what opens, within some levels; of a vector, its elements. -/
def read (s : Schema) (limits : Limits) (n : ℕ) : Site → Reader Value
  | tag _ choice => boxed s limits n choice
  | constructor c => bare s limits n c
  | vector b elem => do return .vector (← Direct.vector s limits n b elem)
  | row elem => do
    return .vector (← Reader.afterVectorTag (Reader.bareVector (value s limits n elem)))

end Site

variable {s : Schema} {limits : Limits} {n : ℕ} {c cursor after : Cursor} {v : Value}

/-- A value is what is read of the site that opens with it, or the JSON object of its elements. -/
def Shows (v w : Value) : Prop :=
  v = w ∨ ∃ items, w = .vector items ∧ Decoder.objectOf items = .ok v

lemma value_of_entryOf? {e : String × Value} (h : Decoder.entryOf? v = some e) :
    ∃ predicate fields, v = .record predicate fields ∧ ("value", e.2) ∈ fields := by
  unfold Decoder.entryOf? at h
  split at h
  case h_2 => cases h
  case h_1 key value _ hvalue =>
    cases h
    cases v with
    | record predicate fields =>
        obtain ⟨before, behind, rfl, -⟩ := List.lookup_eq_some_iff.1 hvalue
        exact ⟨predicate, _, rfl, by simp⟩
    | _ => cases hvalue

lemma exists_of_mapM_entryOf? {items : List Value} {entries : List (String × Value)}
    (h : items.mapM Decoder.entryOf? = some entries) {e : String × Value} (he : e ∈ entries) :
    ∃ v ∈ items, Decoder.entryOf? v = some e := by
  induction items generalizing entries with
  | nil =>
      cases h
      cases he
  | cons v rest ih =>
      simp only [List.mapM_cons, Option.bind_eq_bind, Option.bind_eq_some_iff] at h
      obtain ⟨first, hfirst, more, hmore, hpure⟩ := h
      cases hpure
      rcases List.mem_cons.1 he with rfl | he
      · exact ⟨v, List.mem_cons_self, hfirst⟩
      · obtain ⟨w, hw, hentry⟩ := ih hmore he
        exact ⟨w, List.mem_cons_of_mem _ hw, hentry⟩

/-- The values of a JSON object are fields of records. -/
lemma entries_of_objectOf {items : List Value} (h : Decoder.objectOf items = .ok v) :
    ∃ entries, v = .map entries ∧ ∀ e ∈ entries, ∃ predicate fields,
      Value.record predicate fields ∈ items ∧ ("value", e.2) ∈ fields := by
  unfold Decoder.objectOf at h
  cases hentries : items.mapM Decoder.entryOf? with
  | none => simp [hentries] at h
  | some entries =>
      simp only [hentries, Except.ok.injEq] at h
      refine ⟨_, h.symm, fun e he => ?_⟩
      obtain he | he := mem_insertKeys he
      · obtain ⟨w, hw, hentry⟩ := exists_of_mapM_entryOf? hentries he
        obtain ⟨predicate, fields, rfl, hvalue⟩ := value_of_entryOf? hentry
        exact ⟨predicate, fields, hw, hvalue⟩
      · cases he

lemma read_of_value {e : TypeExpr} {site : Site} (hsite : siteOf? s e = some site)
    (h : value s limits n e cursor = .done v after) :
    ∃ w, site.read s limits n cursor = .done w after ∧ Shows v w := by
  unfold value at h
  cases e with
  | named r =>
      rw [siteOf?_named] at hsite
      rw [valueWith_named] at h
      cases hmeaning : meaning s r <;> rw [hmeaning] at h hsite <;> cases hsite
      · exact ⟨v, h, .inl rfl⟩
      · exact ⟨v, h, .inl rfl⟩
  | vector b elem =>
      cases hsite
      simp only [valueWith] at h
      split_ifs at h with hentry
      · obtain ⟨items, m, hitems, h⟩ := Reader.bind_eq_done.1 h
        obtain ⟨hobject, rfl⟩ := Reader.ofExcept_eq_done.1 h
        exact ⟨.vector items, Reader.bind_eq_done.2 ⟨items, _, hitems, rfl⟩,
          .inr ⟨items, rfl, hobject⟩⟩
      · obtain ⟨items, m, hitems, h⟩ := Reader.bind_eq_done.1 h
        cases h
        exact ⟨_, Reader.bind_eq_done.2 ⟨items, _, hitems, rfl⟩, .inl rfl⟩

/-- What has been read was not too deep. -/
lemma not_isDeep_of_read {site : Site} (h : site.read s limits n cursor = .done v after)
    (limit offset : ℕ) : ¬site.IsDeep s limits limit n cursor offset := by
  have hnot : ∀ {α : Type} {r : Reader α} {a : α}, r cursor = .done a after →
      ¬Deep limit r cursor offset := by
    rintro α r a hdone ⟨stop, hfailed⟩
    cases hdone.symm.trans hfailed
  cases site with
  | tag packed choice => exact hnot h
  | constructor c => exact hnot h
  | vector b elem =>
      obtain ⟨items, m, hitems, hpure⟩ := Reader.bind_eq_done.1 h
      cases hpure
      exact hnot hitems
  | row elem =>
      obtain ⟨items, m, hitems, hpure⟩ := Reader.bind_eq_done.1 h
      cases hpure
      exact hnot hitems

/-- What has been read took the levels that its site takes. -/
lemma levels_le_of_read {site : Site} (h : site.read s limits n cursor = .done v after) :
    site.levels ≤ n := by
  by_contra hlt
  obtain ⟨offset, hdeep⟩ : ∃ offset, site.IsDeep s limits limits.maxDepth n cursor offset :=
    exists_isDeep_of_lt (not_le.1 hlt)
  exact not_isDeep_of_read h _ _ hdeep

/-! ## One site inside another -/

/-- A field that begins in fields that are read is read with them. -/
lemma read_of_fieldBegins {read : TypeExpr → Reader Value} {c : Constructor} {fs : List Field}
    {words : Words} {entries : List (String × Value)} {type : TypeExpr} {start : Cursor}
    (hbegins : FieldBegins limits read c fs words cursor type start)
    (h : fields limits.minRandom read c fs words cursor = .done entries after) :
    ∃ w m, read type start = .done w m := by
  induction hbegins generalizing entries after with
  | @here f rest words cursor type hopen hkind huntreated =>
      rw [fields_cons] at h
      obtain ⟨⟨kept, words'⟩, m, hf, -⟩ := Reader.bind_eq_done.1 h
      simp only [field, hopen, if_true, hkind, shown_of_untreated huntreated, bind_assoc] at hf
      obtain ⟨w, m', hw, -⟩ := Reader.bind_eq_done.1 hf
      exact ⟨w, m', hw⟩
  | later hf _ ih =>
      rw [fields_cons, Reader.bind_of_done hf] at h
      obtain ⟨more, m, hmore, -⟩ := Reader.bind_eq_done.1 h
      exact ih hmore

/-- An item that begins in a row that is read is read with it. -/
lemma read_of_items {α : Type} {r : Reader α} {i k : ℕ} (hi : i < k) {as bs : List α}
    {start : Cursor} (has : Reader.items r i cursor = .done as start)
    (h : Reader.items r k cursor = .done bs after) : ∃ a m, r start = .done a m := by
  induction k generalizing i cursor after as bs with
  | zero => exact absurd hi (Nat.not_lt_zero i)
  | succ k ih =>
      rw [Reader.items_succ] at h
      obtain ⟨a, m, ha, h⟩ := Reader.bind_eq_done.1 h
      cases i with
      | zero =>
          cases has
          exact ⟨a, m, ha⟩
      | succ i =>
          rw [Reader.items_succ, Reader.bind_of_done ha] at has
          obtain ⟨more, m', hmore, hpure⟩ := Reader.bind_eq_done.1 has
          cases hpure
          obtain ⟨others, m'', hothers, -⟩ := Reader.bind_eq_done.1 h
          exact ih (Nat.lt_of_succ_lt_succ hi) hmore hothers

/-- An element that begins in a bare vector that is read is read with it. -/
lemma read_of_elementBegins {α : Type} {r : Reader α} {as : List α} {start : Cursor}
    (hbegins : ElementBegins r cursor start)
    (h : Reader.bareVector r cursor = .done as after) : ∃ a m, r start = .done a m := by
  obtain ⟨count, first, hcount, i, hi, before, hbefore⟩ := hbegins
  rw [Reader.bareVector, Reader.bind_of_done hcount] at h
  exact read_of_items hi hbefore h

lemma read_of_within {α : Type} {r : Reader α} {octets : List UInt8} {a : α}
    (h : Reader.within octets r cursor = .done a after) :
    ∃ m, r (Cursor.start octets) = .done a m := by
  unfold Reader.within at h
  cases hinner : r (Cursor.start octets) with
  | failed fault stop => rw [hinner] at h; cases h
  | done b m =>
      rw [hinner] at h
      cases h
      exact ⟨m, rfl⟩

/-- The value of a field or an element is read where the site is that opens with it. -/
lemma read_of_valueRead {e : TypeExpr} {site : Site} (hsite : siteOf? s e = some site)
    (h : ∃ v after, value s limits n e cursor = .done v after) :
    ∃ w m, site.read s limits n cursor = .done w m := by
  obtain ⟨v, after, h⟩ := h
  obtain ⟨w, hw, -⟩ := read_of_value hsite h
  exact ⟨w, after, hw⟩

/-- What opens in a site that is read is read with it, within the levels that are left. -/
lemma read_of_opens {site inner : Site} {start : Cursor} {k : ℕ}
    (hopens : Opens s limits (value s limits k) site cursor inner start)
    (h : site.read s limits (n + site.levels) cursor = .done v after) :
    ∃ w m, inner.read s limits n start = .done w m := by
  have hopens : Opens s limits (value s limits n) site cursor inner start :=
    (opens_or_isDeep hopens n).resolve_right fun ⟨_, hdeep⟩ => not_isDeep_of_read h _ _ hdeep
  cases hopens with
  | @announced packed choice _ tag _ c htag hopen hc =>
      have h : boxed s limits (n + 1) choice cursor = .done v after := h
      rw [boxed, announced, Reader.bind_of_done htag, if_neg hopen] at h
      simp only [hc] at h
      exact ⟨v, after, h⟩
  | @enveloped packed choice _ octets hunpacks =>
      have h : boxed s limits (n + 1) choice cursor = .done v after := h
      obtain ⟨mark, last, htag, hopened⟩ := hunpacks
      rw [boxed, announced, Reader.bind_of_done htag, if_pos rfl, Reader.bind_of_done hopened] at h
      obtain ⟨m, hm⟩ := read_of_within h
      exact ⟨v, m, hm⟩
  | @field c _ type _ _ hbegins hsite =>
      have h : bare s limits (n + 1) c cursor = .done v after := h
      obtain ⟨entries, m, hentries, -⟩ := Reader.bind_eq_done.1 h
      exact read_of_valueRead hsite (read_of_fieldBegins hbegins hentries)
  | element hbegins hsite =>
      obtain ⟨items, m, hitems, -⟩ := Reader.bind_eq_done.1 h
      exact read_of_valueRead hsite (read_of_elementBegins hbegins hitems)
  | @boxedElement elem _ _ _ _ htag hbegins hsite =>
      obtain ⟨items, m, hitems, -⟩ := Reader.bind_eq_done.1 h
      have hitems : Reader.boxedVector limits.maxInflated (value s limits n elem) cursor =
          .done items m := hitems
      rw [Reader.boxedVector, Reader.bind_of_done htag, if_pos rfl] at hitems
      exact read_of_valueRead hsite (read_of_elementBegins hbegins hitems)
  | @packedRow elem _ octets hunpacks =>
      obtain ⟨items, m, hitems, -⟩ := Reader.bind_eq_done.1 h
      have hitems : Reader.boxedVector limits.maxInflated (value s limits n elem) cursor =
          .done items m := hitems
      obtain ⟨mark, last, htag, hopened⟩ := hunpacks
      have hother : ¬Tag.gzipPacked = Tag.vector := by decide
      rw [Reader.boxedVector, Reader.bind_of_done htag, if_neg hother, if_pos rfl,
        Reader.bind_of_done hopened] at hitems
      obtain ⟨m', hm'⟩ := read_of_within hitems
      exact ⟨.vector items, m', Reader.bind_eq_done.2 ⟨items, m', hm', rfl⟩⟩
  | rowElement htag hbegins hsite =>
      obtain ⟨items, m, hitems, -⟩ := Reader.bind_eq_done.1 h
      rw [Reader.afterVectorTag, Reader.bind_of_done htag, if_pos rfl] at hitems
      exact read_of_valueRead hsite (read_of_elementBegins hbegins hitems)

/-! ## Sites inwards -/

variable (s limits) in
/-- From a site that opens at a cursor inwards, others open one in the other up to the last one,
and those passed on the way add `layers` layers.  What lies before a site may be read within any
levels. -/
inductive Encloses : Site → Cursor → (layers : ℕ) → (last : Site) → (start : Cursor) → Prop
  | here (site : Site) (c : Cursor) : Encloses site c 0 site c
  | inside {site inner last c start layers at_} (k : ℕ)
      (hopens : Opens s limits (value s limits k) site c inner start)
      (hinner : Encloses inner start layers last at_) :
      Encloses site c (site.layers + layers) last at_

/-- What a site that is read encloses is read with it. -/
lemma read_of_encloses {site last : Site} {start : Cursor} {layers : ℕ}
    (hencloses : Encloses s limits site cursor layers last start)
    (h : site.read s limits n cursor = .done v after) :
    ∃ m w stop, last.read s limits m start = .done w stop := by
  induction hencloses generalizing n v after with
  | here site c => exact ⟨n, v, after, h⟩
  | inside k hopens _ ih =>
      obtain ⟨m, rfl⟩ := Nat.exists_eq_add_of_le' (levels_le_of_read h)
      obtain ⟨w, stop, hw⟩ := read_of_opens hopens h
      exact ih hw

/-- What is asked for is read where the site is that opens first, or it is a value of a type with
which nothing opens. -/
lemma read_of_answer {b : Builder} {d : Decoder} (hb : b.build = .ok s)
    (hd : Decoder.ofSchema s limits = .ok d) {request : Decoder.Request}
    (h : d.answer request cursor = .done v after) :
    (∃ site w, opensFirst? s request = some site ∧
        site.read s limits limits.maxDepth cursor = .done w after ∧ Shows v w) ∨
      ∃ e, opensFirst? s request = none ∧ siteOf? s e = none ∧
        value s limits limits.maxDepth e cursor = .done v after := by
  obtain ⟨hobject, htype⟩ := Decoder.eq_direct_of_build hb hd
  cases request with
  | object =>
      have h : d.readObject cursor = .done v after := h
      rw [hobject] at h
      exact .inl ⟨_, v, rfl, h, .inl rfl⟩
  | type text =>
      have h : d.readType text cursor = .done v after := h
      rw [htype, readType] at h
      unfold opensFirst?
      cases hread : TypeExpr.read text.toList with
      | error fault => rw [hread] at h; cases h
      | ok e =>
          simp only [hread] at h ⊢
          by_cases hknown : isKnown s e.leaf = true
          · rw [if_pos hknown] at h ⊢
            cases hsite : siteOf? s e with
            | none => exact .inr ⟨e, rfl, hsite, h⟩
            | some site =>
                obtain ⟨w, hw, hshows⟩ := read_of_value hsite h
                exact .inl ⟨site, w, rfl, hw, hshows⟩
          · rw [if_neg hknown] at h
            cases h

end TypeLang.Direct
