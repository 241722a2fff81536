import TypeLang.Proofs.Decoder.Enclosing
import TypeLang.Proofs.Decoder.Soundness
import TypeLang.Proofs.Value.Layers

/-!
# Layers of what is read

A value is built up along the sites that are read for it.  A constructor and a vector add one layer
to what opens in them.  A tag adds none, nor does an envelope, although the levels are counted down
at them as well.  So the sites that the deepest layer is read in add no more layers than there are
levels, and only the last of them may go beyond: the samples of a waveform are a vector for which no
site opens, and a JSON text has the layers that its own reader admits.
-/

namespace TypeLang.Direct

open Wire

namespace Site

/-- The layers of what is read at a site without any other opening in it, beside its own. -/
def beyond : Site → ℕ
  | constructor c => if c.predicate = "dataJSON" then Json.maxNesting else 1
  | _ => 0

/-- The layers of what is read at a site, without the one of the vector around the content of an
envelope, which the vector adds itself. -/
def layersOf : Site → Value → ℕ
  | row _, v => v.layers - 1
  | _, v => v.layers

end Site

variable {s : Schema} {limits : Limits} {n : ℕ} {cursor after : Cursor} {v : Value}

/-! ## One layer -/

/-- An item of a row has been read where it begins. -/
lemma begins_of_items {α : Type} {r : Reader α} {k : ℕ} {as : List α}
    (h : Reader.items r k cursor = .done as after) {a : α} (ha : a ∈ as) :
    ∃ i < k, ∃ before start m, Reader.items r i cursor = .done before start ∧
      r start = .done a m := by
  induction k generalizing cursor after as with
  | zero =>
      cases h
      cases ha
  | succ k ih =>
      rw [Reader.items_succ] at h
      obtain ⟨b, m, hb, h⟩ := Reader.bind_eq_done.1 h
      obtain ⟨bs, m', hbs, hpure⟩ := Reader.bind_eq_done.1 h
      cases hpure
      rcases List.mem_cons.1 ha with rfl | ha
      · exact ⟨0, Nat.succ_pos k, [], cursor, m, rfl, hb⟩
      · obtain ⟨i, hi, before, start, m'', hbefore, hstart⟩ := ih hbs ha
        refine ⟨i + 1, Nat.succ_lt_succ hi, b :: before, start, m'', ?_, hstart⟩
        rw [Reader.items_succ, Reader.bind_of_done hb, Reader.bind_of_done hbefore]
        rfl

/-- An element of a vector has been read where it begins. -/
lemma begins_of_bareVector {α : Type} {r : Reader α} {as : List α}
    (h : Reader.bareVector r cursor = .done as after) {a : α} (ha : a ∈ as) :
    ∃ start m, ElementBegins r cursor start ∧ r start = .done a m := by
  obtain ⟨k, first, hcount, hitems⟩ := Reader.bind_eq_done.1 h
  obtain ⟨i, hi, before, start, m, hbefore, hstart⟩ := begins_of_items hitems ha
  exact ⟨start, m, ⟨k, first, hcount, i, hi, before, hbefore⟩, hstart⟩

lemma layers_of_treated {minRandom : ℕ} {c : Constructor} {name : String} {w : List UInt8}
    {kept : String × Value} (h : Treated minRandom c name w (some kept)) : kept.2.layers ≤ 1 := by
  cases h with
  | waveform h =>
      refine Nat.succ_le_succ (Value.itemsLayers_le.2 fun v hv => ?_)
      obtain ⟨n, -, rfl⟩ := List.mem_map.1 hv
      exact le_refl 0
  | picture hpicture h => exact Nat.zero_le 1

lemma read_of_field {read : TypeExpr → Reader Value} {c : Constructor} {f : Field}
    {words words' : Words} {kept : List (String × Value)} {minRandom : ℕ}
    (h : field minRandom read c f words cursor = .done (kept, words') after)
    {e : String × Value} (he : e ∈ kept) : e.2.layers ≤ 1 ∨ ∃ type m, isOpen words f = true ∧
      f.kind = .value type ∧ isTreated c f.name type = false ∧ read type cursor = .done e.2 m := by
  unfold field at h
  split_ifs at h with hopen
  · cases hkind : f.kind with
    | flagWord =>
        simp only [hkind] at h
        obtain ⟨word, m, -, hpure⟩ := Reader.bind_eq_done.1 h
        cases hpure
        cases he
    | presence =>
        simp only [hkind] at h
        cases h
        rw [List.mem_singleton.1 he]
        exact .inl (Nat.zero_le 1)
    | value type =>
        simp only [hkind] at h
        obtain ⟨kept?, m, hshown, hpure⟩ := Reader.bind_eq_done.1 h
        cases hpure
        obtain rfl := Option.mem_toList.1 he
        cases htreated : isTreated c f.name type with
        | true =>
            obtain ⟨n, -, -, hentry⟩ := yields_treated htreated _ _ _ hshown
            exact .inl (layers_of_treated hentry)
        | false =>
            rw [shown_of_untreated htreated] at hshown
            obtain ⟨w, m', hw, hpure⟩ := Reader.bind_eq_done.1 hshown
            cases hpure
            exact .inr ⟨type, _, hopen, rfl, htreated, hw⟩
  · cases hkind : f.kind <;> simp only [hkind] at h <;> cases h <;> cases he

/-- What a field shows has been read where its value begins, or has at most one layer. -/
lemma begins_of_fields {read : TypeExpr → Reader Value} {c : Constructor} {fs : List Field}
    {words : Words} {entries : List (String × Value)}
    (h : fields limits.minRandom read c fs words cursor = .done entries after)
    {e : String × Value} (he : e ∈ entries) : e.2.layers ≤ 1 ∨ ∃ type start m,
      FieldBegins limits read c fs words cursor type start ∧ read type start = .done e.2 m := by
  induction fs generalizing words cursor entries with
  | nil =>
      cases h
      cases he
  | cons f rest ih =>
      rw [fields_cons] at h
      obtain ⟨⟨kept, words'⟩, m, hf, h⟩ := Reader.bind_eq_done.1 h
      obtain ⟨more, m', hmore, hpure⟩ := Reader.bind_eq_done.1 h
      cases hpure
      rcases List.mem_append.1 he with he | he
      · rcases read_of_field hf he with hflat | ⟨type, m'', hopen, hkind, huntreated, hread⟩
        · exact .inl hflat
        · exact .inr ⟨type, cursor, m'', .here hopen hkind huntreated, hread⟩
      · rcases ih hmore he with hflat | ⟨type, start, m'', hbegins, hread⟩
        · exact .inl hflat
        · exact .inr ⟨type, start, m'', .later hf hbegins, hread⟩

lemma layers_of_primitive {name : String} {w : List UInt8} (h : HoldsPrimitive name w v) :
    v.layers = 0 := by
  cases h <;> rfl

/-- An object has no more layers than the vector of its entries. -/
lemma layers_of_objectOf {items : List Value} (h : Decoder.objectOf items = .ok v) :
    v.layers ≤ (Value.vector items).layers := by
  obtain ⟨entries, rfl, hentries⟩ := entries_of_objectOf h
  refine Nat.succ_le_succ (Value.entriesLayers_le.2 fun e he => ?_)
  obtain ⟨predicate, fields, hmem, hvalue⟩ := hentries e he
  have hrecord := Value.itemsLayers_le.1 (le_refl _) _ hmem
  have hfield := Value.entriesLayers_le.1 (le_refl _) _ hvalue
  exact (hfield.trans (Nat.le_succ _)).trans hrecord

lemma layers_of_shows {w : Value} (h : Shows v w) : v.layers ≤ w.layers := by
  rcases h with rfl | ⟨items, rfl, hobject⟩
  · exact le_refl _
  · exact layers_of_objectOf hobject

/-- A value has layers only if a site opens with it. -/
lemma site_of_layers {e : TypeExpr} (h : value s limits n e cursor = .done v after)
    (hlayers : 0 < v.layers) : ∃ site w, siteOf? s e = some site ∧
      site.read s limits n cursor = .done w after ∧ v.layers ≤ w.layers := by
  cases hsite : siteOf? s e with
  | some site =>
      obtain ⟨w, hw, hshows⟩ := read_of_value hsite h
      exact ⟨site, w, rfl, hw, layers_of_shows hshows⟩
  | none =>
      cases e with
      | vector b elem => cases hsite
      | named r =>
          unfold value at h
          rw [valueWith_named] at h
          rw [siteOf?_named] at hsite
          cases hr : meaning s r with
          | tagged choice => simp [hr, Meaning.site?] at hsite
          | bare c => simp [hr, Meaning.site?] at hsite
          | unknown =>
              rw [hr] at h
              cases h
          | primitive name =>
              simp only [hr, readMeaning] at h
              cases hprimitive : primitive? name with
              | none =>
                  rw [hprimitive] at h
                  cases h
              | some read =>
                  rw [hprimitive] at h
                  obtain ⟨n, -, -, hv⟩ := yields_primitive hprimitive _ _ _ h
                  exact absurd (layers_of_primitive hv) (Nat.ne_of_gt hlayers)

/-- What the fields of a constructor make has one layer more than what they show, or is a JSON
text. -/
lemma layers_of_assemble {c : Constructor} {entries : List (String × Value)}
    (h : Decoder.assemble c.predicate (Plan.formOf c) entries = .ok v) :
    (c.predicate = "dataJSON" ∧ v.layers ≤ Json.maxNesting) ∨
      v.layers ≤ Value.entriesLayers entries + 1 := by
  unfold Decoder.assemble at h
  cases hform : Plan.formOf c with
  | record =>
      simp only [hform] at h
      cases h
      exact .inr (le_refl _)
  | content =>
      simp only [hform] at h
      cases h
      refine .inr ?_
      cases entries with
      | nil => exact Nat.zero_le _
      | cons e rest => exact (le_max_left _ _).trans (Nat.le_succ _)
  | peer kind =>
      simp only [hform] at h
      split at h <;> cases h
      exact .inr (Nat.zero_le _)
  | jsonText =>
      simp only [hform] at h
      have hpredicate : c.predicate = "dataJSON" := by
        unfold Plan.formOf at hform
        split_ifs at hform with hpredicate
        exact hpredicate
      split at h
      · cases h
      · split at h
        next j hread =>
          cases h
          refine .inl ⟨hpredicate, ?_⟩
          rw [Value.layers_ofJson]
          exact Json.layers_le_of_read hread
        next => cases h

lemma layersOf_of_siteOf? {e : TypeExpr} {site : Site} (h : siteOf? s e = some site) (w : Value) :
    site.layersOf w = w.layers := by
  have hlevels := levels_of_siteOf? h
  cases site with
  | row elem => cases hlevels
  | _ => rfl

/-- The deepest layer of a row is one of an element. -/
lemma site_of_elements {elem : TypeExpr} {items : List Value}
    (h : Reader.bareVector (value s limits n elem) cursor = .done items after)
    (hlayers : 0 < Value.itemsLayers items) : ∃ inner start w m,
      ElementBegins (value s limits n elem) cursor start ∧ siteOf? s elem = some inner ∧
        inner.read s limits n start = .done w m ∧
          Value.itemsLayers items ≤ inner.layersOf w := by
  obtain ⟨x, hx, hdeepest⟩ := Value.exists_itemsLayers hlayers
  obtain ⟨start, m, hbegins, hread⟩ := begins_of_bareVector h hx
  obtain ⟨inner, w, hsite, hw, hle⟩ := site_of_layers hread (hdeepest ▸ hlayers)
  refine ⟨inner, start, w, m, hbegins, hsite, hw, ?_⟩
  rw [layersOf_of_siteOf? hsite, ← hdeepest]
  exact hle

/-- The deepest layer of what is read at a site goes no further than the site does alone, or lies in
another site that opens in it. -/
def Site.Steps (s : Schema) (limits : Limits) (n : ℕ) (site : Site) (cursor : Cursor)
    (v : Value) : Prop :=
  site.layersOf v ≤ site.layers + site.beyond ∨ ∃ inner start w m,
    Opens s limits (value s limits n) site cursor inner start ∧
      inner.read s limits n start = .done w m ∧ site.layersOf v ≤ site.layers + inner.layersOf w

lemma steps_tag {packed : Bool} {choice : Choice}
    (h : boxed s limits (n + 1) choice cursor = .done v after) :
    (Site.tag packed choice).Steps s limits n cursor v := by
  obtain ⟨tag, mid, htag, h⟩ := Reader.bind_eq_done.1 h
  split_ifs at h with hpacked
  · subst hpacked
    obtain ⟨octets, last, hopened, h⟩ := Reader.bind_eq_done.1 h
    obtain ⟨m, hread⟩ := read_of_within h
    exact .inr ⟨.tag true choice, .start octets, v, m, .enveloped ⟨mid, last, htag, hopened⟩, hread,
      (Nat.zero_add _).ge⟩
  · cases hc : choice.candidate? s tag with
    | none =>
        simp only [hc] at h
        exact absurd h (unknownTag_ne_done _ _ _ _)
    | some c =>
        simp only [hc] at h
        exact .inr ⟨.constructor c, mid, v, after, .announced htag hpacked hc, h,
          (Nat.zero_add _).ge⟩

lemma steps_constructor {c : Constructor} (h : bare s limits (n + 1) c cursor = .done v after) :
    (Site.constructor c).Steps s limits n cursor v := by
  obtain ⟨entries, m, hentries, h⟩ := Reader.bind_eq_done.1 h
  obtain ⟨hassemble, -⟩ := Reader.ofExcept_eq_done.1 h
  have hbeyond : 1 ≤ (Site.constructor c).beyond := by
    show 1 ≤ if c.predicate = "dataJSON" then Json.maxNesting else 1
    split_ifs <;> decide
  rcases layers_of_assemble hassemble with ⟨hpredicate, hjson⟩ | hle
  · have htext : (Site.constructor c).beyond = Json.maxNesting := if_pos hpredicate
    exact .inl (hjson.trans (htext ▸ Nat.le_add_left _ _))
  · by_cases hflat : Value.entriesLayers entries ≤ 1
    · refine .inl (hle.trans ?_)
      show _ ≤ 1 + (Site.constructor c).beyond
      omega
    · have hlayers : 0 < Value.entriesLayers entries := by omega
      obtain ⟨e, he, hdeepest⟩ := Value.exists_entriesLayers hlayers
      rcases begins_of_fields hentries he with hone | ⟨type, start, m', hbegins, hread⟩
      · omega
      · obtain ⟨inner, w, hsite, hw, hlayers⟩ := site_of_layers hread (by omega)
        refine .inr ⟨inner, start, w, m', .field hbegins hsite, hw, ?_⟩
        rw [layersOf_of_siteOf? hsite]
        show v.layers ≤ 1 + w.layers
        omega

/-- At a vector or a row, the elements decide. -/
lemma steps_elements {site : Site} {elem : TypeExpr} {body stop : Cursor} {items : List Value}
    (hv : site.layersOf v = site.layers + Value.itemsLayers items)
    (hopens : ∀ {start inner}, ElementBegins (value s limits n elem) body start →
      siteOf? s elem = some inner → Opens s limits (value s limits n) site cursor inner start)
    (h : Reader.bareVector (value s limits n elem) body = .done items stop) :
    site.Steps s limits n cursor v := by
  rcases Nat.eq_zero_or_pos (Value.itemsLayers items) with hflat | hlayers
  · refine .inl ?_
    rw [hv, hflat]
    exact Nat.le_add_right _ _
  · obtain ⟨inner, start, w, m, hbegins, hsite, hw, hle⟩ := site_of_elements h hlayers
    refine .inr ⟨inner, start, w, m, hopens hbegins hsite, hw, ?_⟩
    rw [hv]
    exact Nat.add_le_add_left hle _

lemma steps_row {elem : TypeExpr} (h : (Site.row elem).read s limits n cursor = .done v after) :
    (Site.row elem).Steps s limits n cursor v := by
  obtain ⟨items, m, hitems, hpure⟩ := Reader.bind_eq_done.1 h
  cases hpure
  obtain ⟨tag, body, htag, hitems⟩ := Reader.bind_eq_done.1 hitems
  split_ifs at hitems with hvector
  · subst hvector
    exact steps_elements (Nat.zero_add _).symm (.rowElement htag) hitems
  · exact absurd hitems (unknownTag_ne_done _ _ _ _)

lemma steps_vector {b : Bool} {elem : TypeExpr}
    (h : (Site.vector b elem).read s limits (n + 1) cursor = .done v after) :
    (Site.vector b elem).Steps s limits n cursor v := by
  obtain ⟨items, m, hitems, hpure⟩ := Reader.bind_eq_done.1 h
  cases hpure
  have hv : (Site.vector b elem).layersOf (.vector items) =
      (Site.vector b elem).layers + Value.itemsLayers items := Nat.add_comm _ _
  cases b with
  | false => exact steps_elements hv .element hitems
  | true =>
      have hitems : Reader.boxedVector limits.maxInflated (value s limits n elem) cursor =
          .done items _ := hitems
      obtain ⟨tag, body, htag, hitems⟩ := Reader.bind_eq_done.1 hitems
      split_ifs at hitems with hvector hpacked
      · subst hvector
        exact steps_elements hv (.boxedElement htag) hitems
      · subst hpacked
        obtain ⟨octets, last, hopened, hitems⟩ := Reader.bind_eq_done.1 hitems
        obtain ⟨m', hrow⟩ := read_of_within hitems
        exact .inr ⟨.row elem, .start octets, .vector items, m',
          .packedRow ⟨body, last, htag, hopened⟩, Reader.bind_eq_done.2 ⟨items, m', hrow, rfl⟩,
          hv.le⟩
      · exact absurd hitems (unknownTag_ne_done _ _ _ _)

lemma steps_of_read {site : Site}
    (h : site.read s limits (n + site.levels) cursor = .done v after) :
    site.Steps s limits n cursor v := by
  cases site with
  | tag packed choice => exact steps_tag h
  | constructor c => exact steps_constructor h
  | vector b elem => exact steps_vector h
  | row elem => exact steps_row h

/-! ## All layers -/

/-- The layers of a value that is read at a site within `n` levels are those of sites that it
encloses: no more than the levels, and what the last of them goes beyond. -/
def Site.Bounds (s : Schema) (limits : Limits) (n : ℕ) (site : Site) (cursor : Cursor)
    (v : Value) : Prop :=
  ∃ k last start, Encloses s limits site cursor k last start ∧ k + last.layers ≤ n ∧
    site.layersOf v ≤ k + last.layers + last.beyond

lemma layers_le_levels (site : Site) : site.layers ≤ site.levels := by
  cases site <;> first | exact le_refl _ | exact Nat.zero_le _

/-- One step outwards. -/
lemma Site.Steps.bounds {site : Site} (h : site.Steps s limits n cursor v)
    (hinner : ∀ {inner : Site} {start m : Cursor} {w : Value},
      Opens s limits (value s limits n) site cursor inner start →
        inner.read s limits n start = .done w m → inner.Bounds s limits n start w) :
    site.Bounds s limits (n + site.levels) cursor v := by
  have hlevels := layers_le_levels site
  rcases h with halone | ⟨inner, start, w, m, hopens, hread, hle⟩
  · exact ⟨0, site, cursor, .here site cursor, by omega, by omega⟩
  · obtain ⟨k, last, at_, hencloses, hk, hw⟩ := hinner hopens hread
    exact ⟨_, last, at_, .inside n hopens hencloses, by omega, by omega⟩

/-- A row takes no level, so it is enough to know of other sites. -/
lemma bounds_of_others
    (hother : ∀ {site : Site} {cursor after : Cursor} {v : Value}, site.levels = 1 →
      site.read s limits n cursor = .done v after → site.Bounds s limits n cursor v)
    {site : Site} (h : site.read s limits n cursor = .done v after) :
    site.Bounds s limits n cursor v := by
  rcases levels_eq_one_or_row site with hlevels | ⟨elem, rfl⟩
  · exact hother hlevels h
  · refine (steps_row h).bounds fun hopens hread => ?_
    cases hopens with
    | rowElement htag hbegins hsite => exact hother (levels_of_siteOf? hsite) hread

/-- By induction on the levels: whatever is read adds no more layers than there are levels, up to
what the last site goes beyond. -/
lemma bounds_of_read {site : Site} (h : site.read s limits n cursor = .done v after) :
    site.Bounds s limits n cursor v := by
  induction n generalizing site cursor after v with
  | zero =>
      refine bounds_of_others (fun {site cursor after v} hlevels h => ?_) h
      have hle := levels_le_of_read h
      omega
  | succ n ih =>
      refine bounds_of_others (fun {site cursor after v} hlevels h => ?_) h
      rw [← hlevels] at h ⊢
      exact (steps_of_read h).bounds fun _ hread => ih hread

/-! ## Requests -/

/-- How deep records, vectors and maps nest in a value that is read from a cursor, where `first?`
opens first. -/
structure LayersBounded (s : Schema) (limits : Limits) (first? : Option Site) (cursor : Cursor)
    (v : Value) : Prop where
  /-- The limit on levels bounds the layers, up to those of a JSON text. -/
  all : v.layers ≤ limits.maxDepth + Json.maxNesting
  /-- Where no JSON text is read, a waveform is all that goes beyond the limit. -/
  withoutText : (∀ site ∈ first?, ∀ layers c start,
      Encloses s limits site cursor layers (.constructor c) start → c.predicate ≠ "dataJSON") →
    v.layers ≤ limits.maxDepth + 1
  /-- Only constructors and vectors add layers, so an envelope adds none. -/
  sites : 0 < v.layers → ∃ site ∈ first?, ∃ k last start,
    Encloses s limits site cursor k last start ∧ k + last.layers ≤ limits.maxDepth ∧
      v.layers ≤ k + last.layers + last.beyond
  /-- Showing the value recurses no deeper, -/
  shown : v.toJsonWithin (limits.maxDepth + Json.maxNesting) = some v.toJson
  /-- and neither does writing what is shown. -/
  written : v.toJson.compactWithin (limits.maxDepth + Json.maxNesting) =
    some v.toJson.compactChars

lemma beyond_le (site : Site) : site.beyond ≤ Json.maxNesting := by
  cases site with
  | constructor c =>
      show (if c.predicate = "dataJSON" then Json.maxNesting else 1) ≤ Json.maxNesting
      split_ifs <;> decide
  | _ => exact Nat.zero_le _

lemma beyond_le_one {site : Site} (h : ∀ c, site = .constructor c → c.predicate ≠ "dataJSON") :
    site.beyond ≤ 1 := by
  cases site with
  | constructor c => exact (if_neg (h c rfl)).le
  | _ => exact Nat.zero_le 1

/-- The layers of what is asked for are those of the site that opens first. -/
lemma bounds_of_answer {b : Builder} {d : Decoder} (hb : b.build = .ok s)
    (hd : Decoder.ofSchema s limits = .ok d) {request : Decoder.Request} {c : Cursor}
    (h : d.answer request c = .done v after) (hlayers : 0 < v.layers) :
    ∃ site ∈ opensFirst? s request, ∃ k last start, Encloses s limits site c k last start ∧
      k + last.layers ≤ limits.maxDepth ∧ v.layers ≤ k + last.layers + last.beyond := by
  rcases read_of_answer hb hd h with ⟨site, w, hfirst, hread, hshows⟩ | ⟨e, -, hsite, hread⟩
  · obtain ⟨k, last, start, hencloses, hk, hw⟩ := bounds_of_read hread
    have hown : site.layersOf w = w.layers := by
      have hlevels := levels_of_opensFirst? hfirst
      cases site with
      | row elem => cases hlevels
      | _ => rfl
    have hle := layers_of_shows hshows
    exact ⟨site, hfirst, k, last, start, hencloses, hk, by omega⟩
  · obtain ⟨site, w, hsome, -, -⟩ := site_of_layers hread hlayers
    cases hsite.symm.trans hsome

/-- **Values nest no deeper than the limit on levels and the one on JSON texts allow**, and
envelopes add nothing to that. -/
theorem answer_layersBounded {b : Builder} {d : Decoder} (hb : b.build = .ok s)
    (hd : Decoder.ofSchema s limits = .ok d) {request : Decoder.Request} {c : Cursor}
    (h : d.answer request c = .done v after) :
    LayersBounded s limits (opensFirst? s request) c v := by
  have hsites := bounds_of_answer hb hd h
  have hall : v.layers ≤ limits.maxDepth + Json.maxNesting := by
    rcases Nat.eq_zero_or_pos v.layers with hflat | hlayers
    · omega
    · obtain ⟨site, -, k, last, start, -, hk, hle⟩ := hsites hlayers
      have := beyond_le last
      omega
  constructor
  case all => exact hall
  case withoutText =>
    intro hnone
    rcases Nat.eq_zero_or_pos v.layers with hflat | hlayers
    · omega
    · obtain ⟨site, hsite, k, last, start, hencloses, hk, hle⟩ := hsites hlayers
      have hone : last.beyond ≤ 1 := beyond_le_one fun c' hc' =>
        hnone site hsite k c' start (hc' ▸ hencloses)
      omega
  case sites => exact hsites
  case shown => exact Value.toJsonWithin_eq hall
  case written => exact Json.compactWithin_eq ((Value.layers_toJson v).trans hall)

theorem envelopedText_layersBounded : ∃ s d v after, Decoder.richText.build = .ok s ∧
    Decoder.ofSchema s {} = .ok d ∧
      d.answer .object (Cursor.start envelopedText) = .done v after ∧
        LayersBounded s {} (opensFirst? s .object) (Cursor.start envelopedText) v := by
  obtain ⟨s, d, v, after, hs, hd, hread⟩ := exists_envelopedText
  exact ⟨s, d, v, after, hs, hd, hread, answer_layersBounded hs hd hread⟩

end TypeLang.Direct
