import TypeLang.Proofs.Decoder.Enclosing
import TypeLang.Proofs.Decoder.Soundness

/-!
# How many elements a row can have

The count of a vector is whatever number its four octets write; nothing compares it with the octets
that are left.  What bounds it is that every element takes octets, which is seen from the octets
that conform to its type: tags, counts and the values of primitive types are never without any.
Only a constructor that is written without its tag and has nothing on the wire itself takes none
(`Wireless`).  So a row that has been read has no more elements than octets behind its count, unless
its elements are wireless, and then any count is read from no octets at all.
-/

namespace TypeLang

open Wire

namespace Wire

variable {α : Type}

/-! ## Readers that consume octets -/

/-- Whatever `r` reads, it consumes octets. -/
def Consumes (r : Reader α) : Prop :=
  Yields r fun w _ => w ≠ []

namespace Consumes

lemma length_le_flatten {ws : List (List UInt8)} {as : List α}
    (h : List.Forall₂ (fun w _ => w ≠ []) ws as) : as.length ≤ ws.flatten.length := by
  induction h with
  | nil => exact le_refl 0
  | cons hw _ ih =>
      have := List.length_pos_of_ne_nil hw
      rw [List.length_cons, List.flatten_cons, List.length_append]
      omega

/-- A row whose items consume octets has no more of them than there are octets. -/
lemma items_le {r : Reader α} (hr : Consumes r) {n : ℕ} {c after : Cursor} {as : List α}
    (h : Reader.items r n c = .done as after) : n ≤ c.remaining := by
  obtain ⟨k, hk, -, hlength, ws, hws, hflatten⟩ := yields_items hr n _ _ _ h
  have hmany := length_le_flatten hws
  rw [hflatten, Cursor.length_next hk, hlength] at hmany
  exact hmany.trans hk

end Consumes

end Wire

namespace Direct

variable {s : Schema} {limits : Limits}

/-! ## Types without octets -/

/-- Values of a type expression take no octets: it names a constructor that is written without its
tag, and this one has no flag word and no values but those that take no octets either. -/
inductive Wireless (s : Schema) : TypeExpr → Prop
  | bare {r : TypeRef} {c : Constructor} (hr : meaning s r = .bare c)
      (hwords : ∀ f ∈ c.fields, f.kind ≠ .flagWord)
      (hvalues : ∀ f ∈ c.fields, ∀ type, f.kind = .value type → Wireless s type) :
      Wireless s (.named r)

/-- Fields that take no octets, whatever stands in the flag words before them. -/
def WirelessFields (s : Schema) (fs : List Field) : Prop :=
  ∀ f ∈ fs, f.kind ≠ .flagWord ∧ ∀ type, f.kind = .value type → Wireless s type

lemma wireless_of_fields {r : TypeRef} {c : Constructor} (hr : meaning s r = .bare c)
    (h : WirelessFields s c.fields) : Wireless s (.named r) :=
  .bare hr (fun f hf => (h f hf).1) fun f hf => (h f hf).2

/-! ### What takes octets -/

lemma HoldsPrimitive.ne_nil {name : String} {w : List UInt8} {v : Value}
    (h : HoldsPrimitive name w v) : w ≠ [] := by
  cases h with
  | string h => exact h.ne_nil
  | bytes h => exact h.ne_nil
  | int128 h => exact List.ne_nil_of_length_eq_add_one h
  | int256 h => exact List.ne_nil_of_length_eq_add_one h
  | int512 h => exact List.ne_nil_of_length_eq_add_one h
  | strlong h => exact List.ne_nil_of_length_eq_add_one h
  | _ => exact List.cons_ne_nil _ _

lemma Treated.ne_nil {minRandom : ℕ} {c : Constructor} {name : String} {w : List UInt8}
    {kept? : Option (String × Value)} (h : Treated minRandom c name w kept?) : w ≠ [] := by
  cases h with
  | random hleast h => exact h.ne_nil
  | waveform h => exact h.ne_nil
  | picture hpicture h => exact h.ne_nil

lemma Announced.ne_nil {choice : Choice} {w : List UInt8} {v : Value}
    (h : Announced s limits choice w v) : w ≠ [] := by
  cases h <;> exact List.append_ne_nil_of_left_ne_nil (List.cons_ne_nil _ _) _

lemma Row.ne_nil {b : Bool} {elem : TypeExpr} {w : List UInt8} {items : List Value}
    (h : Row s limits b elem w items) : w ≠ [] := by
  cases h <;> exact List.append_ne_nil_of_left_ne_nil (List.cons_ne_nil _ _) _

lemma WirelessFields.cons {f : Field} {rest : List Field} (hkind : f.kind ≠ .flagWord)
    (hvalue : ∀ type, f.kind = .value type → Wireless s type) (h : WirelessFields s rest) :
    WirelessFields s (f :: rest) :=
  List.forall_mem_cons.2 ⟨⟨hkind, hvalue⟩, h⟩

/-- No gate is closed where no flag word stands before it. -/
lemma isPresent_of_resolves {words : String → UInt32} {f : Field} {rest : List Field}
    (hfs : Resolves [] (f :: rest)) : isPresent words f = true := by
  unfold isPresent
  cases hgate : f.gate with
  | none => rfl
  | some bit => exact absurd (hfs.1 bit hgate) List.not_mem_nil

mutual

/-- What conforms without octets is wireless. -/
lemma Conforms.wireless (hgates : GatesResolve s) {e : TypeExpr} {w : List UInt8} {v : Value} :
    Conforms s limits e w v → w = [] → Wireless s e
  | .primitive _ hv, hnil => absurd hnil hv.ne_nil
  | .tagged _ hv, hnil => absurd hnil hv.ne_nil
  | .bare hr hv, hnil =>
      wireless_of_fields hr (hv.wireless hgates (hgates _ (mem_of_meaning_bare hr)) hnil)
  | .vector _ hrow, hnil => absurd hnil hrow.ne_nil
  | .entries _ hrow _, hnil => absurd hnil hrow.ne_nil

lemma Built.wireless (hgates : GatesResolve s) {c : Constructor} {w : List UInt8} {v : Value} :
    Built s limits c w v → Resolves [] c.fields → w = [] → WirelessFields s c.fields
  | .record _ hfields, hc, hnil => hfields.wireless hgates rfl hc hnil
  | .shaped _ hfields _, hc, hnil => hfields.wireless hgates rfl hc hnil

/-- The first field that takes octets is not behind a gate, since no flag word comes before it. -/
lemma Fields.wireless (hgates : GatesResolve s) {c : Constructor} {words : String → UInt32}
    {names : List String} {fs : List Field} {w : List UInt8} {entries : List (String × Value)} :
    Fields s limits c words names fs w entries → names = [] → Resolves names fs → w = [] →
      WirelessFields s fs
  | .nil, _, _, _ => fun f hf => absurd hf List.not_mem_nil
  | .absent hgate _ _, hnames, hfs, _ => by
      rw [isPresent_of_resolves (hnames ▸ hfs)] at hgate
      cases hgate
  | .flagWord _ _ _ _, _, _, hnil =>
      absurd hnil (List.append_ne_nil_of_left_ne_nil (List.cons_ne_nil _ _) _)
  | .presence (f := f) _ hkind hrest, hnames, hfs, hnil => by
      have hother : f.kind ≠ .flagWord := by simp [hkind]
      have hbehind := hrest.wireless hgates hnames (hfs.behind_other hother) hnil
      exact hbehind.cons hother (by simp [hkind])
  | .treated _ _ _ hentry _, _, _, hnil =>
      absurd (List.append_eq_nil_iff.1 hnil).1 hentry.ne_nil
  | .value (f := f) _ hkind _ hv hrest, hnames, hfs, hnil => by
      obtain ⟨hfirst, hlater⟩ := List.append_eq_nil_iff.1 hnil
      have hother : f.kind ≠ .flagWord := by simp [hkind]
      have hbehind := hrest.wireless hgates hnames (hfs.behind_other hother) hlater
      refine hbehind.cons hother fun type hvalue => ?_
      obtain rfl := FieldKind.value.inj (hkind.symm.trans hvalue)
      exact hv.wireless hgates hfirst

end

/-- Values that are not wireless take octets. -/
lemma consumes_value (hgates : GatesResolve s) {e : TypeExpr} (he : ¬Wireless s e) (n : ℕ) :
    Consumes (value s limits n e) :=
  (yields_value hgates n e).imp fun _ _ hv hnil => he (hv.wireless hgates hnil)

/-! ### What takes none -/

lemma isOctets_of_wireless {e : TypeExpr} (h : Wireless s e) : Plan.isOctets e = false := by
  obtain @⟨r, c, hr, -, -⟩ := h
  by_contra hoctets
  simp only [Plan.isOctets, Bool.not_eq_false, Bool.or_eq_true, beq_iff_eq] at hoctets
  have hprimitive : (primitive? r.name).isSome = true := by
    rcases hoctets with hname | hname <;> rw [hname] <;> rfl
  unfold meaning at hr
  rw [if_pos hprimitive] at hr
  split_ifs at hr

/-- Fields without flag words take no octets if their values do not. -/
lemma yields_fields_of_wireless {value : TypeExpr → Reader Value} {c : Constructor}
    (minRandom : ℕ) {fs : List Field} (hwords : ∀ f ∈ fs, f.kind ≠ .flagWord)
    (hoctets : ∀ f ∈ fs, ∀ type, f.kind = .value type → Plan.isOctets type = false)
    (hvalue : ∀ f ∈ fs, ∀ type, f.kind = .value type → Yields (value type) fun w _ => w = [])
    (words : Words) : Yields (fields minRandom value c fs words) fun w _ => w = [] := by
  induction fs with
  | nil => exact yields_pure rfl
  | cons f rest ih =>
      obtain ⟨hword, hwords⟩ := List.forall_mem_cons.1 hwords
      obtain ⟨hoctet, hoctets⟩ := List.forall_mem_cons.1 hoctets
      obtain ⟨hfirst, hvalue⟩ := List.forall_mem_cons.1 hvalue
      have hrest := ih hwords hoctets hvalue
      unfold fields
      refine yields_ite (fun _ => ?_) fun _ => ?_
      · cases hkind : f.kind with
        | flagWord => exact absurd hkind hword
        | presence => exact yields_bind_pure hrest fun _ _ hw => hw
        | value type =>
            have huntreated : isTreated c f.name type = false := by
              simp [isTreated, hoctet type hkind]
            simp only [shown_of_untreated huntreated, bind_assoc, pure_bind]
            refine yields_bind (hfirst type hkind) fun w v hw => ?_
            exact yields_bind_pure hrest fun w' _ hw' => by rw [hw, hw', List.append_nil]
      · cases hkind : f.kind with
        | flagWord => exact absurd hkind hword
        | presence => exact hrest
        | value type => exact hrest

/-- **Wireless values take no octets**, so nothing on a wire bounds how many there are. -/
theorem yields_of_wireless {e : TypeExpr} (h : Wireless s e) (n : ℕ) :
    Yields (value s limits n e) fun w _ => w = [] := by
  induction h generalizing n with
  | @bare r c hr hwords hvalues ih =>
      show Yields (valueWith s _ _ _ (.named r)) _
      rw [valueWith_named, hr]
      cases n with
      | zero => exact Decoder.yields_tooDeep limits
      | succ n =>
          have hfields := yields_fields_of_wireless (c := c) limits.minRandom hwords
            (fun f hf type hkind => isOctets_of_wireless (hvalues f hf type hkind))
            (fun f hf type hkind => ih f hf type hkind n) []
          refine yields_bind hfields fun w _ hw => yields_ofExcept fun _ _ => ?_
          rw [List.append_nil, hw]

/-! ## Rows -/

/-- A vector or the content of its envelope opens at a cursor, its count says `n`, and its elements
begin at `first`. -/
inductive Counts : Site → Cursor → (elem : TypeExpr) → (n : ℕ) → (first : Cursor) → Prop
  | bare {elem c n first} (hcount : Reader.count c = .done n first) :
      Counts (.vector false elem) c elem n first
  | boxed {elem c body n first} (htag : Reader.uint32 c = .done Tag.vector body)
      (hcount : Reader.count body = .done n first) : Counts (.vector true elem) c elem n first
  | enveloped {elem c body n first} (htag : Reader.uint32 c = .done Tag.vector body)
      (hcount : Reader.count body = .done n first) : Counts (.row elem) c elem n first

/-- A row that is read has as many elements as its count says. -/
lemma items_of_counts {site : Site} {c first after : Cursor} {elem : TypeExpr} {n m : ℕ}
    {v : Value} (hcounts : Counts site c elem n first)
    (h : site.read s limits (m + site.levels) c = .done v after) :
    ∃ items stop, Reader.items (value s limits m elem) n first = .done items stop := by
  have hbare : ∀ {body : Cursor} {items : List Value} {stop : Cursor},
      Reader.count body = .done n first →
        Reader.bareVector (value s limits m elem) body = .done items stop →
          ∃ items stop, Reader.items (value s limits m elem) n first = .done items stop := by
    intro body items stop hcount hitems
    rw [Reader.bareVector, Reader.bind_of_done hcount] at hitems
    exact ⟨items, stop, hitems⟩
  cases hcounts with
  | bare hcount =>
      obtain ⟨items, stop, hitems, -⟩ := Reader.bind_eq_done.1 h
      exact hbare hcount hitems
  | boxed htag hcount =>
      obtain ⟨items, stop, hitems, -⟩ := Reader.bind_eq_done.1 h
      have hitems : Reader.boxedVector limits.maxInflated (value s limits m elem) c =
          .done items stop := hitems
      rw [Reader.boxedVector, Reader.bind_of_done htag, if_pos rfl] at hitems
      exact hbare hcount hitems
  | enveloped htag hcount =>
      obtain ⟨items, stop, hitems, -⟩ := Reader.bind_eq_done.1 h
      rw [Reader.afterVectorTag, Reader.bind_of_done htag, if_pos rfl] at hitems
      exact hbare hcount hitems

/-- **No row is longer than its wire.**  Wherever a vector stands in what has been read, it has no
more elements than octets were left behind its count, on the wire or in the envelope that it stands
in; unless its elements are wireless. -/
theorem answer_rows_fit {b : Builder} {d : Decoder} (hb : b.build = .ok s)
    (hd : Decoder.ofSchema s limits = .ok d) {request : Decoder.Request} {c after : Cursor}
    {v : Value} (h : d.answer request c = .done v after) {site last : Site} {start first : Cursor}
    {layers n : ℕ} {elem : TypeExpr} (hsite : site ∈ opensFirst? s request)
    (hencloses : Encloses s limits site c layers last start)
    (hcounts : Counts last start elem n first) : Wireless s elem ∨ n ≤ first.remaining := by
  have hgates := gatesResolve_of_ofSchema hb hd
  obtain ⟨w, hw⟩ : ∃ w, site.read s limits limits.maxDepth c = .done w after := by
    rcases read_of_answer hb hd h with ⟨site', w, hfirst, hw, -⟩ | ⟨-, hnone, -⟩
    · obtain rfl := Option.some.inj (hfirst.symm.trans hsite)
      exact ⟨w, hw⟩
    · cases hnone.symm.trans hsite
  obtain ⟨m, u, stop, hlast⟩ := read_of_encloses hencloses hw
  obtain ⟨m, rfl⟩ := Nat.exists_eq_add_of_le' (levels_le_of_read hlast)
  obtain ⟨items, stop, hitems⟩ := items_of_counts hcounts hlast
  by_cases hwireless : Wireless s elem
  · exact .inl hwireless
  · exact .inr ((consumes_value hgates hwireless m).items_le hitems)

/-! ### Rows of numbers, and a row of nothing -/

section

/-- The type of numbers of four octets. -/
def numberType : TypeExpr :=
  .named ⟨"int", true, false⟩

/-- A row of one row of one number. -/
def nestedRow : Cursor :=
  .start [1, 0, 0, 0, 1, 0, 0, 0, 7, 0, 0, 0]

lemma exists_nestedRow : ∃ s d v after, Builder.empty.build = .ok s ∧
    Decoder.ofSchema s {} = .ok d ∧
      d.answer (.type "vector<vector<int>>") nestedRow = .done v after := by
  have hsome : (Builder.empty.build.toOption.bind fun s =>
      (Decoder.ofSchema s {}).toOption.bind fun d =>
        (d.answer (.type "vector<vector<int>>") nestedRow).done?).isSome = true := by
    decide +kernel
  obtain ⟨⟨v, after⟩, hsome⟩ := Option.isSome_iff_exists.1 hsome
  obtain ⟨s, hs, hsome⟩ := Option.bind_eq_some_iff.1 hsome
  obtain ⟨d, hd, hread⟩ := Option.bind_eq_some_iff.1 hsome
  exact ⟨s, d, v, after, eq_ok_of_toOption hs, eq_ok_of_toOption hd,
    Outcome.done?_eq_some.1 hread⟩

lemma opensFirst?_nestedRow (s : Schema) : opensFirst? s (.type "vector<vector<int>>") =
    some (.vector false (.vector false numberType)) := by
  have htype : TypeExpr.read "vector<vector<int>>".toList =
      .ok (.vector false (.vector false numberType)) :=
    eq_ok_of_toOption (by decide +kernel)
  simp only [opensFirst?, htype]
  rfl

theorem nestedRow_fits : ∃ s d v after, Builder.empty.build = .ok s ∧
    Decoder.ofSchema s {} = .ok d ∧
      d.answer (.type "vector<vector<int>>") nestedRow = .done v after ∧
        opensFirst? s (.type "vector<vector<int>>") =
            some (.vector false (.vector false numberType)) ∧
          ∃ start first, Encloses s {} (.vector false (.vector false numberType)) nestedRow 1
              (.vector false numberType) start ∧
            Counts (.vector false numberType) start numberType 1 first ∧
              (Wireless s numberType ∨ 1 ≤ first.remaining) := by
  obtain ⟨s, d, v, after, hs, hd, hread⟩ := exists_nestedRow
  have hfirst := opensFirst?_nestedRow s
  have hencloses : Encloses s {} (.vector false (.vector false numberType)) nestedRow 1
      (.vector false numberType) (nestedRow.advance 4 (by decide)) :=
    .inside 0 (.element ⟨1, _, rfl, 0, Nat.one_pos, [], rfl⟩ rfl) (.here _ _)
  have hcounts : Counts (.vector false numberType) (nestedRow.advance 4 (by decide))
      numberType 1 _ := .bare rfl
  exact ⟨s, d, v, after, hs, hd, hread, hfirst, _, _, hencloses, hcounts,
    answer_rows_fit hs hd hread hfirst hencloses hcounts⟩

/-- A count of three, and nothing behind it. -/
def countOfThree : Cursor :=
  .start [3, 0, 0, 0]

/-- Three constructors without fields and tags are read from no octets at all. -/
theorem lone_row_outruns_wire : ∃ s d v after, loneBuilder.build = .ok s ∧
    Decoder.ofSchema s {} = .ok d ∧
      d.answer (.type "vector<a>") countOfThree = .done v after ∧
        v.asVector?.map List.length = some 3 ∧
          ∃ site ∈ opensFirst? s (.type "vector<a>"), ∃ layers last start elem n first,
            Encloses s {} site countOfThree layers last start ∧
              Counts last start elem n first ∧ first.remaining < n := by
  have hparts : (loneBuilder.build.toOption.bind fun s =>
      (Decoder.ofSchema s {}).toOption.bind fun d =>
        (d.answer (.type "vector<a>") countOfThree).done?.map fun o =>
          (o.1.asVector?.map List.length, opensFirst? s (.type "vector<a>"))) =
            some (some 3, some (.vector false (.named ⟨"a", true, false⟩))) := by
    decide +kernel
  obtain ⟨s, hs, hparts⟩ := Option.bind_eq_some_iff.1 hparts
  obtain ⟨d, hd, hparts⟩ := Option.bind_eq_some_iff.1 hparts
  obtain ⟨⟨v, after⟩, hread, hparts⟩ := Option.map_eq_some_iff.1 hparts
  obtain ⟨hlength, hfirst⟩ := Prod.mk.inj hparts
  have hcounts : Counts (.vector false (.named ⟨"a", true, false⟩)) countOfThree
      (.named ⟨"a", true, false⟩) 3 _ := .bare rfl
  exact ⟨s, d, v, after, eq_ok_of_toOption hs, eq_ok_of_toOption hd,
    Outcome.done?_eq_some.1 hread, hlength, _, hfirst, 0, _, _, _, 3, _, .here _ _, hcounts,
    by decide⟩

end

end Direct

end TypeLang
