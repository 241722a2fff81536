import TypeLang.Proofs.Decoder.Meaning
import TypeLang.Proofs.Json.Keyed
import TypeLang.Proofs.Schema.Building
import TypeLang.Proofs.Schema.Indexes
import TypeLang.Proofs.Wire.Written

/-!
# JSON trees on the wire

The interface has types of its own for JSON.  A value of one is not shown as a record: it is the
content of its constructor, and a row of entries is a map, in which the last entry of a key counts.
A schema that has these types reads every tree that is written by them as itself.

An array takes three levels: its constructor's tag, the constructor and the vector.  An object takes
five, since an entry is a constructor behind a tag as well.
-/

namespace TypeLang

open Wire

/-! ## Trees -/

/-- A JSON tree as it is written.  An object is a row of entries, and keys may repeat. -/
inductive JsonTree where
  | null
  | bool (b : Bool)
  | number (d : Double)
  | string (s : String)
  | array (items : List JsonTree)
  | object (entries : List (String × JsonTree))
  deriving Repr, Inhabited

/-- The constructors that write JSON. -/
inductive JsonForm where
  | null
  | bool
  | number
  | string
  | array
  | object
  /-- A key with its value. -/
  | entry
  deriving DecidableEq, Repr

namespace JsonForm

/-- The reference to the type of JSON values. -/
def valueRef : TypeRef :=
  ⟨"JSONValue", false, false⟩

/-- The reference to the type of entries. -/
def entryRef : TypeRef :=
  ⟨Plan.entryType, false, false⟩

def predicate : JsonForm → String
  | null => "jsonNull"
  | bool => "jsonBool"
  | number => "jsonNumber"
  | string => "jsonString"
  | array => "jsonArray"
  | object => "jsonObject"
  | entry => "jsonObjectValue"

def type : JsonForm → String
  | entry => entryRef.name
  | _ => valueRef.name

/-- A field that is always there. -/
def always (name : String) (type : TypeExpr) : Field :=
  ⟨name, .value type, none⟩

def fields : JsonForm → List Field
  | null => []
  | bool => [always "value" (.named ⟨"Bool", false, false⟩)]
  | number => [always "value" (.named ⟨"double", true, false⟩)]
  | string => [always "value" (.named ⟨"string", true, false⟩)]
  | array => [always "value" (.vector true (.named valueRef))]
  | object => [always "value" (.vector true (.named entryRef))]
  | entry => [always "key" (.named ⟨"string", true, false⟩), always "value" (.named valueRef)]

end JsonForm

/-- The schema has the types of JSON, with these tags. -/
structure HasJson (s : Schema) (tag : JsonForm → UInt32) : Prop where
  declared : ∀ form : JsonForm, ∃ c ∈ s.constructors, c.predicate = form.predicate ∧
    c.id = tag form ∧ c.type = form.type ∧ c.fields = form.fields
  unpacked : ∀ form, tag form ≠ Tag.gzipPacked

namespace JsonTree

/-! ### What is written -/

section

variable (tag : JsonForm → UInt32)

mutual

/-- A tree by the schema. -/
def write : JsonTree → List UInt8
  | null => Write.uint32 (tag .null)
  | bool b => Write.uint32 (tag .bool) ++ Write.bool b
  | number d => Write.uint32 (tag .number) ++ Write.double d
  | string s => Write.uint32 (tag .string) ++ Write.string s
  | array items => Write.uint32 (tag .array) ++ Write.boxedVector (writeItems items)
  | object entries => Write.uint32 (tag .object) ++ Write.boxedVector (writeEntries entries)

/-- Trees, one by one. -/
def writeItems : List JsonTree → List (List UInt8)
  | [] => []
  | t :: rest => write t :: writeItems rest

/-- Entries, one by one. -/
def writeEntries : List (String × JsonTree) → List (List UInt8)
  | [] => []
  | (key, t) :: rest =>
    (Write.uint32 (tag .entry) ++ (Write.string key ++ write t)) :: writeEntries rest

end

@[simp] lemma length_writeItems (items : List JsonTree) :
    (writeItems tag items).length = items.length := by
  induction items with
  | nil => rfl
  | cons t rest ih => simp [writeItems, ih]

@[simp] lemma length_writeEntries (entries : List (String × JsonTree)) :
    (writeEntries tag entries).length = entries.length := by
  induction entries with
  | nil => rfl
  | cons e rest ih => simp [writeEntries, ih]

end

/-! ### How high trees are, and which fit -/

mutual

/-- How deep arrays and objects nest. -/
def height : JsonTree → ℕ
  | array items => itemsHeight items + 1
  | object entries => entriesHeight entries + 1
  | _ => 0

/-- The height of the highest item. -/
def itemsHeight : List JsonTree → ℕ
  | [] => 0
  | t :: rest => max (height t) (itemsHeight rest)

/-- The height of the highest value. -/
def entriesHeight : List (String × JsonTree) → ℕ
  | [] => 0
  | (_, t) :: rest => max (height t) (entriesHeight rest)

end

mutual

/-- Every length in the tree fits into three octets, and every count is a positive number of
four. -/
def Fits : JsonTree → Prop
  | string s => IsShort (Text.utf8 s.toList)
  | array items => items.length < 2 ^ 31 ∧ ItemsFit items
  | object entries => entries.length < 2 ^ 31 ∧ EntriesFit entries
  | _ => True

/-- Every item fits. -/
def ItemsFit : List JsonTree → Prop
  | [] => True
  | t :: rest => Fits t ∧ ItemsFit rest

/-- Every key and every value fits. -/
def EntriesFit : List (String × JsonTree) → Prop
  | [] => True
  | (key, t) :: rest => IsShort (Text.utf8 key.toList) ∧ Fits t ∧ EntriesFit rest

end

/-! ### What is shown -/

mutual

/-- The value of a tree.  A map holds for each key of an object the value of its last entry, and
nothing else. -/
inductive Shows : JsonTree → Value → Prop
  | null : Shows .null .null
  | bool (b : Bool) : Shows (.bool b) (.bool b)
  | number (d : Double) : Shows (.number d) (.double d)
  | string (s : String) : Shows (.string s) (.string s)
  | array {items : List JsonTree} {values : List Value} (h : ItemsShow items values) :
      Shows (.array items) (.vector values)
  | object {entries : List (String × JsonTree)} {shown map : List (String × Value)}
      (h : EntriesShow entries shown) (hsorted : Ascending map)
      (hlast : ∀ key, map.lookup key = shown.reverse.lookup key) :
      Shows (.object entries) (.map map)

/-- The values of items, one by one. -/
inductive ItemsShow : List JsonTree → List Value → Prop
  | nil : ItemsShow [] []
  | cons {t : JsonTree} {v : Value} {items : List JsonTree} {values : List Value} (ht : Shows t v)
      (hrest : ItemsShow items values) : ItemsShow (t :: items) (v :: values)

/-- The values of entries under their keys, one by one. -/
inductive EntriesShow : List (String × JsonTree) → List (String × Value) → Prop
  | nil : EntriesShow [] []
  | cons {key : String} {t : JsonTree} {v : Value} {entries : List (String × JsonTree)}
      {shown : List (String × Value)} (ht : Shows t v) (hrest : EntriesShow entries shown) :
      EntriesShow ((key, t) :: entries) ((key, v) :: shown)

end

end JsonTree

/-! ## Reading them -/

namespace Direct

/-- The record that an entry is read as. -/
def entryRecord (e : String × Value) : Value :=
  .record "jsonObjectValue" [("key", .string e.1), ("value", e.2)]

/-- Entries are put in as they come, so the last of a key stays. -/
lemma objectOf_entries (shown : List (String × Value)) :
    Decoder.objectOf (shown.map entryRecord) = .ok (.map (insertKeys [] shown)) := by
  have hentry : ∀ e, Decoder.entryOf? (entryRecord e) = some e := fun e => rfl
  have hentries : (shown.map entryRecord).mapM Decoder.entryOf? = some shown := by
    induction shown with
    | nil => rfl
    | cons e rest ih => simp [hentry, ih]
  unfold Decoder.objectOf
  rw [hentries]

/-- Where a JSON value or an entry is due, the tag of a form announces its constructor. -/
def AnnouncesJson (s : Schema) (tag : JsonForm → UInt32) : Prop :=
  ∀ form : JsonForm, tag form ≠ Tag.gzipPacked ∧
    ∃ c, Choice.candidate? s (.type form.type) (tag form) = some c ∧
      c.predicate = form.predicate ∧ c.type = form.type ∧ c.fields = form.fields

lemma announcesJson_of_build {b : Builder} {s : Schema} (hb : b.build = .ok s)
    {tag : JsonForm → UInt32} (h : HasJson s tag) : AnnouncesJson s tag := by
  intro form
  obtain ⟨c, hc, hpredicate, hid, htype, hfields⟩ := h.declared form
  have hfound := (Schema.hasDistinctIds_of_build hb).byId?_eq hc
  have hmember : tag form ∈ s.idsOf form.type := by
    obtain ⟨cs, -, -, rfl⟩ := Builder.build_eq_ok.1 hb
    exact (Schema.indexed_laid b.layer cs).member.2 ⟨c, hid ▸ hfound, htype⟩
  have hadmits : (Choice.type form.type).admits s c = true := by
    unfold Schema.idsOf at hmember
    unfold Choice.admits
    cases ht : s.typeDef? form.type with
    | none => simp [ht] at hmember
    | some t => simpa [ht, hid] using hmember
  refine ⟨h.unpacked form, c, ?_, hpredicate, htype, hfields⟩
  rw [← hid]
  exact Option.filter_eq_some_iff.2 ⟨hfound, hadmits⟩

section

variable {s : Schema} {limits : Limits} {levels : ℕ} {c : Constructor}

/-! ### Constructors -/

lemma reads_noFields (words : Words) :
    Reads (fields limits.minRandom (value s limits levels) c [] words) [] [] :=
  reads_pure []

/-- Fields that are always there are read one after the other. -/
lemma reads_always {name : String} {type : TypeExpr} {rest : List Field} {words : Words}
    (htreated : isTreated c name type = false) {w w' : List UInt8} {v : Value}
    {read : List (String × Value)} (hv : Reads (value s limits levels type) w v)
    (hrest : Reads (fields limits.minRandom (value s limits levels) c rest words) w' read) :
    Reads (fields limits.minRandom (value s limits levels) c (JsonForm.always name type :: rest)
      words) (w ++ w') ((name, v) :: read) := by
  have hopen : isOpen words (JsonForm.always name type) = true := rfl
  unfold fields
  rw [if_pos hopen]
  simp only [JsonForm.always, shown_of_untreated htreated, bind_assoc, pure_bind]
  exact reads_bind hv (reads_bind_pure hrest rfl)

/-- The content of a constructor is what its only field holds. -/
lemma reads_content {type : TypeExpr} {w : List UInt8} {v : Value}
    (hfields : c.fields = [JsonForm.always "value" type]) (hform : Plan.formOf c = .content)
    (hv : Reads (value s limits levels type) w v) : Reads (bare s limits (levels + 1) c) w v := by
  have htreated : isTreated c "value" type = false := by simp [isTreated]
  have hread := reads_always htreated hv (reads_noFields (c := c) [])
  rw [List.append_nil, ← hfields] at hread
  unfold bare
  refine reads_bind_pure hread ?_
  rw [hform]
  rfl

/-- An entry is a record of its key and its value. -/
lemma reads_entry {key : String} {w : List UInt8} {v : Value}
    (hfields : c.fields = JsonForm.entry.fields) (hpredicate : c.predicate = "jsonObjectValue")
    (hform : Plan.formOf c = .record) (hkey : IsShort (Text.utf8 key.toList))
    (hv : Reads (value s limits levels (.named JsonForm.valueRef)) w v) :
    Reads (bare s limits (levels + 1) c) (Write.string key ++ w) (entryRecord (key, v)) := by
  have hvalue : isTreated c "value" (.named JsonForm.valueRef) = false := by simp [isTreated]
  have hstring : Reads (value s limits levels (.named ⟨"string", true, false⟩))
      (Write.string key) (.string key) :=
    reads_bind_pure (reads_string hkey) rfl
  have huntreated : isTreated c "key" (.named ⟨"string", true, false⟩) = false := by
    simp [isTreated]
  have hread := reads_always huntreated hstring
    (reads_always hvalue hv (reads_noFields (c := c) []))
  rw [List.append_nil] at hread
  unfold bare construct
  rw [hfields]
  refine reads_bind_pure hread ?_
  rw [hform, hpredicate]
  rfl

section

variable {tag : JsonForm → UInt32} (hjson : AnnouncesJson s tag)

include hjson

/-- Behind its tag, a constructor of JSON is read one level down. -/
lemma reads_form (form : JsonForm) {w : List UInt8} {v : Value}
    (hbare : ∀ c : Constructor, c.predicate = form.predicate → c.fields = form.fields →
      Plan.formOf c = (if form = .entry then .record else .content) →
        Reads (bare s limits levels c) w v) :
    Reads (boxed s limits (levels + 1) (.type form.type)) (Write.uint32 (tag form) ++ w) v := by
  obtain ⟨hunpacked, c, hcandidate, hpredicate, htype, hfields⟩ := hjson form
  have hform : Plan.formOf c = if form = .entry then .record else .content := by
    cases form <;> simp [Plan.formOf, hpredicate, htype, JsonForm.predicate, JsonForm.type,
      JsonForm.valueRef, JsonForm.entryRef, Plan.entryType]
  unfold boxed announced
  refine reads_bind (reads_uint32 _) ?_
  rw [if_neg hunpacked, hcandidate]
  exact hbare c hpredicate hfields hform

/-- A JSON value is read as the content of its constructor. -/
lemma reads_jsonValue (form : JsonForm) (hform : form.type = "JSONValue") {type : TypeExpr}
    (hfields : form.fields = [JsonForm.always "value" type]) {w : List UInt8} {v : Value}
    (hv : Reads (value s limits levels type) w v) :
    Reads (boxed s limits (levels + 2) (.type "JSONValue")) (Write.uint32 (tag form) ++ w) v := by
  have hentry : form ≠ .entry := by
    rintro rfl
    exact absurd hform (by decide)
  rw [← hform]
  refine reads_form hjson form fun c _ hc hcontent => ?_
  rw [if_neg hentry] at hcontent
  exact reads_content (hc.trans hfields) hcontent hv

/-- An entry behind its tag. -/
lemma reads_taggedEntry {key : String} (hkey : IsShort (Text.utf8 key.toList)) {w : List UInt8}
    {v : Value} (hv : Reads (boxed s limits levels (.type "JSONValue")) w v) :
    Reads (boxed s limits (levels + 2) (.type "JSONObjectValue"))
      (Write.uint32 (tag .entry) ++ (Write.string key ++ w)) (entryRecord (key, v)) :=
  reads_form hjson .entry fun _ hpredicate hfields hform =>
    reads_entry hfields hpredicate hform hkey hv

end

/-! ### Trees -/

section

open JsonTree

variable {tag : JsonForm → UInt32}

mutual

/-- By induction on the tree, with two levels for a constructor behind its tag, and one for a
vector. -/
lemma reads_tree (hjson : AnnouncesJson s tag) : (t : JsonTree) → t.Fits → (levels : ℕ) →
    5 * t.height + 2 ≤ levels →
      ∃ v, Shows t v ∧ Reads (boxed s limits levels (.type "JSONValue")) (t.write tag) v
  | .null, _, levels, hlevels => by
      obtain ⟨m, rfl⟩ := Nat.exists_eq_add_of_le' hlevels
      refine ⟨.null, .null, ?_⟩
      rw [write, ← List.append_nil (Write.uint32 _)]
      refine reads_form hjson .null fun c _ hfields hform => ?_
      unfold bare construct
      rw [hfields, hform]
      exact reads_pure _
  | .bool b, _, levels, hlevels => by
      obtain ⟨m, rfl⟩ := Nat.exists_eq_add_of_le' hlevels
      refine ⟨_, .bool b, reads_jsonValue hjson .bool rfl rfl ?_⟩
      exact reads_bind_pure (reads_bool b) rfl
  | .number d, _, levels, hlevels => by
      obtain ⟨m, rfl⟩ := Nat.exists_eq_add_of_le' hlevels
      refine ⟨_, .number d, reads_jsonValue hjson .number rfl rfl ?_⟩
      exact reads_bind_pure (reads_double d) rfl
  | .string t, ht, levels, hlevels => by
      obtain ⟨m, rfl⟩ := Nat.exists_eq_add_of_le' hlevels
      refine ⟨_, .string t, reads_jsonValue hjson .string rfl rfl ?_⟩
      exact reads_bind_pure (reads_string ht) rfl
  | .array items, ht, levels, hlevels => by
      simp only [height] at hlevels
      simp only [Fits] at ht
      obtain ⟨m, rfl⟩ : ∃ m, levels = m + 1 + 2 := ⟨levels - 3, by omega⟩
      obtain ⟨values, hshow, hreads⟩ := reads_items hjson items ht.2 m (by omega)
      have hcount : values.length < 2 ^ 31 := by
        rw [← hreads.length_eq, length_writeItems]
        exact ht.1
      have hvector := reads_boxedVector limits.maxInflated hreads hcount
      exact ⟨_, .array hshow,
        reads_jsonValue hjson .array rfl rfl (reads_bind_pure hvector rfl)⟩
  | .object entries, ht, levels, hlevels => by
      simp only [height] at hlevels
      simp only [Fits] at ht
      obtain ⟨m, rfl⟩ : ∃ m, levels = m + 2 + 1 + 2 := ⟨levels - 5, by omega⟩
      obtain ⟨shown, hshow, hreads⟩ := reads_entries hjson entries ht.2 m (by omega)
      have hcount : (shown.map entryRecord).length < 2 ^ 31 := by
        rw [← hreads.length_eq, length_writeEntries]
        exact ht.1
      have hvector := reads_boxedVector limits.maxInflated hreads hcount
      have hlast : ∀ key, (insertKeys [] shown).lookup key = shown.reverse.lookup key := by
        intro key
        rw [lookup_insertKeys, List.lookup_nil, Option.or_none]
      refine ⟨_, .object hshow (ascending_insertKeys .nil shown) hlast,
        reads_jsonValue hjson .object rfl rfl (reads_bind_pure hvector ?_)⟩
      rw [objectOf_entries]
      rfl

lemma reads_items (hjson : AnnouncesJson s tag) : (items : List JsonTree) → ItemsFit items →
    (levels : ℕ) → 5 * itemsHeight items + 2 ≤ levels → ∃ values, ItemsShow items values ∧
      List.Forall₂ (Reads (boxed s limits levels (.type "JSONValue"))) (writeItems tag items)
        values
  | [], _, _, _ => ⟨[], .nil, .nil⟩
  | t :: rest, h, levels, hlevels => by
      simp only [itemsHeight] at hlevels
      obtain ⟨v, hv, hread⟩ := reads_tree hjson t h.1 levels (by omega)
      obtain ⟨values, hvalues, hreads⟩ := reads_items hjson rest h.2 levels (by omega)
      exact ⟨_, .cons hv hvalues, .cons hread hreads⟩

lemma reads_entries (hjson : AnnouncesJson s tag) : (entries : List (String × JsonTree)) →
    EntriesFit entries → (levels : ℕ) → 5 * entriesHeight entries + 2 ≤ levels →
      ∃ shown, EntriesShow entries shown ∧
        List.Forall₂ (Reads (boxed s limits (levels + 2) (.type "JSONObjectValue")))
          (writeEntries tag entries) (shown.map entryRecord)
  | [], _, _, _ => ⟨[], .nil, .nil⟩
  | (key, t) :: rest, h, levels, hlevels => by
      simp only [entriesHeight] at hlevels
      obtain ⟨v, hv, hread⟩ := reads_tree hjson t h.2.1 levels (by omega)
      obtain ⟨shown, hshown, hreads⟩ := reads_entries hjson rest h.2.2 levels (by omega)
      exact ⟨_, .cons hv hshown, .cons (reads_taggedEntry hjson h.1 hread) hreads⟩

end

end

end

/-- **JSON trees survive their encoding.**  By a schema that has the types of JSON, a decoder that
goes down five levels for each array or object around another, and two more, reads what writes a
tree as its value and ends right behind it. -/
theorem readType_jsonTree {b : Builder} {s : Schema} {limits : Limits} {d : Decoder}
    (hb : b.build = .ok s) (hd : Decoder.ofSchema s limits = .ok d) {tag : JsonForm → UInt32}
    (hjson : HasJson s tag) {t : JsonTree} (ht : t.Fits)
    (hlevels : 5 * t.height + 2 ≤ limits.maxDepth) {c : Cursor} {suffix : List UInt8}
    (hc : c.rest = t.write tag ++ suffix) :
    ∃ v after, d.readType "JSONValue" c = .done v after ∧ t.Shows v ∧ after.buffer = c.buffer ∧
      after.pos = c.pos + (t.write tag).length ∧ after.rest = suffix := by
  have hannounces := announcesJson_of_build hb hjson
  have hholds : c.Holds (t.write tag) := ⟨suffix, hc.symm⟩
  have htype : TypeExpr.read "JSONValue".toList = .ok (.named JsonForm.valueRef) := by
    decide +kernel
  have hknown : isKnown s (TypeExpr.named JsonForm.valueRef).leaf = true := by
    obtain ⟨-, c, hcandidate, -⟩ := hannounces .null
    have hadmits := (Option.filter_eq_some_iff.1 hcandidate).2
    have htypeDef : (s.typeDef? "JSONValue").isSome := by
      unfold Choice.admits at hadmits
      obtain ⟨t, ht, -⟩ := (Option.any_eq_true _ _).1 hadmits
      exact Option.isSome_iff_exists.2 ⟨t, ht⟩
    simpa [isKnown, TypeExpr.leaf, JsonForm.valueRef] using .inr htypeDef
  obtain ⟨v, hv, hread⟩ : ∃ v, t.Shows v ∧
      Reads (value s limits limits.maxDepth (.named JsonForm.valueRef)) (t.write tag) v :=
    reads_tree hannounces t ht limits.maxDepth hlevels
  refine ⟨v, c.advance _ hholds.length_le, ?_, hv, rfl, rfl, ?_⟩
  · rw [(Decoder.eq_direct_of_build hb hd).2]
    simp only [readType, htype, hknown, if_true]
    exact hread c hholds
  · rw [Cursor.rest_advance, hc, List.drop_left]

/-! ### An object with a repeated key -/

section

/-- The types of JSON, each constructor on a line. -/
def jsonLines : List String :=
  ["jsonNull#3f6d7b68 = JSONValue;",
    "jsonBool#c7345e6a value:Bool = JSONValue;",
    "jsonNumber#2be0dfa4 value:double = JSONValue;",
    "jsonString#b71e767a value:string = JSONValue;",
    "jsonArray#f7444763 value:Vector<JSONValue> = JSONValue;",
    "jsonObject#99c1d49d value:Vector<JSONObjectValue> = JSONValue;",
    "jsonObjectValue#c0de1bd9 key:string value:JSONValue = JSONObjectValue;"]

/-- A builder that was given them. -/
def jsonTypes : Builder :=
  (Builder.empty.addSource (jsonLines.flatMap fun line => line.toList ++ ['\n']) .api).1

/-- Their tags. -/
def jsonTag : JsonForm → UInt32
  | .null => 0x3F6D7B68
  | .bool => 0xC7345E6A
  | .number => 0x2BE0DFA4
  | .string => 0xB71E767A
  | .array => 0xF7444763
  | .object => 0x99C1D49D
  | .entry => 0xC0DE1BD9

/-- The key `k` twice, first with a number. -/
def repeatedKey : JsonTree :=
  .object [("k", .number ⟨0⟩), ("a", .array [.null, .bool true]), ("k", .string "s")]

/-- Just the levels that the object needs. -/
def twelveLevels : Limits :=
  { maxDepth := 12 }

lemma exists_jsonTypes : ∃ s d, jsonTypes.build = .ok s ∧
    Decoder.ofSchema s twelveLevels = .ok d ∧ HasJson s jsonTag := by
  have hall : (jsonTypes.build.toOption.any fun s =>
      (Decoder.ofSchema s twelveLevels).toOption.isSome &&
        [JsonForm.null, .bool, .number, .string, .array, .object, .entry].all fun form =>
          s.constructors.contains ⟨form.predicate, jsonTag form, form.type, form.fields, true⟩) =
            true := by
    decide +kernel
  obtain ⟨s, hs, hall⟩ := (Option.any_eq_true _ _).1 hall
  obtain ⟨hd, hforms⟩ := Bool.and_eq_true_iff.1 hall
  obtain ⟨d, hd⟩ := Option.isSome_iff_exists.1 hd
  refine ⟨s, d, eq_ok_of_toOption hs, eq_ok_of_toOption hd, fun form => ?_, fun form => ?_⟩
  · have hmem := List.all_eq_true.1 hforms form (by cases form <;> decide)
    exact ⟨_, List.contains_iff_mem.1 hmem, rfl, rfl, rfl, rfl⟩
  · cases form <;> decide

theorem repeatedKey_read : ∃ s d v after, jsonTypes.build = .ok s ∧
    Decoder.ofSchema s twelveLevels = .ok d ∧ HasJson s jsonTag ∧ repeatedKey.Fits ∧
      5 * repeatedKey.height + 2 = 12 ∧
      d.readType "JSONValue" (.start (repeatedKey.write jsonTag ++ [9])) = .done v after ∧
        repeatedKey.Shows v ∧ after.rest = [9] := by
  obtain ⟨s, d, hs, hd, hjson⟩ := exists_jsonTypes
  have hfits : repeatedKey.Fits := by
    simp only [repeatedKey, JsonTree.Fits, JsonTree.EntriesFit, JsonTree.ItemsFit]
    decide
  obtain ⟨v, after, hread, hshows, -, -, hrest⟩ := readType_jsonTree hs hd hjson hfits
    (le_refl 12) (Cursor.rest_start (repeatedKey.write jsonTag ++ [9]))
  exact ⟨s, d, v, after, hs, hd, hjson, hfits, rfl, hread, hshows, hrest⟩

end

end Direct

end TypeLang
