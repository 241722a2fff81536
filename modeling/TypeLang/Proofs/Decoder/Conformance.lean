import TypeLang.Proofs.Decoder.Meaning
import TypeLang.Proofs.Wire.Written

/-!
# What has a type

`Conforms` says by the schema alone what the octets of a type hold, and which value stands for them.
Its cases are those of the wire: a tag announces a constructor that may stand there, or an envelope
around octets that again hold such a constructor; a vector shows as many elements as its count says;
a constructor shows its fields in order, each behind the gate of its own.

Octets are part of the relation down to the primitive types, since the count of a vector, a flag
word and the content of an envelope are nowhere in a value: what stands in front of them must be
known to take the octets that it does, or they would be looked for elsewhere.

## Parts

* primitive types and treated fields, without recursion, and that these are read as they are held;
* the relation itself, with one predicate for each thing that the wire holds;
* `Fields.names_eq`, which fields a constructor shows.
-/

namespace TypeLang.Direct

open Wire

/-! ## Values without recursion -/

/-- The octets hold a value of a primitive type. -/
inductive HoldsPrimitive : String → List UInt8 → Value → Prop
  | int (n : Int32) : HoldsPrimitive "int" (Write.int32 n) (.int n)
  | word (n : Int32) : HoldsPrimitive "#" (Write.int32 n) (.int n)
  | long (n : Int64) : HoldsPrimitive "long" (Write.int64 n) (.long n)
  | double (d : Double) : HoldsPrimitive "double" (Write.double d) (.double d)
  | bool (b : Bool) : HoldsPrimitive "Bool" (Write.bool b) (.bool b)
  | string {t : String} {w : List UInt8} (h : IsOctetString (Text.utf8 t.toList) w) :
      HoldsPrimitive "string" w (.string t)
  | bytes {content w : List UInt8} (h : IsOctetString content w) :
      HoldsPrimitive "bytes" w (.bytes content)
  | int128 {content : List UInt8} (h : content.length = 16) :
      HoldsPrimitive "int128" content (.bytes content)
  | int256 {content : List UInt8} (h : content.length = 32) :
      HoldsPrimitive "int256" content (.bytes content)
  | int512 {content : List UInt8} (h : content.length = 64) :
      HoldsPrimitive "int512" content (.bytes content)
  | strlong {content : List UInt8} (h : content.length = 8) :
      HoldsPrimitive "strlong" content (.bytes content)

lemma reads_primitive {name : String} {w : List UInt8} {v : Value} (h : HoldsPrimitive name w v) :
    ∃ read, primitive? name = some read ∧ Reads read w v := by
  cases h with
  | int n => exact ⟨_, rfl, reads_bind_pure (reads_int32 n) rfl⟩
  | word n => exact ⟨_, rfl, reads_bind_pure (reads_int32 n) rfl⟩
  | long n => exact ⟨_, rfl, reads_bind_pure (reads_int64 n) rfl⟩
  | double d => exact ⟨_, rfl, reads_bind_pure (reads_double d) rfl⟩
  | bool b => exact ⟨_, rfl, reads_bind_pure (reads_bool b) rfl⟩
  | string h => exact ⟨_, rfl, reads_bind_pure (reads_text h) rfl⟩
  | bytes h => exact ⟨_, rfl, reads_bind_pure (reads_octetString h) rfl⟩
  | int128 h => exact ⟨_, rfl, reads_bind_pure (h ▸ reads_take w) rfl⟩
  | int256 h => exact ⟨_, rfl, reads_bind_pure (h ▸ reads_take w) rfl⟩
  | int512 h => exact ⟨_, rfl, reads_bind_pure (h ▸ reads_take w) rfl⟩
  | strlong h => exact ⟨_, rfl, reads_bind_pure (h ▸ reads_take w) rfl⟩

lemma yields_primitive {name : String} {read : Reader Value} (h : primitive? name = some read) :
    Yields read (HoldsPrimitive name) := by
  unfold primitive? at h
  split at h <;> cases h
  · exact yields_bind_pure yields_int32 fun _ n hw => hw ▸ .int n
  · exact yields_bind_pure yields_int32 fun _ n hw => hw ▸ .word n
  · exact yields_bind_pure yields_int64 fun _ n hw => hw ▸ .long n
  · exact yields_bind_pure yields_double fun _ d hw => hw ▸ .double d
  · exact yields_bind_pure yields_bool fun _ b hw => hw ▸ .bool b
  · exact yields_bind_pure yields_string fun _ _ hw => .string hw
  · exact yields_bind_pure yields_bytes fun _ _ hw => .bytes hw
  · exact yields_bind_pure (yields_take 16) fun _ _ hw => hw.1 ▸ .int128 hw.2
  · exact yields_bind_pure (yields_take 32) fun _ _ hw => hw.1 ▸ .int256 hw.2
  · exact yields_bind_pure (yields_take 64) fun _ _ hw => hw.1 ▸ .int512 hw.2
  · exact yields_bind_pure (yields_take 8) fun _ _ hw => hw.1 ▸ .strlong hw.2

/-- The octets hold an octet string that is shown otherwise: nothing of random octets, of which
there have to be enough, the samples of a waveform, and a stripped picture with what was stripped of
it, under another name. -/
inductive Treated (minRandom : ℕ) (c : Constructor) :
    String → List UInt8 → Option (String × Value) → Prop
  | random {content w : List UInt8} (hleast : minRandom ≤ content.length)
      (h : IsOctetString content w) : Treated minRandom c "random_bytes" w none
  | waveform {content w : List UInt8} (h : IsOctetString content w) :
      Treated minRandom c "waveform" w (some ("waveform",
        .vector ((Content.Waveform.samples content).map fun n => .int (Int32.ofNat n))))
  | picture {content w : List UInt8} (hpicture : c.predicate = "photoStrippedSize")
      (h : IsOctetString content w) : Treated minRandom c "bytes" w
        (some ("inflated", .bytes (Content.Thumbnail.restore content)))

section

variable {minRandom : ℕ} {value : TypeExpr → Reader Value} {c : Constructor} {name : String}
  {type : TypeExpr}

lemma isOctets_of_isTreated (h : isTreated c name type = true) : Plan.isOctets type = true :=
  (Bool.and_eq_true _ _ ▸ h).1

lemma reads_treated {w : List UInt8} {kept? : Option (String × Value)}
    (hoctets : Plan.isOctets type = true) (h : Treated minRandom c name w kept?) :
    Reads (shown minRandom value c name type) w kept? := by
  unfold shown
  simp only [hoctets, Bool.true_and]
  cases h with
  | random hleast h => exact reads_bind_pure (reads_randomBytes hleast h) rfl
  | waveform h => exact reads_bind_pure (reads_octetString h) rfl
  | picture hpicture h =>
      rw [if_neg (by decide), if_neg (by decide), if_pos (by simp [hpicture])]
      exact reads_bind_pure (reads_octetString h) rfl

/-- A treated field is read as octets, whatever its type. -/
lemma yields_treated (h : isTreated c name type = true) :
    Yields (shown minRandom value c name type) (Treated minRandom c name) := by
  have hoctets := isOctets_of_isTreated h
  unfold isTreated at h
  unfold shown
  simp only [hoctets, Bool.true_and, beq_iff_eq] at h ⊢
  refine yields_ite (fun hname => ?_) fun hrandom => ?_
  · subst hname
    refine yields_bind_pure (yields_randomBytes minRandom) fun w _ hw => ?_
    obtain ⟨content, hleast, hw⟩ := hw
    exact .random hleast hw
  refine yields_ite (fun hname => ?_) fun hwaveform => ?_
  · subst hname
    exact yields_bind_pure yields_bytes fun w content hw => .waveform hw
  · simp only [beq_false_of_ne hrandom, beq_false_of_ne hwaveform, Bool.false_or,
      Bool.and_eq_true, beq_iff_eq] at h
    rw [if_pos (by simp [h])]
    obtain ⟨hpicture, rfl⟩ := h
    exact yields_bind_pure yields_bytes fun w content hw => .picture hpicture hw

end

/-! ## Conformance -/

section

variable (s : Schema) (limits : Limits)

mutual

/-- The octets hold a value of a type expression. -/
inductive Conforms : TypeExpr → List UInt8 → Value → Prop
  | primitive {r : TypeRef} {name : String} {w : List UInt8} {v : Value}
      (hr : meaning s r = .primitive name) (hv : HoldsPrimitive name w v) : Conforms (.named r) w v
  | tagged {r : TypeRef} {choice : Choice} {w : List UInt8} {v : Value}
      (hr : meaning s r = .tagged choice) (hv : Announced choice w v) : Conforms (.named r) w v
  | bare {r : TypeRef} {c : Constructor} {w : List UInt8} {v : Value}
      (hr : meaning s r = .bare c) (hv : Built c w v) : Conforms (.named r) w v
  | vector {boxed : Bool} {elem : TypeExpr} {w : List UInt8} {items : List Value}
      (helem : Plan.isEntry elem = false) (hrow : Row boxed elem w items) :
      Conforms (.vector boxed elem) w (.vector items)
  | entries {boxed : Bool} {elem : TypeExpr} {w : List UInt8} {items : List Value}
      {entries : List (String × Value)} (helem : Plan.isEntry elem = true)
      (hrow : Row boxed elem w items) (hentries : items.mapM Decoder.entryOf? = some entries) :
      Conforms (.vector boxed elem) w (.map (insertKeys [] entries))

/-- The octets hold the elements of a vector, after as many as their number says. -/
inductive Row : Bool → TypeExpr → List UInt8 → List Value → Prop
  | bare {elem : TypeExpr} {w : List UInt8} {items : List Value}
      (hcount : items.length < 2 ^ 31) (helems : Elements elem w items) :
      Row false elem (littleEndian 4 items.length ++ w) items
  | boxed {elem : TypeExpr} {w : List UInt8} {items : List Value} (hrow : Row false elem w items) :
      Row true elem (Write.uint32 Tag.vector ++ w) items
  | envelope {elem : TypeExpr} {w octets w' : List UInt8} {items : List Value}
      (hopened : IsPacked limits.maxInflated octets w)
      (hwithin : Write.uint32 Tag.vector ++ w' <+: octets) (hrow : Row false elem w' items) :
      Row true elem (Write.uint32 Tag.gzipPacked ++ w) items

/-- The octets hold values of a type expression one after another. -/
inductive Elements : TypeExpr → List UInt8 → List Value → Prop
  | nil {elem : TypeExpr} : Elements elem [] []
  | cons {elem : TypeExpr} {w w' : List UInt8} {v : Value} {items : List Value}
      (hv : Conforms elem w v) (helems : Elements elem w' items) :
      Elements elem (w ++ w') (v :: items)

/-- The octets hold a tag and the constructor of a choice that it announces, or an envelope around
such octets. -/
inductive Announced : Choice → List UInt8 → Value → Prop
  | constructor {choice : Choice} {c : Constructor} {w : List UInt8} {v : Value}
      (hc : c ∈ s.constructors) (hadmits : choice.admits s c = true) (hid : c.id ≠ Tag.gzipPacked)
      (hv : Built c w v) : Announced choice (Write.uint32 c.id ++ w) v
  | envelope {choice : Choice} {w octets w' : List UInt8} {v : Value}
      (hopened : IsPacked limits.maxInflated octets w) (hwithin : w' <+: octets)
      (hv : Announced choice w' v) : Announced choice (Write.uint32 Tag.gzipPacked ++ w) v

/-- The octets hold the fields of a constructor, and these make the value. -/
inductive Built : Constructor → List UInt8 → Value → Prop
  | record {c : Constructor} {words : String → UInt32} {w : List UInt8}
      {entries : List (String × Value)} (hform : Plan.formOf c = .record)
      (hfields : Fields c words [] c.fields w entries) : Built c w (.record c.predicate entries)
  | shaped {c : Constructor} {words : String → UInt32} {w : List UInt8}
      {entries : List (String × Value)} {v : Value} (hform : Plan.formOf c ≠ .record)
      (hfields : Fields c words [] c.fields w entries)
      (hv : Decoder.assemble c.predicate (Plan.formOf c) entries = .ok v) : Built c w v

/-- The octets hold fields behind flag words of some names, and the entries are shown of them.  The
first flag word of a name holds the value that the name is assigned, or zero if it is not there. -/
inductive Fields : Constructor → (String → UInt32) → List String → List Field → List UInt8 →
    List (String × Value) → Prop
  | nil {c : Constructor} {words : String → UInt32} {names : List String} :
      Fields c words names [] [] []
  | absent {c : Constructor} {words : String → UInt32} {names : List String} {f : Field}
      {rest : List Field} {w : List UInt8} {entries : List (String × Value)}
      (hgate : isPresent words f = false)
      (hword : f.kind = .flagWord → f.name ∉ names → words f.name = 0)
      (hrest : Fields c words (wordsUpTo names f) rest w entries) :
      Fields c words names (f :: rest) w entries
  | flagWord {c : Constructor} {words : String → UInt32} {names : List String} {f : Field}
      {rest : List Field} {word : UInt32} {w : List UInt8} {entries : List (String × Value)}
      (hgate : isPresent words f = true) (hkind : f.kind = .flagWord)
      (hword : f.name ∉ names → words f.name = word)
      (hrest : Fields c words (names ++ [f.name]) rest w entries) :
      Fields c words names (f :: rest) (Write.uint32 word ++ w) entries
  | presence {c : Constructor} {words : String → UInt32} {names : List String} {f : Field}
      {rest : List Field} {w : List UInt8} {entries : List (String × Value)}
      (hgate : isPresent words f = true) (hkind : f.kind = .presence)
      (hrest : Fields c words names rest w entries) :
      Fields c words names (f :: rest) w ((f.name, .bool true) :: entries)
  | treated {c : Constructor} {words : String → UInt32} {names : List String} {f : Field}
      {type : TypeExpr} {rest : List Field} {w w' : List UInt8}
      {kept? : Option (String × Value)} {entries : List (String × Value)}
      (hgate : isPresent words f = true) (hkind : f.kind = .value type)
      (htreated : isTreated c f.name type = true)
      (hentry : Treated limits.minRandom c f.name w kept?)
      (hrest : Fields c words names rest w' entries) :
      Fields c words names (f :: rest) (w ++ w') (kept?.toList ++ entries)
  | value {c : Constructor} {words : String → UInt32} {names : List String} {f : Field}
      {type : TypeExpr} {rest : List Field} {w w' : List UInt8} {v : Value}
      {entries : List (String × Value)} (hgate : isPresent words f = true)
      (hkind : f.kind = .value type) (htreated : isTreated c f.name type = false)
      (hv : Conforms type w v) (hrest : Fields c words names rest w' entries) :
      Fields c words names (f :: rest) (w ++ w') ((f.name, v) :: entries)

end

end

variable {s : Schema} {limits : Limits}

/-! ## Which fields are shown -/

/-- Whether a field is ever shown. -/
def isShown (f : Field) : Bool :=
  match f.kind with
  | .flagWord => false
  | .presence => true
  | .value type => !(Plan.isOctets type && f.name == "random_bytes")

/-- The name under which a field is shown. -/
def shownName (c : Constructor) (f : Field) : String :=
  match f.kind with
  | .value type =>
    if Plan.isOctets type && c.predicate == "photoStrippedSize" && f.name == "bytes" then "inflated"
    else f.name
  | _ => f.name

lemma Treated.name_eq {minRandom : ℕ} {c : Constructor} {f : Field} {type : TypeExpr}
    {w : List UInt8} {kept? : Option (String × Value)} (hkind : f.kind = .value type)
    (htreated : isTreated c f.name type = true) (h : Treated minRandom c f.name w kept?) :
    kept?.toList.map (·.1) = if isShown f then [shownName c f] else [] := by
  have hoctets := isOctets_of_isTreated htreated
  unfold isShown shownName
  simp only [hkind, hoctets, Bool.true_and]
  generalize f.name = name at h
  cases h with
  | random hleast h => rfl
  | waveform h => simp
  | picture hpicture h => simp [hpicture]

lemma name_of_untreated {c : Constructor} {f : Field} {type : TypeExpr}
    (hkind : f.kind = .value type) (htreated : isTreated c f.name type = false) :
    isShown f = true ∧ shownName c f = f.name := by
  unfold isTreated at htreated
  unfold isShown shownName
  simp only [hkind]
  cases hoctets : Plan.isOctets type <;> simp_all

/-- A constructor shows those of its fields that are there, in the order of the schema; flag words
and random octets are left out.  So a field without a gate is never missing, and fields behind the
same bit are there together or not at all. -/
theorem Fields.names_eq {c : Constructor} {words : String → UInt32} {names : List String}
    {fs : List Field} {w : List UInt8} {entries : List (String × Value)} :
    Fields s limits c words names fs w entries →
      entries.map (·.1) = (fs.filter fun f => isShown f && isPresent words f).map (shownName c)
  | .nil => rfl
  | .absent hgate hword hrest => by
      rw [hrest.names_eq, List.filter_cons, hgate, Bool.and_false, if_neg Bool.false_ne_true]
  | .flagWord (f := f) hgate hkind hword hrest => by
      have hshown : isShown f = false := by simp [isShown, hkind]
      rw [hrest.names_eq, List.filter_cons, hshown, Bool.false_and, if_neg Bool.false_ne_true]
  | .presence (f := f) hgate hkind hrest => by
      have hshown : isShown f = true := by simp [isShown, hkind]
      have hname : shownName c f = f.name := by simp [shownName, hkind]
      rw [List.map_cons, hrest.names_eq, List.filter_cons, hgate, hshown, Bool.and_true,
        if_pos rfl, List.map_cons, hname]
  | .treated (f := f) hgate hkind htreated hentry hrest => by
      rw [List.map_append, hentry.name_eq hkind htreated, hrest.names_eq, List.filter_cons, hgate,
        Bool.and_true]
      cases isShown f <;> rfl
  | .value hgate hkind htreated hv hrest => by
      obtain ⟨hshown, hname⟩ := name_of_untreated hkind htreated
      rw [List.map_cons, hrest.names_eq, List.filter_cons, hgate, hshown, Bool.and_true,
        if_pos rfl, List.map_cons, hname]

end TypeLang.Direct
