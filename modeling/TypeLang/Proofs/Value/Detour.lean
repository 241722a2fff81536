import TypeLang.Proofs.Number.Double
import TypeLang.Proofs.Value.Lookup

/-!
# JSON trees on a detour through values

A JSON tree may be taken for a value and the value shown as JSON again.  Arrays keep their items in
order and objects their keys, so all that may change are numbers, and of these only the whole
numbers above the signed 64-bit range: they are taken for doubles, and a double is shown as one.
Whatever changes, the value does not, so a second detour changes nothing more.
-/

namespace TypeLang

/-! ## Trees inside trees -/

namespace Json

/-- A tree stands somewhere in another. -/
inductive Holds : Json → Json → Prop
  | self (j : Json) : Holds j j
  | item {items : List Json} {j k : Json} (hj : j ∈ items) (h : Holds j k) :
      Holds (.array items) k
  | entry {entries : List (String × Json)} {e : String × Json} {k : Json} (he : e ∈ entries)
      (h : Holds e.2 k) : Holds (.object entries) k

/-- Whether a tree is neither an array nor an object. -/
def isScalar : Json → Bool
  | array _ | object _ => false
  | null | bool _ | integer _ | double _ | string _ => true

lemma holds_of_isScalar {j k : Json} (hj : j.isScalar = true) : j.Holds k ↔ k = j := by
  constructor
  · intro h
    cases h with
    | self => rfl
    | item _ _ => cases hj
    | entry _ _ => cases hj
  · rintro rfl
    exact .self k

lemma holds_array {items : List Json} {k : Json} (hk : k.isScalar = true) :
    (array items).Holds k ↔ ∃ j ∈ items, j.Holds k := by
  constructor
  · intro h
    cases h with
    | self => cases hk
    | item hj h => exact ⟨_, hj, h⟩
  · rintro ⟨j, hj, h⟩
    exact .item hj h

lemma holds_object {entries : List (String × Json)} {k : Json} (hk : k.isScalar = true) :
    (object entries).Holds k ↔ ∃ e ∈ entries, e.2.Holds k := by
  constructor
  · intro h
    cases h with
    | self => cases hk
    | entry he h => exact ⟨_, he, h⟩
  · rintro ⟨e, he, h⟩
    exact .entry he h

/-- What holds of scalars, of arrays with their items, and of objects with their entries, holds of
all trees. -/
@[elab_as_elim]
theorem byParts {P : Json → Prop} (scalar : ∀ j : Json, j.isScalar = true → P j)
    (array : ∀ items, (∀ j ∈ items, P j) → P (.array items))
    (object : ∀ entries : List (String × Json), (∀ e ∈ entries, P e.2) → P (.object entries)) :
    (j : Json) → P j
  | .null => scalar .null rfl
  | .bool b => scalar (.bool b) rfl
  | .integer n => scalar (.integer n) rfl
  | .double d => scalar (.double d) rfl
  | .string s => scalar (.string s) rfl
  | .array items => array items fun j _ => byParts scalar array object j
  | .object entries => object entries fun e _ => byParts scalar array object e.2
termination_by j => sizeOf j
decreasing_by
  · rename_i hj
    have hsize := List.sizeOf_lt_of_mem hj
    simp only [Json.array.sizeOf_spec]
    omega
  · rename_i he
    have hsize := List.sizeOf_lt_of_mem he
    have hentry : sizeOf e = 1 + sizeOf e.1 + sizeOf e.2 := rfl
    simp only [Json.object.sizeOf_spec]
    omega

/-! ## Numbers in trees -/

/-- The whole numbers in a tree are those of 64 bits, signed or unsigned, and all other numbers are
finite doubles. -/
structure HasOrdinaryNumbers (j : Json) : Prop where
  integers : ∀ n, j.Holds (.integer n) → Int64.minValue.toInt ≤ n ∧ n < 2 ^ 64
  doubles : ∀ d, j.Holds (.double d) → d.isFinite = true

lemma HasOrdinaryNumbers.item {items : List Json} (h : (array items).HasOrdinaryNumbers) :
    ∀ j ∈ items, j.HasOrdinaryNumbers := by
  intro j hj
  exact ⟨fun n hn => h.integers n (.item hj hn), fun d hd => h.doubles d (.item hj hd)⟩

lemma HasOrdinaryNumbers.entry {entries : List (String × Json)}
    (h : (object entries).HasOrdinaryNumbers) : ∀ e ∈ entries, e.2.HasOrdinaryNumbers := by
  intro e he
  exact ⟨fun n hn => h.integers n (.entry he hn), fun d hd => h.doubles d (.entry he hd)⟩

/-- No whole number in a tree is above the signed 64-bit range. -/
def IsSigned (j : Json) : Prop :=
  ∀ n, j.Holds (.integer n) → n ≤ Int64.maxValue.toInt

lemma isSigned_array {items : List Json} :
    (array items).IsSigned ↔ ∀ j ∈ items, j.IsSigned := by
  unfold IsSigned
  simp only [holds_array (show isScalar (.integer _) = true from rfl)]
  exact ⟨fun h j hj n hn => h n ⟨j, hj, hn⟩, fun h n ⟨j, hj, hn⟩ => h j hj n hn⟩

lemma isSigned_object {entries : List (String × Json)} :
    (object entries).IsSigned ↔ ∀ e ∈ entries, e.2.IsSigned := by
  unfold IsSigned
  simp only [holds_object (show isScalar (.integer _) = true from rfl)]
  exact ⟨fun h e he n hn => h n ⟨e, he, hn⟩, fun h n ⟨e, he, hn⟩ => h e he n hn⟩

lemma isSigned_integer {n : ℤ} : (integer n).IsSigned ↔ n ≤ Int64.maxValue.toInt := by
  constructor
  · intro h
    exact h n (.self _)
  · intro h m hm
    obtain ⟨rfl⟩ := (holds_of_isScalar rfl).1 hm
    exact h

/-- A scalar that is no whole number. -/
lemma isSigned_of_isScalar {j : Json} (hj : j.isScalar = true) (hne : ∀ n, j ≠ .integer n) :
    j.IsSigned := by
  intro n hn
  exact absurd ((holds_of_isScalar hj).1 hn).symm (hne n)

end Json

/-! ## The detour -/

namespace Value

lemma ofInteger_of_lt {n : ℤ} (h : Int64.maxValue.toInt < n) :
    ofInteger n = .double (Double.ofNat n.natAbs) := by
  have hpos : 0 < n := lt_trans (by decide) h
  rw [ofInteger, if_neg (fun hfits => absurd hfits.2 (not_le.2 h)), if_neg (not_lt.2 hpos.le)]

end Value

namespace Json

/-- A tree that is taken for a value and shown as JSON again. -/
def detour (j : Json) : Json :=
  (Value.ofJson j).toJson

lemma detour_array (items : List Json) : (array items).detour = .array (items.map detour) := by
  show Json.array (Value.itemsToJson (Value.itemsOfJson items)) = _
  rw [Value.itemsOfJson_eq_map, Value.itemsToJson_eq_map, List.map_map]
  rfl

lemma detour_object (entries : List (String × Json)) :
    (object entries).detour = .object (entries.map fun e => (e.1, e.2.detour)) := by
  show Json.object (Value.entriesToJson (Value.entriesOfJson entries)) = _
  rw [Value.entriesOfJson_eq_map, Value.entriesToJson_eq_map, List.map_map]
  rfl

lemma detour_double {d : Double} (h : d.isFinite = true) : (double d).detour = .double d := by
  show Value.doubleToJson d = _
  rw [Value.doubleToJson, if_pos h]

lemma detour_integer {n : ℤ} (hmin : Int64.minValue.toInt ≤ n) (hmax : n ≤ Int64.maxValue.toInt) :
    (integer n).detour = .integer n := by
  have hvalue : Value.ofJson (.integer n) = .long (Int64.ofInt n) := by
    show Value.ofInteger n = _
    rw [Value.ofInteger, if_pos ⟨hmin, hmax⟩]
  have hkept : (Int64.ofInt n).toInt = n := Int64.toInt_ofInt_of_le hmin (Int.lt_add_one_of_le hmax)
  unfold detour
  rw [hvalue, Value.toJson, hkept]

/-- A whole number above the range is taken for the nearest double, and shown as one. -/
lemma detour_integer_of_lt {n : ℤ} (hmax : Int64.maxValue.toInt < n) (hn : n < 2 ^ 64) :
    (integer n).detour = .double (Double.ofNat n.natAbs) := by
  have hpos : 0 < n := lt_trans (by decide) hmax
  have hvalue : Value.ofJson (.integer n) = .double (Double.ofNat n.natAbs) :=
    Value.ofInteger_of_lt hmax
  have hsmall : n.natAbs < 2 ^ 64 := by omega
  unfold detour
  rw [hvalue]
  exact detour_double (Double.isFinite_ofNat hsmall (by decide))

/-- By the tree: a number that has become a double stays that double. -/
lemma ofJson_detour {j : Json} (hj : j.HasOrdinaryNumbers) :
    Value.ofJson j.detour = Value.ofJson j := by
  induction j using byParts with
  | scalar j hscalar =>
      cases j with
      | null => rfl
      | bool b => rfl
      | string s => rfl
      | double d => rw [detour_double (hj.doubles d (.self _))]
      | integer n =>
          obtain ⟨hmin, hn⟩ := hj.integers n (.self _)
          rcases le_or_gt n Int64.maxValue.toInt with hmax | hmax
          · rw [detour_integer hmin hmax]
          · rw [detour_integer_of_lt hmax hn]
            exact (Value.ofInteger_of_lt hmax).symm
      | array items => cases hscalar
      | object entries => cases hscalar
  | array items ih =>
      rw [detour_array]
      show Value.vector _ = Value.vector _
      rw [Value.itemsOfJson_eq_map, Value.itemsOfJson_eq_map, List.map_map]
      exact congrArg Value.vector (List.map_congr_left fun j h => ih j h (hj.item j h))
  | object entries ih =>
      rw [detour_object]
      show Value.map _ = Value.map _
      rw [Value.entriesOfJson_eq_map, Value.entriesOfJson_eq_map, List.map_map]
      refine congrArg Value.map (List.map_congr_left fun e h => ?_)
      exact Prod.ext rfl (ih e h (hj.entry e h))

lemma map_eq_self_iff {α : Type} {l : List α} {f : α → α} : l.map f = l ↔ ∀ a ∈ l, f a = a := by
  simpa using List.map_inj_left (l := l) (f := f) (g := id)

/-- By the tree: what comes back is the tree itself, unless a number in it has become a double. -/
lemma detour_eq_iff {j : Json} (hj : j.HasOrdinaryNumbers) : j.detour = j ↔ j.IsSigned := by
  induction j using byParts with
  | scalar j hscalar =>
      cases j with
      | null => exact iff_of_true rfl (isSigned_of_isScalar rfl nofun)
      | bool b => exact iff_of_true rfl (isSigned_of_isScalar rfl nofun)
      | string s => exact iff_of_true rfl (isSigned_of_isScalar rfl nofun)
      | double d =>
          have hkept := detour_double (hj.doubles d (.self _))
          exact iff_of_true hkept (isSigned_of_isScalar rfl nofun)
      | integer n =>
          obtain ⟨hmin, hn⟩ := hj.integers n (.self _)
          rw [isSigned_integer]
          rcases le_or_gt n Int64.maxValue.toInt with hmax | hmax
          · exact iff_of_true (detour_integer hmin hmax) hmax
          · rw [detour_integer_of_lt hmax hn]
            exact iff_of_false nofun (not_le.2 hmax)
      | array items => cases hscalar
      | object entries => cases hscalar
  | array items ih =>
      rw [detour_array, isSigned_array, Json.array.injEq]
      constructor
      · intro h j hmem
        exact (ih j hmem (hj.item j hmem)).1 (map_eq_self_iff.1 h j hmem)
      · intro h
        exact map_eq_self_iff.2 fun j hmem => (ih j hmem (hj.item j hmem)).2 (h j hmem)
  | object entries ih =>
      rw [detour_object, isSigned_object, Json.object.injEq]
      constructor
      · intro h e hmem
        have hsame := map_eq_self_iff.1 h e hmem
        exact (ih e hmem (hj.entry e hmem)).1 (congrArg Prod.snd hsame)
      · intro h
        refine map_eq_self_iff.2 fun e hmem => ?_
        exact Prod.ext rfl ((ih e hmem (hj.entry e hmem)).2 (h e hmem))

/-- How a tree comes back from its detour. -/
structure Survives (j : Json) : Prop where
  /-- It is taken for the same value again, -/
  value_eq : Value.ofJson j.detour = Value.ofJson j
  /-- and it is the same tree exactly if no number in it is above the signed 64-bit range. -/
  eq_iff : j.detour = j ↔ j.IsSigned
  /-- Its arrays keep their items, in order, -/
  items : ∀ items, j.Holds (.array items) → (array items).detour = .array (items.map detour)
  /-- and its objects their entries, each under its key. -/
  entries : ∀ entries, j.Holds (.object entries) →
    (object entries).detour = .object (entries.map fun e => (e.1, e.2.detour))

/-- **JSON trees survive a detour through values.**  A tree of numbers of 64 bits comes back as one
that is taken for the same value; it is the same tree unless a whole number in it is too large to be
signed; and no array and no object in it loses anything. -/
theorem survives_of_hasOrdinaryNumbers {j : Json} (hj : j.HasOrdinaryNumbers) : j.Survives := by
  constructor
  case value_eq => exact ofJson_detour hj
  case eq_iff => exact detour_eq_iff hj
  case items => exact fun items _ => detour_array items
  case entries => exact fun entries _ => detour_object entries

/-- Numbers on both sides of the end of the range, in an array under a key. -/
def edgeNumbers : Json :=
  .object [("big", .array [.integer (2 ^ 63 - 1), .integer (2 ^ 63), .null]),
    ("half", .double ⟨0x3FE0000000000000⟩)]

lemma edgeNumbers_holds {k : Json} (hk : k.isScalar = true) : edgeNumbers.Holds k ↔
    k ∈ [.integer (2 ^ 63 - 1), .integer (2 ^ 63), .null, .double ⟨0x3FE0000000000000⟩] := by
  simp [edgeNumbers, holds_object hk, holds_array hk,
    holds_of_isScalar (show isScalar null = true from rfl),
    holds_of_isScalar (show isScalar (integer _) = true from rfl),
    holds_of_isScalar (show isScalar (double _) = true from rfl), or_assoc]

theorem edgeNumbers_survive : edgeNumbers.HasOrdinaryNumbers ∧ edgeNumbers.Survives ∧
    edgeNumbers.detour ≠ edgeNumbers := by
  have hnumbers : edgeNumbers.HasOrdinaryNumbers := by
    constructor
    · intro n hn
      have hmem := (edgeNumbers_holds rfl).1 hn
      simp only [List.mem_cons, List.not_mem_nil, integer.injEq, reduceCtorEq, or_false] at hmem
      rcases hmem with rfl | rfl <;> decide
    · intro d hd
      have hmem := (edgeNumbers_holds rfl).1 hd
      simp only [List.mem_cons, List.not_mem_nil, double.injEq, reduceCtorEq, or_false,
        false_or] at hmem
      rw [hmem]
      decide
  have hsurvives := survives_of_hasOrdinaryNumbers hnumbers
  refine ⟨hnumbers, hsurvives, fun hsame => ?_⟩
  have hheld : edgeNumbers.Holds (.integer (2 ^ 63)) := (edgeNumbers_holds rfl).2 (by simp)
  exact absurd (hsurvives.eq_iff.1 hsame _ hheld) (by decide)

end Json

end TypeLang
