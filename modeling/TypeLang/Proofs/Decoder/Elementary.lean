import TypeLang.Proofs.Decoder.Planned
import TypeLang.Proofs.Schema.TypeText
import TypeLang.Proofs.Wire.Mapped

/-!
# Types that need no schema are read as shapes

A primitive type, and a vector of such a type, has a shape: it can be read without a decoder.  Both
readings agree on every wire.  They give the same value, shown by the decoder without its type, or
the same fault, and end at the same cursor, provided that both open envelopes up to the same limit
and that the decoder has a level for each vector.

The two have separate loops over the elements of a vector, and look for tags and envelopes each by
itself; that these do the same on every wire is `Decoder.vectorOf_eq`.  Showing a value is a
function on what was read, so it commutes with every reader of vectors.  The rest is an induction on
the type.
-/

namespace TypeLang

open Wire

/-! ## The types -/

/-- Types that are built from primitive ones by vectors. -/
inductive Elementary where
  | int
  | long
  | double
  | bool
  | string
  | bytes
  | int128
  | int256
  | int512
  | strlong
  | vector (boxed : Bool) (elem : Elementary)
  deriving DecidableEq, Repr

namespace Elementary

/-- The type as it is written. -/
def expr : Elementary → TypeExpr
  | int => .named ⟨"int", true, false⟩
  | long => .named ⟨"long", true, false⟩
  | double => .named ⟨"double", true, false⟩
  | bool => .named ⟨"Bool", false, false⟩
  | string => .named ⟨"string", true, false⟩
  | bytes => .named ⟨"bytes", true, false⟩
  | int128 => .named ⟨"int128", true, false⟩
  | int256 => .named ⟨"int256", true, false⟩
  | int512 => .named ⟨"int512", true, false⟩
  | strlong => .named ⟨"strlong", true, false⟩
  | vector boxed elem => .vector boxed elem.expr

/-- Its form on the wire. -/
def shape : Elementary → Shape
  | int => .int32
  | long => .int64
  | double => .double
  | bool => .bool
  | string => .string
  | bytes => .bytes
  | int128 => .fixed 16
  | int256 => .fixed 32
  | int512 => .fixed 64
  | strlong => .fixed 8
  | vector true elem => .boxedVector elem.shape
  | vector false elem => .bareVector elem.shape

/-- What a decoder shows of a value of that form. -/
def shown : (t : Elementary) → t.shape.Carrier → Value
  | int, n => .int n
  | long, n => .long n
  | double, x => .double x
  | bool, b => .bool b
  | string, s => .string s
  | bytes, content => .bytes content
  | int128, content => .bytes content.val
  | int256, content => .bytes content.val
  | int512, content => .bytes content.val
  | strlong, content => .bytes content.val
  | vector true elem, items => .vector (List.map elem.shown items)
  | vector false elem, items => .vector (List.map elem.shown items)

/-- The number of vectors within each other. -/
def depth : Elementary → ℕ
  | vector _ elem => elem.depth + 1
  | _ => 0

/-! ## Texts and steps -/

lemma read_chars (t : Elementary) : TypeExpr.read t.expr.chars = .ok t.expr := by
  induction t with
  | vector boxed elem ih =>
      show TypeExpr.read (TypeExpr.vector boxed elem.expr).chars = _
      rw [chars_vector]
      exact read_vectorText ih boxed
  | _ => decide +kernel

lemma isEntry_expr (t : Elementary) : Plan.isEntry t.expr = false := by
  cases t <;> rfl

end Elementary

/-! ## Both readings -/

namespace Elementary

open Decoder

/-- By the type: a step for it reads its shape and shows what was read. -/
lemma exists_step {s : Schema} (numbers : Plan.Numbering s (Except Fault)) (plan : Plan)
    {limits : Limits} (hlimit : limits.maxInflated = defaultMaxInflated) (t : Elementary) :
    ∃ st, Plan.exprStep numbers t.expr = .ok st ∧
      ∀ levels, t.depth ≤ levels → step plan limits levels st = t.shown <$> t.shape.read := by
  have hfixed : ∀ n levels, step plan limits levels (.fixed n) =
      (fun content => Value.bytes content.val) <$> Reader.takeExactly n := by
    intro n levels
    show Value.bytes <$> Reader.take n = _
    rw [← Reader.val_map_takeExactly, ← comp_map]
    rfl
  induction t with
  | vector boxed elem ih =>
      obtain ⟨st, hst, hread⟩ := ih
      have hentry := elem.isEntry_expr
      refine ⟨.vector boxed st, ?_, fun levels hlevels => ?_⟩
      · show (Plan.exprStep numbers elem.expr >>= fun st => pure
          (if Plan.isEntry elem.expr then Step.entries boxed st else .vector boxed st)) = _
        rw [hst, hentry]
        rfl
      · obtain ⟨below, rfl⟩ : ∃ below, levels = below + 1 :=
          Nat.exists_eq_succ_of_ne_zero (Nat.ne_zero_of_lt hlevels)
        have helem : step plan limits below st = elem.shown <$> elem.shape.read :=
          hread below (Nat.le_of_succ_le_succ hlevels)
        show Value.vector <$>
          vectorOf limits.maxInflated boxed (step plan limits below st) = _
        rw [helem, hlimit, vectorOf_eq]
        cases boxed with
        | false =>
            rw [if_neg Bool.false_ne_true, Reader.bareVector_map, ← comp_map]
            rfl
        | true =>
            rw [if_pos rfl, Reader.boxedVector_map, ← comp_map]
            rfl
  | int => exact ⟨.int, rfl, fun _ _ => rfl⟩
  | long => exact ⟨.long, rfl, fun _ _ => rfl⟩
  | double => exact ⟨.double, rfl, fun _ _ => rfl⟩
  | bool => exact ⟨.bool, rfl, fun _ _ => rfl⟩
  | string => exact ⟨.string, rfl, fun _ _ => rfl⟩
  | bytes => exact ⟨.bytes, rfl, fun _ _ => rfl⟩
  | int128 => exact ⟨.fixed 16, rfl, fun levels _ => hfixed 16 levels⟩
  | int256 => exact ⟨.fixed 32, rfl, fun levels _ => hfixed 32 levels⟩
  | int512 => exact ⟨.fixed 64, rfl, fun levels _ => hfixed 64 levels⟩
  | strlong => exact ⟨.fixed 8, rfl, fun levels _ => hfixed 8 levels⟩

/-- **A type that needs no schema is read as its shape.**  Whatever the text of the type, a decoder
of any schema gives the same value or the same fault, and ends at the same cursor. -/
theorem readType_eq_shape (t : Elementary) {d : Decoder}
    (hlimit : d.limits.maxInflated = defaultMaxInflated) (hdepth : t.depth ≤ d.limits.maxDepth)
    (c : Cursor) :
    d.readType t.expr.text c = (t.shape.read c).map t.shown ∧
      ∀ type : String, TypeExpr.read type.toList = .ok t.expr →
        d.readType type c = (t.shape.read c).map t.shown := by
  obtain ⟨st, hst, hread⟩ := t.exists_step (Plan.found d.schema d.plan) d.plan hlimit
  have htype : ∀ type : String, TypeExpr.read type.toList = .ok t.expr →
      d.readType type c = (t.shape.read c).map t.shown := by
    intro type hread'
    have hstep : d.stepOf type = .ok st := by
      unfold stepOf
      rw [hread']
      exact hst
    unfold readType
    rw [hstep]
    show step d.plan d.limits d.limits.maxDepth st c = _
    rw [hread _ hdepth, Reader.map_apply]
  refine ⟨htype _ ?_, htype⟩
  rw [TypeExpr.text, String.toList_ofList]
  exact t.read_chars

section

/-- Rows of octet strings within a row. -/
def rowsOfBytes : Elementary :=
  .vector true (.vector false .bytes)

/-- Two such rows, the second with a mark that stands for no length. -/
def badMark : Cursor :=
  Cursor.start ([0x15, 0xC4, 0xB5, 0x1C, 2, 0, 0, 0] ++ [1, 0, 0, 0, 2, 7, 7, 0] ++
    [1, 0, 0, 0, 0xFF])

theorem rowsOfBytes_eq_shape : ∃ s d, richText.build = .ok s ∧ ofSchema s {} = .ok d ∧
    d.limits.maxInflated = defaultMaxInflated ∧ rowsOfBytes.depth ≤ d.limits.maxDepth ∧
      TypeExpr.read "Vector<vector<bytes>>".toList = .ok rowsOfBytes.expr ∧
        d.readType "Vector<vector<bytes>>" badMark =
          (rowsOfBytes.shape.read badMark).map rowsOfBytes.shown := by
  obtain ⟨s, d, hs, hd⟩ := exists_richText
  obtain ⟨p, -, hp⟩ := ofSchema_eq_ok hd
  have hlimit : d.limits.maxInflated = defaultMaxInflated := by rw [hp]
  have hdepth : rowsOfBytes.depth ≤ d.limits.maxDepth := by
    rw [hp]
    show rowsOfBytes.depth ≤ ({} : Limits).maxDepth
    decide
  have htype : TypeExpr.read "Vector<vector<bytes>>".toList = .ok rowsOfBytes.expr := by
    decide +kernel
  exact ⟨s, d, hs, hd, hlimit, hdepth, htype,
    (readType_eq_shape rowsOfBytes hlimit hdepth badMark).2 _ htype⟩

end

end Elementary

end TypeLang
