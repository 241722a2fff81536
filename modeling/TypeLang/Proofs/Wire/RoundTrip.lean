import TypeLang.Proofs.Wire.Written
import TypeLang.Wire.Shape

/-!
# Shapes are read as they are written

The writer and the reader of a shape are inverse to each other on the values that fit into their
lengths and counts, however deep vectors nest.  The octets of a value say themselves where they end,
so two values of a shape that are written at the start of one row of octets are the same value.
-/

namespace TypeLang.Wire

open Cursor

/-! ## Values that fit -/

/-- A row whose count is a positive number of four octets, and whose elements fit. -/
def RowFits {α : Type} (fits : α → Prop) (items : List α) : Prop :=
  items.length < 2 ^ 31 ∧ ∀ v ∈ items, fits v

/-- Every length in the value fits into three octets, and every row of it fits. -/
def Shape.Fits : (s : Shape) → s.Carrier → Prop
  | string, t => IsShort (Text.utf8 t.toList)
  | bytes, content => IsShort content
  | boxedVector elem, items => RowFits elem.Fits items
  | bareVector elem, items => RowFits elem.Fits items
  | _, _ => True

/-! ## Reading back -/

lemma reads_takeExactly {size : ℕ} (octets : { octets : List UInt8 // octets.length = size }) :
    Reads (Reader.takeExactly size) octets.val octets := by
  obtain ⟨w, rfl⟩ := octets
  intro c h
  have hnext : c.next w.length = w := h.next_eq
  unfold Reader.takeExactly
  rw [dif_pos h.length_le]
  simp only [hnext]

lemma forall₂_write {α : Type} {elem : Reader α} {write : α → List UInt8} {items : List α}
    (h : ∀ v ∈ items, Reads elem (write v) v) :
    List.Forall₂ (Reads elem) (items.map write) items := by
  rw [List.forall₂_map_left_iff, List.forall₂_same]
  exact h

/-- By the shape: a vector is read back because its elements are. -/
lemma reads_write (s : Shape) {v : s.Carrier} (hv : s.Fits v) : Reads s.read (s.write v) v := by
  induction s with
  | int32 => exact reads_int32 v
  | uint32 => exact reads_uint32 v
  | int64 => exact reads_int64 v
  | double => exact reads_double v
  | bool => exact reads_bool v
  | string => exact reads_string hv
  | bytes => exact reads_bytes hv
  | fixed size => exact reads_takeExactly v
  | boxedVector elem ih =>
      obtain ⟨hcount, helems⟩ := hv
      have hrow := forall₂_write fun u hu => ih (helems u hu)
      exact reads_boxedVector defaultMaxInflated hrow hcount
  | bareVector elem ih =>
      obtain ⟨hcount, helems⟩ := hv
      have hrow := forall₂_write fun u hu => ih (helems u hu)
      exact reads_bareVector hrow hcount

/-- **Every shape is read as it is written**, behind any octets and before any others, and reading
ends right behind what was written.  No two values are written alike, and none is written as the
beginning of what another one is. -/
theorem read_written (s : Shape) {v : s.Carrier} (hv : s.Fits v) :
    (∀ before after, s.read (between before (s.write v ++ after)) =
        .done v (between (before ++ s.write v) after)) ∧
      ∀ {u : s.Carrier}, s.Fits u → ∀ {after after'},
        s.write v ++ after = s.write u ++ after' → v = u ∧ after = after' := by
  refine ⟨(reads_write s hv).between, ?_⟩
  intro u hu after after' hsame
  have hread : s.read (between [] (s.write v ++ after)) =
      .done v (between ([] ++ s.write v) after) := (reads_write s hv).between [] after
  have hread' : s.read (between [] (s.write u ++ after')) =
      .done u (between ([] ++ s.write u) after') := (reads_write s hu).between [] after'
  rw [hsame, hread'] at hread
  obtain ⟨rfl, -⟩ := Outcome.done.inj hread
  exact ⟨rfl, List.append_cancel_left hsame⟩

section

/-- A boxed vector of two bare ones; the octets of the second element take a long mark. -/
def nestedBytes : (Shape.boxedVector (.bareVector .bytes)).Carrier :=
  [[[1, 2, 3], List.replicate 254 7], []]

theorem nestedBytes_written : (Shape.boxedVector (.bareVector .bytes)).Fits nestedBytes ∧
    (Shape.boxedVector (.bareVector .bytes)).read
        (between [9] ((Shape.boxedVector (.bareVector .bytes)).write nestedBytes ++ [5])) =
      .done nestedBytes
        (between ([9] ++ (Shape.boxedVector (.bareVector .bytes)).write nestedBytes) [5]) := by
  have hfits : (Shape.boxedVector (.bareVector .bytes)).Fits nestedBytes := by
    show RowFits (RowFits IsShort)
      ([[[1, 2, 3], List.replicate 254 7], []] : List (List (List UInt8)))
    simp [RowFits, -List.reduceReplicate]
  exact ⟨hfits, (read_written _ hfits).1 [9] [5]⟩

end

end TypeLang.Wire
