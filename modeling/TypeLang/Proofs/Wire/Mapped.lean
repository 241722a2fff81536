import TypeLang.Proofs.Wire.Reader
import TypeLang.Wire.Primitive

/-!
# Readers under functions

A function on what was read commutes with every reader of vectors: the elements of a vector may be
taken under it one by one, or all together at the end.  Faults hold no element, so they stay the
same.
-/

namespace TypeLang.Wire.Reader

variable {α β : Type} (f : α → β)

lemma map_unknownTag (expected : String) :
    f <$> (unknownTag expected : Reader α) = unknownTag expected := by
  unfold unknownTag
  simp only [map_bind]
  rfl

lemma map_within (octets : List UInt8) (inner : Reader α) :
    f <$> within octets inner = within octets (f <$> inner) := by
  funext c
  rw [map_apply]
  unfold within
  rw [map_apply]
  cases inner (Cursor.start octets) <;> rfl

lemma bareVector_map (elem : Reader α) :
    bareVector (f <$> elem) = List.map f <$> bareVector elem := by
  unfold bareVector
  rw [map_bind]
  exact bind_congr fun n => items_map f elem n

lemma afterVectorTag_map (body : Reader α) :
    afterVectorTag (f <$> body) = f <$> afterVectorTag body := by
  unfold afterVectorTag
  rw [map_bind]
  refine bind_congr fun tag => ?_
  rw [apply_ite (f <$> ·), map_unknownTag]

lemma boxedVector_map (limit : ℕ) (elem : Reader α) :
    boxedVector limit (f <$> elem) = List.map f <$> boxedVector limit elem := by
  unfold boxedVector
  rw [map_bind]
  refine bind_congr fun tag => ?_
  rw [apply_ite (List.map f <$> ·), apply_ite (List.map f <$> ·), map_unknownTag, map_bind]
  simp only [map_within, ← afterVectorTag_map, bareVector_map]

lemma val_map_takeExactly (n : ℕ) : Subtype.val <$> takeExactly n = take n := by
  funext c
  rw [map_apply]
  unfold takeExactly take
  split <;> rfl

end TypeLang.Wire.Reader
