import TypeLang.Decoder.Run
import TypeLang.Proofs.Wire.Reader

/-!
# The rows of a decoder

A decoder has its own loop over the elements of a vector, and looks for the tag and the envelope by
itself.  It reads what the readers of primitive forms read: the same elements or the same fault, and
ends at the same cursor, on every wire.  Both are deterministic, so this is an equation of readers.
-/

namespace TypeLang.Decoder

open Wire

variable (elem : Reader Value)

/-- By the number of elements, whatever has been read before. -/
lemma elementsFrom_eq (n : ℕ) (read : List Value) :
    elementsFrom elem n read = Reader.itemsFrom elem n read := by
  induction n generalizing read with
  | zero => rfl
  | succ n ih =>
      funext c
      unfold elementsFrom Reader.itemsFrom
      cases elem c with
      | done value after => exact congrFun (ih (value :: read)) after
      | failed fault stop => rfl

lemma elements_eq : elements elem = Reader.bareVector elem := by
  unfold elements Reader.bareVector Reader.items
  exact bind_congr fun n => elementsFrom_eq elem n []

lemma unpacked_eq : unpacked elem = Reader.afterVectorTag (Reader.bareVector elem) := by
  unfold unpacked Reader.afterVectorTag
  rw [elements_eq]

/-- A vector is read by a decoder as it is read without one. -/
lemma vectorOf_eq (maxInflated : ℕ) (boxed : Bool) :
    vectorOf maxInflated boxed elem =
      if boxed then Reader.boxedVector maxInflated elem else Reader.bareVector elem := by
  cases boxed with
  | false => exact elements_eq elem
  | true =>
      unfold vectorOf Reader.boxedVector
      rw [elements_eq, unpacked_eq]
      rfl

end TypeLang.Decoder
