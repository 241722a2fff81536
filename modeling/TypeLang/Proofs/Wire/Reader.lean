import Mathlib.Tactic
import TypeLang.Wire.Reader

/-!
# Laws of readers

Readers form a lawful monad, so readings may be regrouped and the value of one may be taken into the
next.  `items` is a repetition of its item, without the accumulator that it is run with.
-/

namespace TypeLang.Wire

variable {α β : Type}

/-! ## Outcomes -/

/-- The value that was read and the cursor behind it, if reading went well. -/
def Outcome.done? : Outcome α → Option (α × Cursor)
  | done value after => some (value, after)
  | failed _ _ => none

lemma Outcome.done?_eq_some {o : Outcome α} {a : α} {after : Cursor} :
    o.done? = some (a, after) ↔ o = .done a after := by
  cases o <;> simp [done?]

/-- The same outcome with its value, if any, under a function. -/
def Outcome.map (f : α → β) : Outcome α → Outcome β
  | done value after => done (f value) after
  | failed fault stop => failed fault stop

namespace Reader

/-! ## Rows -/

lemma bind_apply (r : Reader α) (f : α → Reader β) (c : Cursor) :
    (r >>= f) c = match r c with
      | .done value after => f value after
      | .failed fault stop => .failed fault stop := rfl

@[simp] lemma pure_apply (a : α) (c : Cursor) : (pure a : Reader α) c = .done a c := rfl

lemma bind_of_done {r : Reader α} {c after : Cursor} {a : α} (h : r c = .done a after)
    (f : α → Reader β) : (r >>= f) c = f a after := by
  rw [bind_apply, h]

lemma bind_of_failed {r : Reader α} {c stop : Cursor} {fault : Fault}
    (h : r c = .failed fault stop) (f : α → Reader β) : (r >>= f) c = .failed fault stop := by
  rw [bind_apply, h]

lemma bind_eq_done {r : Reader α} {f : α → Reader β} {c after : Cursor} {b : β} :
    (r >>= f) c = .done b after ↔ ∃ a m, r c = .done a m ∧ f a m = .done b after := by
  rw [bind_apply]
  cases r c <;> simp

lemma ofExcept_eq_done {x : Except Fault α} {c after : Cursor} {a : α} :
    ofExcept x c = .done a after ↔ x = .ok a ∧ c = after := by
  cases x <;> simp [ofExcept, done, fail]

instance : LawfulMonad Reader := by
  refine LawfulMonad.mk' Reader ?id_map ?pure_bind ?bind_assoc
  case id_map =>
    intro _ r
    funext c
    show (r >>= fun a => pure a) c = r c
    rw [bind_apply]
    cases r c <;> rfl
  case pure_bind =>
    intro _ _ a f
    rfl
  case bind_assoc =>
    intro _ _ _ r f g
    funext c
    simp only [bind_apply]
    cases r c <;> rfl

lemma map_apply (f : α → β) (r : Reader α) (c : Cursor) : (f <$> r) c = (r c).map f := by
  rw [map_eq_pure_bind, bind_apply]
  cases r c <;> rfl

/-! ## Items -/

lemma itemsFrom_eq (item : Reader α) (n : ℕ) (read : List α) :
    itemsFrom item n read = itemsFrom item n [] >>= fun as => pure (read.reverse ++ as) := by
  induction n generalizing read with
  | zero => funext c; simp [itemsFrom, done, bind_apply]
  | succ n ih =>
      have hstep : ∀ read, itemsFrom item (n + 1) read =
          item >>= fun a => itemsFrom item n (a :: read) := fun _ => rfl
      rw [hstep, hstep, bind_assoc]
      refine bind_congr fun a => ?_
      rw [ih (a :: read), ih [a]]
      simp

lemma items_succ (item : Reader α) (n : ℕ) :
    items item (n + 1) = do
      let a ← item
      let as ← items item n
      return a :: as := by
  show (item >>= fun a => itemsFrom item n [a]) = _
  refine bind_congr fun a => ?_
  rw [itemsFrom_eq]
  rfl

lemma items_map (f : α → β) (item : Reader α) (n : ℕ) :
    items (f <$> item) n = List.map f <$> items item n := by
  induction n with
  | zero => rfl
  | succ n ih =>
      rw [items_succ, items_succ, ih]
      simp only [bind_map_left, map_bind, map_pure, List.map_cons]

end Reader

/-! ## Octets -/

lemma take_of_le {c : Cursor} {n : ℕ} (h : n ≤ c.remaining) :
    Reader.take n c = .done (c.next n) (c.advance n h) :=
  dif_pos h

lemma take_of_not_le {c : Cursor} {n : ℕ} (h : ¬n ≤ c.remaining) :
    Reader.take n c = .failed (.truncated c.pos n) c :=
  dif_neg h

end TypeLang.Wire
