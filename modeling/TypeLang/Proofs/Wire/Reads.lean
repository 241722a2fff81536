import TypeLang.Proofs.Wire.Reader

/-!
# What readers do to the octets before them

`Reads r w a` says that `r` reads `a` from the octets `w` wherever they come next, whatever stands
before and behind them, and goes on right behind them.  The relation follows the shape of readers,
so that forms on the wire are put together from the forms of their parts.

`Yields r P` goes the other way: whatever `r` reads, it consumes octets that have `P` to what was
read.  `Follows r r'` is the case where `r'` reads the same from the octets that `r` consumed.  Two
readers are compared, and not one with itself, since a reader that asks for its position goes on
differently at different places; it does so only to report a fault.
-/

namespace TypeLang.Wire

/-! ## Cursors and the octets that are left -/

namespace Cursor

lemma length_rest (c : Cursor) : c.rest.length = c.remaining := by
  simp [rest, remaining]

lemma next_eq_take (c : Cursor) (n : ℕ) : c.next n = c.rest.take n := by
  simp [next, rest]

lemma rest_advance (c : Cursor) {n : ℕ} (h : n ≤ c.remaining) :
    (c.advance n h).rest = c.rest.drop n := by
  simp [rest, advance, List.drop_drop]

lemma remaining_advance (c : Cursor) {n : ℕ} (h : n ≤ c.remaining) :
    (c.advance n h).remaining = c.remaining - n := by
  simp [remaining, advance, Nat.sub_sub]

lemma advance_advance (c : Cursor) {m n : ℕ} (hm : m ≤ c.remaining)
    (hn : n ≤ (c.advance m hm).remaining) :
    (c.advance m hm).advance n hn =
      c.advance (m + n) (by rw [remaining_advance] at hn; omega) := by
  simp [advance, Nat.add_assoc]

@[simp] lemma rest_start (wire : List UInt8) : (start wire).rest = wire := by
  simp [rest, start]

/-- The octets `w` come next. -/
def Holds (c : Cursor) (w : List UInt8) : Prop :=
  w <+: c.rest

lemma Holds.length_le {c : Cursor} {w : List UInt8} (h : c.Holds w) :
    w.length ≤ c.remaining := by
  rw [← length_rest]
  exact List.IsPrefix.length_le h

lemma Holds.next_eq {c : Cursor} {w : List UInt8} (h : c.Holds w) : c.next w.length = w := by
  rw [next_eq_take]
  exact (List.prefix_iff_eq_take.1 h).symm

lemma holds_next (c : Cursor) (n : ℕ) : c.Holds (c.next n) := by
  rw [next_eq_take]
  exact List.take_prefix n c.rest

lemma Holds.left {c : Cursor} {v w : List UInt8} (h : c.Holds (v ++ w)) : c.Holds v :=
  (List.prefix_append v w).trans h

lemma Holds.right {c : Cursor} {v w : List UInt8} (h : c.Holds (v ++ w)) :
    (c.advance v.length h.left.length_le).Holds w := by
  obtain ⟨after, hafter⟩ := h
  refine ⟨after, ?_⟩
  rw [rest_advance, ← hafter]
  simp

lemma next_add (c : Cursor) {m n : ℕ} (h : m ≤ c.remaining) :
    c.next (m + n) = c.next m ++ (c.advance m h).next n := by
  simp only [next_eq_take, rest_advance, List.take_add]

/-- The place between octets that have been read and octets that are left. -/
def between (before after : List UInt8) : Cursor :=
  ⟨(before ++ after).toArray, before.length, by simp⟩

@[simp] lemma rest_between (before after : List UInt8) : (between before after).rest = after := by
  simp [rest, between]

lemma advance_between (before w after : List UInt8)
    (h : w.length ≤ (between before (w ++ after)).remaining) :
    (between before (w ++ after)).advance w.length h = between (before ++ w) after := by
  simp [advance, between]

end Cursor

open Cursor

variable {α β : Type}

/-! ## Reading given octets -/

/-- Wherever the octets `w` come next, `r` reads `a` from them and goes on behind them. -/
def Reads (r : Reader α) (w : List UInt8) (a : α) : Prop :=
  ∀ (c : Cursor) (h : c.Holds w), r c = .done a (c.advance w.length h.length_le)

lemma Reads.between {r : Reader α} {w : List UInt8} {a : α} (h : Reads r w a)
    (before after : List UInt8) :
    r (between before (w ++ after)) = .done a (between (before ++ w) after) := by
  have hholds : (Cursor.between before (w ++ after)).Holds w := by
    unfold Holds
    rw [rest_between]
    exact List.prefix_append w after
  rw [h _ hholds, advance_between]

/-- At one place a reader reads one thing only. -/
lemma Reads.unique {r : Reader α} {w w' : List UInt8} {a a' : α} {c : Cursor} (h : Reads r w a)
    (h' : Reads r w' a') (hw : c.Holds w) (hw' : c.Holds w') : w = w' ∧ a = a' := by
  have hsame := (h c hw).symm.trans (h' c hw')
  simp only [Outcome.done.injEq] at hsame
  obtain ⟨rfl, hcursor⟩ := hsame
  have hlength : w.length = w'.length := by
    simpa [advance] using congrArg Cursor.pos hcursor
  exact ⟨by rw [← hw.next_eq, hlength, hw'.next_eq], rfl⟩

lemma reads_pure (a : α) : Reads (pure a) [] a := fun _ _ => rfl

lemma reads_bind {r : Reader α} {f : α → Reader β} {v w : List UInt8} {a : α} {b : β}
    (hr : Reads r v a) (hf : Reads (f a) w b) : Reads (r >>= f) (v ++ w) b := by
  intro c h
  rw [Reader.bind_of_done (hr c h.left), hf _ h.right, advance_advance]
  simp

/-- The last reader of a row may read nothing. -/
lemma reads_bind_pure {r : Reader α} {f : α → Reader β} {w : List UInt8} {a : α} {b : β}
    (hr : Reads r w a) (hf : f a = pure b) : Reads (r >>= f) w b := by
  have := reads_bind hr (hf ▸ reads_pure b)
  rwa [List.append_nil] at this

lemma reads_position {f : ℕ → Reader β} {w : List UInt8} {b : β} (hf : ∀ n, Reads (f n) w b) :
    Reads (Reader.position >>= f) w b :=
  fun c h => hf c.pos c h

lemma reads_take (w : List UInt8) : Reads (Reader.take w.length) w w := by
  intro c h
  rw [take_of_le h.length_le, h.next_eq]

lemma reads_skip (w : List UInt8) : Reads (Reader.skip w.length) w () :=
  reads_bind_pure (reads_take w) rfl

lemma reads_items {item : Reader α} {ws : List (List UInt8)} {as : List α}
    (h : List.Forall₂ (Reads item) ws as) :
    Reads (Reader.items item as.length) ws.flatten as := by
  induction h with
  | nil => exact reads_pure []
  | cons ha _ ih =>
      rw [List.length_cons, Reader.items_succ, List.flatten_cons]
      exact reads_bind ha (reads_bind_pure ih rfl)

/-! ## What is consumed -/

/-- Whatever `r` reads, it consumes octets that have `P` to what was read. -/
def Yields (r : Reader α) (P : List UInt8 → α → Prop) : Prop :=
  ∀ (c after : Cursor) (a : α), r c = .done a after →
    ∃ (n : ℕ) (h : n ≤ c.remaining), after = c.advance n h ∧ P (c.next n) a

section

variable {P Q : List UInt8 → α → Prop}

lemma Yields.imp {r : Reader α} (h : Yields r P) (hPQ : ∀ w a, P w a → Q w a) : Yields r Q := by
  intro c after a hrun
  obtain ⟨n, hn, hafter, hP⟩ := h c after a hrun
  exact ⟨n, hn, hafter, hPQ _ _ hP⟩

lemma yields_pure {a : α} (h : P [] a) : Yields (pure a) P := by
  intro c after b hrun
  cases hrun
  refine ⟨0, Nat.zero_le _, rfl, ?_⟩
  rwa [next_eq_take, List.take_zero]

lemma yields_fail (fault : Fault) : Yields (Reader.fail fault) P := by
  intro c after a h
  cases h

lemma yields_ite {p : Prop} [Decidable p] {r t : Reader α} (hr : p → Yields r P)
    (ht : ¬p → Yields t P) : Yields (if p then r else t) P := by
  by_cases h : p
  · rw [if_pos h]
    exact hr h
  · rw [if_neg h]
    exact ht h

/-- The octets of a reading are those of its first part and then those of its second. -/
lemma yields_bind {r : Reader α} {f : α → Reader β} {R : List UInt8 → β → Prop}
    (hr : Yields r P) (hf : ∀ w a, P w a → Yields (f a) fun w' b => R (w ++ w') b) :
    Yields (r >>= f) R := by
  intro c after b h
  obtain ⟨a, m, ha, hb⟩ := Reader.bind_eq_done.1 h
  obtain ⟨k, hk, rfl, hP⟩ := hr _ _ _ ha
  obtain ⟨l, hl, rfl, hR⟩ := hf _ a hP _ _ _ hb
  refine ⟨k + l, ?_, advance_advance c hk hl, ?_⟩
  · rw [remaining_advance] at hl
    omega
  · rwa [next_add c hk]

lemma yields_bind_pure {r : Reader α} {f : α → β} {R : List UInt8 → β → Prop}
    (hr : Yields r P) (hf : ∀ w a, P w a → R w (f a)) : Yields (r >>= fun a => pure (f a)) R := by
  refine yields_bind hr fun w a ha => yields_pure ?_
  rw [List.append_nil]
  exact hf w a ha

lemma yields_position {f : ℕ → Reader α} (hf : ∀ n, Yields (f n) P) :
    Yields (Reader.position >>= f) P :=
  fun c after a h => hf c.pos c after a h

lemma yields_take (n : ℕ) :
    Yields (Reader.take n) fun w octets => octets = w ∧ octets.length = n := by
  intro c after octets h
  unfold Reader.take at h
  split at h
  case isFalse => cases h
  case isTrue hn =>
    cases h
    exact ⟨n, hn, rfl, rfl, length_next hn⟩

lemma yields_skip (n : ℕ) : Yields (Reader.skip n) fun w _ => w.length = n := by
  refine yields_bind_pure (yields_take n) fun w octets => ?_
  rintro ⟨rfl, hlength⟩
  exact hlength

lemma yields_items {item : Reader α} (h : Yields item P) (n : ℕ) :
    Yields (Reader.items item n) fun w as =>
      as.length = n ∧ ∃ ws, List.Forall₂ P ws as ∧ ws.flatten = w := by
  induction n with
  | zero => exact yields_pure ⟨rfl, [], .nil, rfl⟩
  | succ n ih =>
      rw [Reader.items_succ]
      refine yields_bind h fun w a ha => yields_bind_pure ih fun w' as => ?_
      rintro ⟨hlength, ws, hws, hflatten⟩
      refine ⟨by rw [List.length_cons, hlength], w :: ws, .cons ha hws, ?_⟩
      rw [List.flatten_cons, hflatten]

lemma yields_ofExcept {x : Except Fault α} (h : ∀ a, x = .ok a → P [] a) :
    Yields (Reader.ofExcept x) P := by
  cases x with
  | error fault => exact yields_fail fault
  | ok a => exact yields_pure (h a rfl)

/-- Octets of their own are a wire of which some may be left. -/
lemma yields_within {r : Reader α} (h : Yields r P) (octets : List UInt8) :
    Yields (Reader.within octets r) fun w a => w = [] ∧ ∃ w', w' <+: octets ∧ P w' a := by
  intro c after a hrun
  unfold Reader.within at hrun
  split at hrun
  case h_2 => cases hrun
  case h_1 b inner hinner =>
    cases hrun
    obtain ⟨n, hn, -, hP⟩ := h _ _ _ hinner
    refine ⟨0, Nat.zero_le _, rfl, by rw [next_eq_take, List.take_zero], _, ?_, hP⟩
    have := holds_next (start octets) n
    rwa [Holds, rest_start] at this

end

/-! ## Reading the same octets elsewhere -/

/-- Whatever `r` reads somewhere, `r'` reads from the same octets anywhere. -/
def Follows (r r' : Reader α) : Prop :=
  Yields r (Reads r')

lemma follows_pure (a : α) : Follows (pure a) (pure a) :=
  yields_pure (reads_pure a)

lemma follows_fail (fault : Fault) (r' : Reader α) : Follows (Reader.fail fault) r' :=
  yields_fail fault

lemma follows_ite {p : Prop} [Decidable p] {r r' t t' : Reader α} (hr : Follows r r')
    (ht : Follows t t') : Follows (if p then r else t) (if p then r' else t') := by
  split
  · exact hr
  · exact ht

lemma follows_bind {r r' : Reader α} {f f' : α → Reader β} (hr : Follows r r')
    (hf : ∀ a, Follows (f a) (f' a)) : Follows (r >>= f) (r' >>= f') :=
  yields_bind hr fun _ a hreads => (hf a).imp fun _ _ => reads_bind hreads

/-- What a reader learns from its position must not change what it reads. -/
lemma follows_position {f f' : ℕ → Reader β} (hf : ∀ m n, Follows (f m) (f' n)) :
    Follows (Reader.position >>= f) (Reader.position >>= f') := by
  intro c after b h
  have hread : ∀ n, ∃ (k : ℕ) (hk : k ≤ c.remaining), after = c.advance k hk ∧
      Reads (f' n) (c.next k) b := fun n => hf c.pos n _ _ _ h
  obtain ⟨k, hk, hafter, -⟩ := hread 0
  refine ⟨k, hk, hafter, reads_position fun n => ?_⟩
  obtain ⟨l, hl, hafter', hreads⟩ := hread n
  have hkl : k = l := by
    have := congrArg Cursor.pos (hafter.symm.trans hafter')
    simpa [advance] using this
  exact hkl ▸ hreads

lemma follows_take (n : ℕ) : Follows (Reader.take n) (Reader.take n) := by
  refine (yields_take n).imp fun w octets => ?_
  rintro ⟨rfl, rfl⟩
  exact reads_take octets

lemma follows_skip (n : ℕ) : Follows (Reader.skip n) (Reader.skip n) :=
  follows_bind (follows_take n) fun _ => follows_pure ()

lemma reads_within {r : Reader α} {w octets : List UInt8} {a : α} (h : Reads r w a)
    (hw : w <+: octets) : Reads (Reader.within octets r) [] a := by
  intro c _
  have hholds : (start octets).Holds w := by rwa [Holds, rest_start]
  unfold Reader.within
  rw [h _ hholds]
  rfl

/-- Octets of their own are read alike wherever the cursor of the wire stands. -/
lemma follows_within {r r' : Reader α} (h : Follows r r') (octets : List UInt8) :
    Follows (Reader.within octets r) (Reader.within octets r') := by
  refine (yields_within h octets).imp fun w a => ?_
  rintro ⟨rfl, w', hw', hreads⟩
  exact reads_within hreads hw'

/-- Computations that give the same value, if any, may fail differently. -/
lemma follows_ofExcept {x x' : Except Fault α} (h : ∀ a, x = .ok a → x' = .ok a) :
    Follows (Reader.ofExcept x) (Reader.ofExcept x') := by
  refine yields_ofExcept fun a ha => ?_
  rw [h a ha]
  exact reads_pure a

end TypeLang.Wire
