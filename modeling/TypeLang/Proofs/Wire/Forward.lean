import TypeLang.Proofs.Wire.Following

/-!
# Readers that go forward

A reader goes forward if it is put together from steps that take octets, ask for their place, stop,
or read octets of their own.  A tag that is reported may be read twice; whoever reports it fails.

On a wire that is cut off, such a reader either ends before the cut as it would have ended, or runs
short of octets at the cut: up to there it sees the same octets at the same places, so nothing else
can go wrong first.
-/

namespace TypeLang.Wire

variable {α β : Type}

/-- Readers that are put together from steps forward. -/
inductive Forward : {α : Type} → Reader α → Prop
  | pure {α : Type} (a : α) : Forward (pure a)
  | fail {α : Type} (fault : Fault) : Forward (Reader.fail fault : Reader α)
  | position : Forward Reader.position
  | take (n : ℕ) : Forward (Reader.take n)
  | unknownTag {α : Type} (expected : String) : Forward (Reader.unknownTag expected : Reader α)
  | within {α : Type} {inner : Reader α} (octets : List UInt8) (hinner : Forward inner) :
      Forward (Reader.within octets inner)
  | bind {α β : Type} {r : Reader α} {f : α → Reader β} (hr : Forward r)
      (hf : ∀ a, Forward (f a)) : Forward (r >>= f)

namespace Forward

lemma yields {r : Reader α} (hr : Forward r) : Yields r fun _ _ => True := by
  induction hr with
  | pure a => exact yields_pure trivial
  | fail fault => exact yields_fail fault
  | position => exact yields_position fun n => yields_pure (a := n) trivial
  | take n => exact (yields_take n).imp fun _ _ _ => trivial
  | unknownTag expected => exact yields_unknownTag expected
  | within octets _ ih => exact (yields_within ih octets).imp fun _ _ _ => trivial
  | bind _ _ ihr ihf => exact yields_bind ihr fun _ a _ => ihf a

lemma pos_le {r : Reader α} (hr : Forward r) {c after : Cursor} {a : α}
    (h : r c = .done a after) : c.pos ≤ after.pos := by
  obtain ⟨n, hn, rfl, -⟩ := hr.yields c after a h
  exact Nat.le_add_right _ _

/-! ## Combining -/

lemma ite {p : Prop} [Decidable p] {r t : Reader α} (hr : Forward r) (ht : Forward t) :
    Forward (if p then r else t) := by
  by_cases h : p
  · rwa [if_pos h]
  · rwa [if_neg h]

lemma ofExcept (x : Except Fault α) : Forward (Reader.ofExcept x) := by
  cases x with
  | error fault => exact .fail fault
  | ok a => exact .pure a

lemma skip (n : ℕ) : Forward (Reader.skip n) :=
  .bind (.take n) fun _ => .pure ()

/-! ## Primitive forms -/

lemma number (width : ℕ) : Forward (Reader.number width) :=
  .bind (.take width) fun _ => .pure _

lemma uint32 : Forward Reader.uint32 :=
  .bind (number 4) fun _ => .pure _

lemma int32 : Forward Reader.int32 :=
  .bind (number 4) fun _ => .pure _

lemma int64 : Forward Reader.int64 :=
  .bind (number 8) fun _ => .pure _

lemma double : Forward Reader.double :=
  .bind (number 8) fun _ => .pure _

lemma bool : Forward Reader.bool :=
  .bind uint32 fun _ => .ite (.pure _) (.ite (.pure _) (.unknownTag _))

lemma lengthMark : Forward Reader.lengthMark := by
  refine .bind .position fun _ => .bind (number 1) fun _ => .ite (.fail _) (.ite ?_ (.pure _))
  exact .bind (number 3) fun _ => .pure _

lemma bytes : Forward Reader.bytes :=
  .bind lengthMark fun mark => .bind (.take _) fun _ => .bind (skip mark.padding) fun _ => .pure _

lemma randomBytes (least : ℕ) : Forward (Reader.randomBytes least) :=
  .bind .position fun _ => .bind lengthMark fun _ => .ite (.fail _) (skip _)

lemma string : Forward Reader.string := by
  refine .bind bytes fun octets => ?_
  cases Text.unutf8 octets with
  | ok chars => exact .pure _
  | error fault => exact .fail _

lemma opened (limit : ℕ) : Forward (Reader.opened limit) :=
  .bind .position fun _ => .bind bytes fun _ => ofExcept _

lemma count : Forward Reader.count :=
  .bind .position fun _ => .bind int32 fun _ => .ite (.fail _) (.pure _)

end Forward

/-! ## Wires that are cut off -/

namespace Cursor

/-- The same place on the wire that ends after its first `k` octets. -/
def cut (c : Cursor) (k : ℕ) (h : c.pos ≤ k) : Cursor :=
  ⟨c.buffer.take k, c.pos, by have := c.pos_le; simp only [Array.take, Array.size_extract]; omega⟩

lemma remaining_cut (c : Cursor) {k : ℕ} (h : c.pos ≤ k) :
    (c.cut k h).remaining = min k c.buffer.size - c.pos := by
  simp [cut, remaining, Array.take]

lemma next_cut (c : Cursor) {k n : ℕ} (h : c.pos ≤ k) (hn : c.pos + n ≤ k) :
    (c.cut k h).next n = c.next n := by
  have hmin : min (c.pos + n) k = c.pos + n := Nat.min_eq_left hn
  simp [cut, next, Array.take, hmin]

end Cursor

/-- Reading stopped for want of octets, behind `start` and at the latest at the end `k`. -/
def RunsShort (start k : ℕ) (o : Outcome α) : Prop :=
  ∃ offset needed stop, o = .failed (.truncated offset needed) stop ∧
    start ≤ offset ∧ offset ≤ k ∧ k < offset + needed

/-- What a reading that ends well comes to on the wire that is cut off after `k` octets. -/
structure CutOff (r : Reader α) (c after : Cursor) (a : α) (k : ℕ) (hk : c.pos ≤ k) : Prop where
  before : ∀ h : after.pos ≤ k, r (c.cut k hk) = .done a (after.cut k h)
  behind : k < after.pos → RunsShort c.pos k (r (c.cut k hk))

section

variable {c after : Cursor} {k : ℕ} {hk : c.pos ≤ k}

/-- What consumes nothing ends before every cut. -/
lemma cutOff_still {r : Reader α} {a : α} (h : r (c.cut k hk) = .done a (c.cut k hk)) :
    CutOff r c c a k hk :=
  ⟨fun _ => h, fun hlt => absurd hk (Nat.not_le.2 hlt)⟩

/-- Octets are taken before the cut, or too few are left. -/
lemma cutOff_take {n : ℕ} {octets : List UInt8} (h : Reader.take n c = .done octets after) :
    CutOff (Reader.take n) c after octets k hk := by
  have hsize := c.pos_le
  have hcut := c.remaining_cut hk
  unfold Reader.take at h
  split at h
  case isFalse => cases h
  case isTrue hn =>
    cases h
    have hroom : c.pos + n ≤ c.buffer.size := (c.advance n hn).pos_le
    have hpos : (c.advance n hn).pos = c.pos + n := rfl
    refine ⟨fun hle => ?_, fun hlt => ?_⟩
    · have hn' : n ≤ (c.cut k hk).remaining := by omega
      rw [take_of_le hn', c.next_cut hk hle]
      rfl
    · have hn' : ¬n ≤ (c.cut k hk).remaining := by omega
      rw [take_of_not_le hn']
      exact ⟨c.pos, n, c.cut k hk, rfl, le_rfl, hk, hlt⟩

/-- The cut falls into the first part of a reading or into the second. -/
lemma cutOff_bind {r : Reader α} {f : α → Reader β} {m : Cursor} {a : α} {b : β}
    (hcm : c.pos ≤ m.pos) (hma : m.pos ≤ after.pos) (hr : CutOff r c m a k hk)
    (hf : ∀ hm : m.pos ≤ k, CutOff (f a) m after b k hm) :
    CutOff (r >>= f) c after b k hk := by
  rcases Nat.lt_or_ge k m.pos with hlt | hm
  · refine ⟨fun h => absurd (hma.trans h) (Nat.not_le.2 hlt), fun _ => ?_⟩
    obtain ⟨offset, needed, stop, hfailed, hbounds⟩ := hr.behind hlt
    exact ⟨offset, needed, stop, Reader.bind_of_failed hfailed f, hbounds⟩
  · have hstep : (r >>= f) (c.cut k hk) = f a (m.cut k hm) := Reader.bind_of_done (hr.before hm) f
    refine ⟨fun h => hstep.trans ((hf hm).before h), fun h => ?_⟩
    obtain ⟨offset, needed, stop, hfailed, hstart, hend⟩ := (hf hm).behind h
    exact ⟨offset, needed, stop, hstep.trans hfailed, hcm.trans hstart, hend⟩

end

/-- A reader that goes forward either ends before a cut or runs short at it. -/
lemma Forward.cutOff {r : Reader α} (hr : Forward r) {c after : Cursor} {a : α}
    (h : r c = .done a after) {k : ℕ} (hk : c.pos ≤ k) : CutOff r c after a k hk := by
  induction hr generalizing c after with
  | pure b =>
      cases h
      exact cutOff_still rfl
  | fail fault => cases h
  | position =>
      cases h
      exact cutOff_still rfl
  | take n => exact cutOff_take h
  | unknownTag expected => exact absurd h (unknownTag_ne_done expected c after a)
  | within octets _ _ =>
      -- The octets of their own are not cut off.
      unfold Reader.within at h
      split at h
      case h_2 => cases h
      case h_1 b inner hread =>
        cases h
        refine cutOff_still ?_
        unfold Reader.within
        rw [hread]
  | bind hr hf ihr ihf =>
      obtain ⟨b, m, hfirst, hrest⟩ := Reader.bind_eq_done.1 h
      exact cutOff_bind (hr.pos_le hfirst) ((hf b).pos_le hrest) (ihr hfirst hk)
        fun hm => ihf b hrest hm

end TypeLang.Wire
