import TypeLang.Proofs.Decoder.Congruence
import TypeLang.Proofs.Wire.Reader

/-!
# The limit that a fault states

How deep a decoder reads is told by the levels that are left.  The limit of levels itself is looked
at only where none is left, and only to be stated in the fault.  So decoders whose limits differ in
nothing else read alike on as many levels, up to the limit that is stated.
-/

namespace TypeLang

open Wire

namespace Wire

/-- Faults that differ at most in the limit of levels that they state. -/
inductive Fault.EqUpToLimit : Fault → Fault → Prop
  | refl (fault : Fault) : EqUpToLimit fault fault
  | tooDeep (offset limit limit' : ℕ) : EqUpToLimit (.tooDeep offset limit) (.tooDeep offset limit')

/-- Outcomes with the same value, or with faults that are the same up to a stated limit, and with
the same cursor. -/
inductive Outcome.EqUpToLimit {α : Type} : Outcome α → Outcome α → Prop
  | done (value : α) (after : Cursor) : EqUpToLimit (.done value after) (.done value after)
  | failed {fault fault' : Fault} (h : fault.EqUpToLimit fault') (stop : Cursor) :
      EqUpToLimit (.failed fault stop) (.failed fault' stop)

variable {α β : Type}

lemma Outcome.EqUpToLimit.refl (o : Outcome α) : o.EqUpToLimit o := by
  cases o with
  | done value after => exact .done value after
  | failed fault stop => exact .failed (.refl fault) stop

/-- Readers whose outcomes are the same up to a stated limit on every wire. -/
def Reader.EqUpToLimit (r r' : Reader α) : Prop :=
  ∀ c, (r c).EqUpToLimit (r' c)

namespace Reader.EqUpToLimit

lemma refl (r : Reader α) : Reader.EqUpToLimit r r :=
  fun _ => .refl _

lemma bind {r r' : Reader α} {f f' : α → Reader β} (hr : Reader.EqUpToLimit r r')
    (hf : ∀ a, Reader.EqUpToLimit (f a) (f' a)) : Reader.EqUpToLimit (r >>= f) (r' >>= f') := by
  intro c
  have hfirst := hr c
  rw [Reader.bind_apply, Reader.bind_apply]
  generalize r c = o, r' c = o' at hfirst ⊢
  cases hfirst with
  | done a after => exact hf a after
  | failed hfault stop => exact .failed hfault stop

lemma within {r r' : Reader α} (h : Reader.EqUpToLimit r r') (octets : List UInt8) :
    Reader.EqUpToLimit (Reader.within octets r) (Reader.within octets r') := by
  intro c
  have hinner := h (Cursor.start octets)
  unfold Reader.within
  generalize r (Cursor.start octets) = o, r' (Cursor.start octets) = o' at hinner ⊢
  cases hinner with
  | done a _ => exact .done a c
  | failed hfault _ => exact .failed hfault c

end Reader.EqUpToLimit

end Wire

namespace Decoder

variable {limits limits' : Limits}

lemma compositional_eqUpToLimit (hinflated : limits.maxInflated = limits'.maxInflated)
    (hrandom : limits.minRandom = limits'.minRandom) :
    Compositional (fun _ => Reader.EqUpToLimit) limits limits' where
  primitive _ := .refl _
  bind := .bind
  within octets h := h.within octets
  opened := hinflated ▸ .refl _
  randomBytes := hrandom ▸ .refl _

lemma eqUpToLimit_tooDeep {α : Type} (limits limits' : Limits) :
    Reader.EqUpToLimit (tooDeep limits : Reader α) (tooDeep limits') :=
  fun c => .failed (.tooDeep c.pos limits.maxDepth limits'.maxDepth) c

/-- **Only the levels that are left decide how deep a decoder reads.**  By induction on them. -/
lemma eqUpToLimit_step (hinflated : limits.maxInflated = limits'.maxInflated)
    (hrandom : limits.minRandom = limits'.minRandom) (plan : Plan) (levels : ℕ) (st : Step) :
    Reader.EqUpToLimit (step plan limits levels st) (step plan limits' levels st) := by
  have hcompositional := compositional_eqUpToLimit hinflated hrandom
  have hlevels :
      Compositional.Levels (fun _ => Reader.EqUpToLimit) limits limits' plan levels levels := by
    induction levels with
    | zero =>
        exact ⟨fun _ => eqUpToLimit_tooDeep _ _, fun _ => eqUpToLimit_tooDeep _ _,
          fun _ _ => eqUpToLimit_tooDeep _ _⟩
    | succ levels ih => exact hcompositional.level ih
  obtain ⟨hrun, -, hvector⟩ := hlevels
  exact hcompositional.stepWith hrun hvector st

end Decoder

end TypeLang
