import TypeLang.Proofs.Decoder.Rows

/-!
# Relations that go through a decoder

A decoder is put together in a few ways from readers of primitive forms and from the three readers
that look at a limit.  A relation is `Compositional` if it holds of the parts that are read and is
kept by the ways; then it goes up from one level to the next.  It starts where no level is left.  A
`Congruence` asks nothing of what the second decoder reads there, so that it relates all that a
decoder reads within some limits to what it reads within others, on as many levels or more.  A
property of single readers is a relation that looks at the first of them.

The walk along the decoder is made here, once.  The laws that use it supply a relation.
-/

namespace TypeLang

open Wire

/-- Readers of primitive forms, none of which looks at a limit. -/
inductive Primitive : {α : Type} → Reader α → Prop
  | pure {α : Type} (a : α) : Primitive (pure a)
  | fail {α : Type} (fault : Fault) : Primitive (Reader.fail fault : Reader α)
  | unknownTag {α : Type} (expected : String) : Primitive (Reader.unknownTag expected : Reader α)
  | take (n : ℕ) : Primitive (Reader.take n)
  | uint32 : Primitive Reader.uint32
  | int32 : Primitive Reader.int32
  | int64 : Primitive Reader.int64
  | double : Primitive Reader.double
  | bool : Primitive Reader.bool
  | bytes : Primitive Reader.bytes
  | string : Primitive Reader.string
  | count : Primitive Reader.count

/-- A relation that holds of the parts of decoders with these limits, and is kept where they are put
together. -/
structure Compositional (R : ∀ ⦃α : Type⦄, Reader α → Reader α → Prop) (limits limits' : Limits) :
    Prop where
  primitive : ∀ {α : Type} {r : Reader α}, Primitive r → R r r
  bind : ∀ {α β : Type} {r r' : Reader α} {f f' : α → Reader β}, R r r' →
    (∀ a, R (f a) (f' a)) → R (r >>= f) (r' >>= f')
  within : ∀ {α : Type} {inner inner' : Reader α} (octets : List UInt8), R inner inner' →
    R (Reader.within octets inner) (Reader.within octets inner')
  opened : R (Reader.opened limits.maxInflated) (Reader.opened limits'.maxInflated)
  randomBytes : R (Reader.randomBytes limits.minRandom) (Reader.randomBytes limits'.minRandom)

/-- A relation of which nothing is asked where the first decoder has no level left. -/
structure Congruence (R : ∀ ⦃α : Type⦄, Reader α → Reader α → Prop) (limits limits' : Limits) :
    Prop extends Compositional R limits limits' where
  tooDeep : ∀ {α : Type} (r' : Reader α), R (Decoder.tooDeep limits) r'

namespace Compositional

variable {R : ∀ ⦃α : Type⦄, Reader α → Reader α → Prop} {limits limits' : Limits} {α β : Type}

lemma ite {p : Prop} [Decidable p] {r r' t t' : Reader α} (hr : R r r') (ht : R t t') :
    R (if p then r else t) (if p then r' else t') := by
  by_cases h : p
  · rwa [if_pos h, if_pos h]
  · rwa [if_neg h, if_neg h]

section

variable (h : Compositional R limits limits')

include h

/-! ## Rows and vectors -/

lemma ofExcept (x : Except Fault α) : R (Reader.ofExcept x) (Reader.ofExcept x) := by
  cases x with
  | error fault => exact h.primitive (.fail fault)
  | ok a => exact h.primitive (.pure a)

/-- What is made of a value is made of it on both sides. -/
lemma bind_pure {r r' : Reader α} (hr : R r r') (f : α → β) :
    R (r >>= fun a => pure (f a)) (r' >>= fun a => pure (f a)) :=
  h.bind hr fun _ => h.primitive (.pure _)

lemma items {item item' : Reader α} (hitem : R item item') (n : ℕ) :
    R (Reader.items item n) (Reader.items item' n) := by
  induction n with
  | zero => exact h.primitive (.pure [])
  | succ n ih =>
      rw [Reader.items_succ, Reader.items_succ]
      exact h.bind hitem fun a => h.bind_pure ih fun as => a :: as

section

variable {elem elem' : Reader α} (helem : R elem elem')

include helem

lemma bareVector : R (Reader.bareVector elem) (Reader.bareVector elem') :=
  h.bind (h.primitive .count) fun n => h.items helem n

lemma boxedVector : R (Reader.boxedVector limits.maxInflated elem)
    (Reader.boxedVector limits'.maxInflated elem') := by
  have hrow : R (Reader.bareVector elem) (Reader.bareVector elem') := h.bareVector helem
  have hother : R (Reader.unknownTag "Vector" : Reader (List α)) (Reader.unknownTag "Vector") :=
    h.primitive (.unknownTag "Vector")
  have hcontent : R (Reader.afterVectorTag (Reader.bareVector elem))
      (Reader.afterVectorTag (Reader.bareVector elem')) :=
    h.bind (h.primitive .uint32) fun tag => ite hrow hother
  have hopened := h.bind h.opened fun octets => h.within octets hcontent
  exact h.bind (h.primitive .uint32) fun tag => ite hrow (ite hopened hother)

end

/-! ## Bodies, steps and dispatches -/

section

variable {step step' : Step → Reader Value} (hstep : ∀ st, R (step st) (step' st))

include hstep

lemma fields (fs : List FieldStep) (words : Decoder.Words) (read : List (String × Value)) :
    R (Decoder.fields limits.minRandom step fs words read)
      (Decoder.fields limits'.minRandom step' fs words read) := by
  induction fs generalizing words read with
  | nil => exact h.primitive (.pure _)
  | cons f rest ih =>
      unfold Decoder.fields
      refine ite ?_ (ih words read)
      cases f.op with
      | flagWord slot => exact h.bind (h.primitive .uint32) fun word => ih _ _
      | presence => exact ih _ _
      | randomBytes => exact h.bind h.randomBytes fun _ => ih _ _
      | thumbnail => exact h.bind (h.primitive .bytes) fun octets => ih _ _
      | read st => exact h.bind (hstep st) fun v => ih _ _

lemma body (b : Body) : R (Decoder.body limits.minRandom step b)
    (Decoder.body limits'.minRandom step' b) :=
  h.bind (h.fields hstep b.fields Decoder.noWords []) fun _ => h.ofExcept _

end

section

variable {run run' : ℕ → Reader Value} (hrun : ∀ n, R (run n) (run' n))

include hrun

lemma stepWith {vector vector' : Bool → Step → Reader (List Value)}
    (hvector : ∀ boxed elem, R (vector boxed elem) (vector' boxed elem)) (st : Step) :
    R (Decoder.stepWith run vector st) (Decoder.stepWith run' vector' st) := by
  cases st with
  | int => exact h.bind_pure (h.primitive .int32) _
  | long => exact h.bind_pure (h.primitive .int64) _
  | double => exact h.bind_pure (h.primitive .double) _
  | bool => exact h.bind_pure (h.primitive .bool) _
  | bytes => exact h.bind_pure (h.primitive .bytes) _
  | string => exact h.bind_pure (h.primitive .string) _
  | waveform => exact h.bind_pure (h.primitive .bytes) _
  | fixed size => exact h.bind_pure (h.primitive (.take size)) _
  | vector boxed elem => exact h.bind_pure (hvector boxed elem) _
  | entries boxed elem => exact h.bind (hvector boxed elem) fun items => h.ofExcept _
  | call n => exact hrun n

lemma dispatch (d : Dispatch) {again again' : Reader Value} (hagain : R again again') :
    R (Decoder.dispatch limits.maxInflated d run again)
      (Decoder.dispatch limits'.maxInflated d run' again') := by
  refine h.bind (h.primitive .uint32) fun tag => ?_
  cases d.arms.lookup tag with
  | some n => exact hrun n
  | none =>
      have hopened := h.bind h.opened fun octets => h.within octets hagain
      exact ite hopened (h.primitive (.unknownTag d.expected))

end

/-! ## Levels -/

/-- All that decoders read within some levels is related. -/
def Levels (R : ∀ ⦃α : Type⦄, Reader α → Reader α → Prop) (limits limits' : Limits) (plan : Plan)
    (levels levels' : ℕ) : Prop :=
  (∀ n, R (Decoder.run plan limits levels n) (Decoder.run plan limits' levels' n)) ∧
    (∀ d, R (Decoder.reopen plan limits levels d) (Decoder.reopen plan limits' levels' d)) ∧
      ∀ boxed elem, R (Decoder.vector plan limits levels boxed elem)
        (Decoder.vector plan limits' levels' boxed elem)

/-- What holds on some levels holds on one more. -/
lemma level {plan : Plan} {levels levels' : ℕ}
    (hlevels : Levels R limits limits' plan levels levels') :
    Levels R limits limits' plan (levels + 1) (levels' + 1) := by
  obtain ⟨hrun, hreopen, hvector⟩ := hlevels
  have hstep := h.stepWith hrun hvector
  refine ⟨fun n => ?_, fun d => ?_, fun boxed elem => ?_⟩
  · unfold Decoder.run
    cases plan.routine n with
    | reserved => exact h.primitive (.fail _)
    | dispatch d => exact h.dispatch hrun d (hreopen d)
    | body b => exact h.body hstep b
  · unfold Decoder.reopen
    exact h.dispatch hrun d (hreopen d)
  · unfold Decoder.vector
    rw [Decoder.vectorOf_eq, Decoder.vectorOf_eq]
    exact ite (h.boxedVector (hstep elem)) (h.bareVector (hstep elem))

end

end Compositional

/-! ## Levels and requests -/

namespace Congruence

variable {R : ∀ ⦃α : Type⦄, Reader α → Reader α → Prop} {limits limits' : Limits}

/-- By induction on the levels of the first decoder, each of which the second one has too. -/
lemma levels (h : Congruence R limits limits') (plan : Plan) {levels levels' : ℕ}
    (hle : levels ≤ levels') : Compositional.Levels R limits limits' plan levels levels' := by
  induction levels generalizing levels' with
  | zero => exact ⟨fun _ => h.tooDeep _, fun _ => h.tooDeep _, fun _ _ => h.tooDeep _⟩
  | succ levels ih =>
      obtain ⟨more, rfl⟩ : ∃ more, levels' = more + 1 :=
        Nat.exists_eq_succ_of_ne_zero (Nat.ne_zero_of_lt hle)
      exact h.level (ih (Nat.le_of_succ_le_succ hle))

/-- What is asked of a decoder is read alike, up to the relation, within both limits. -/
lemma answer {d : Decoder} (h : Congruence R d.limits limits')
    (hdepth : d.limits.maxDepth ≤ limits'.maxDepth) (request : Decoder.Request) :
    R (d.answer request) (Decoder.answer { d with limits := limits' } request) := by
  obtain ⟨hrun, -, hvector⟩ := h.levels d.plan hdepth
  cases request with
  | object => exact hrun Plan.topLevel
  | type text => exact h.bind (h.ofExcept _) fun st => h.stepWith hrun hvector st

end Congruence

end TypeLang
