import TypeLang.Proofs.Wire.Reader
import TypeLang.Wire.Primitive

/-!
# What a reading does with its wire

The trace of a reading lists what it passes over without a look, the flag words that it takes in,
and the envelopes that it opens.  A trace is made beside its reading: wherever the reading of one
part decides where and how the next part is read, the reader of that part is run for it, and where
it fails the trace ends.

Bits of a wire are counted from its start, those of an octet from the lowest, so that the bits of a
little-endian number come in their order.
-/

namespace TypeLang.Wire

variable {α : Type}

/-- The fault at which reading stopped, if any. -/
def Outcome.fault? : Outcome α → Option Fault
  | done _ _ => none
  | failed fault _ => some fault

lemma Outcome.fault?_eq_some {o : Outcome α} {fault : Fault} :
    o.fault? = some fault ↔ ∃ stop, o = .failed fault stop := by
  cases o <;> simp [fault?]

/-! ## Events -/

/-- Something that a reading does on its wire. -/
inductive Event where
  /-- `length` octets from `start` on are passed over. -/
  | skipped (start length : ℕ)
  /-- The flag word at `start` is read, of which only the bits in `gating` gate a field. -/
  | word (start : ℕ) (gating : List ℕ)
  /-- The envelope between `start` and `stop` is opened, and its content read, unless it has a
  fault. -/
  | envelope (start stop : ℕ) (fault? : Option Fault)
  deriving DecidableEq, Repr

/-- Whether what is read has nothing to do with a bit of the wire. -/
def Event.Ignores : Event → (i : ℕ) → Prop
  | skipped start length, i => 8 * start ≤ i ∧ i < 8 * (start + length)
  | word start gating, i => 8 * start ≤ i ∧ i < 8 * (start + 4) ∧ i - 8 * start ∉ gating
  | envelope .., _ => False

/-- Whether one of some events ignores a bit of the wire. -/
def Ignored (events : List Event) (i : ℕ) : Prop :=
  ∃ e ∈ events, e.Ignores i

instance (e : Event) (i : ℕ) : Decidable (e.Ignores i) :=
  match e with
  | .skipped start length => inferInstanceAs (Decidable (8 * start ≤ i ∧ i < 8 * (start + length)))
  | .word start gating =>
    inferInstanceAs (Decidable (8 * start ≤ i ∧ i < 8 * (start + 4) ∧ i - 8 * start ∉ gating))
  | .envelope .. => inferInstanceAs (Decidable False)

instance (events : List Event) (i : ℕ) : Decidable (Ignored events i) :=
  inferInstanceAs (Decidable (∃ e ∈ events, e.Ignores i))

@[simp] lemma not_ignored_nil (i : ℕ) : ¬Ignored [] i := by
  simp [Ignored]

@[simp] lemma ignored_append {first second : List Event} {i : ℕ} :
    Ignored (first ++ second) i ↔ Ignored first i ∨ Ignored second i := by
  simp [Ignored, or_and_right, exists_or]

@[simp] lemma ignored_cons {e : Event} {events : List Event} {i : ℕ} :
    Ignored (e :: events) i ↔ e.Ignores i ∨ Ignored events i := by
  simp [Ignored]

/-! ## Traces -/

/-- The events of a reading, by the cursor from which it begins. -/
abbrev Trace : Type :=
  Cursor → List Event

namespace Trace

/-- Nothing happens that is listed. -/
def silent : Trace := fun _ => []

/-- `n` octets are passed over. -/
def skipped (n : ℕ) : Trace := fun c => [.skipped c.pos n]

/-- What happens while `first` is read, and then what happens behind it. -/
def andThen (t : Trace) (first : Reader α) (next : α → Trace) : Trace := fun c =>
  t c ++
    match first c with
    | .done a after => next a after
    | .failed _ _ => []

variable {t : Trace} {first : Reader α} {next : α → Trace} {c after : Cursor} {a : α}

lemma andThen_of_done (h : first c = .done a after) :
    t.andThen first next c = t c ++ next a after := by
  rw [andThen, h]

lemma andThen_of_failed {fault : Fault} {stop : Cursor} (h : first c = .failed fault stop) :
    t.andThen first next c = t c := by
  rw [andThen, h, List.append_nil]

@[simp] lemma andThen_silent (t : Trace) (first : Reader α) :
    t.andThen first (fun _ => silent) = t := by
  funext c
  cases h : first c with
  | done a after => rw [andThen_of_done h, silent, List.append_nil]
  | failed fault stop => exact andThen_of_failed h

/-! ## Primitive forms -/

/-- An octet string: what fills it up is passed over. -/
def octets : Trace :=
  silent.andThen Reader.lengthMark fun mark =>
    silent.andThen (Reader.take mark.length) fun _ => skipped mark.padding

/-- Random octets are passed over with what fills them up, unless there are too few. -/
def random (least : ℕ) : Trace :=
  silent.andThen Reader.lengthMark fun mark =>
    if mark.length < least then silent else skipped (mark.length + mark.padding)

/-- An envelope behind its tag is an octet string that is opened. -/
def opened (limit : ℕ) (inner : Reader α) : Trace := fun c =>
  octets.andThen (Reader.opened limit)
    (fun content after => [.envelope (c.pos - 4) after.pos (inner (.start content)).fault?]) c

/-- A flag word and what comes after it. -/
def word (gating : List ℕ) (next : UInt32 → Trace) : Trace := fun c =>
  .word c.pos gating :: silent.andThen Reader.uint32 next c

/-! ## Rows and vectors -/

/-- Items one after another. -/
def items (item : Reader α) (t : Trace) : ℕ → Trace
  | 0 => silent
  | n + 1 => t.andThen item fun _ => items item t n

/-- A count and as many elements. -/
def bareVector (elem : Reader α) (t : Trace) : Trace :=
  silent.andThen Reader.count (items elem t)

/-- A boxed vector, or an envelope with one. -/
def boxedVector (limit : ℕ) (elem : Reader α) (t : Trace) : Trace :=
  silent.andThen Reader.uint32 fun tag =>
    if tag = Tag.vector then bareVector elem t
    else if tag = Tag.gzipPacked then
      opened limit (Reader.afterVectorTag (Reader.bareVector elem))
    else silent

end Trace

end TypeLang.Wire
