import TypeLang.Proofs.Wire.Following
import TypeLang.Wire.Shape

/-!
# Cursors go over their wire piece by piece

Whatever is asked of a cursor, one thing after another and also behind faults, the cursor never
falls back behind where it has stood, and what the answers take are pieces of the wire that lie side
by side.  Together they are all that lies before the cursor in the end.

Inside of an answer a cursor may go back, over a tag that is to be reported.  How far is told by the
moves that the cursor makes.  `Moves` follows them through the ways in which readers are put
together, and `Walk` says of moves that they lead from one place to another, with nothing between
them, and go back only over four octets that have just been taken and are taken again at once.  What
comes out of an envelope is a wire of its own, on which the cursor walks in the same way.
-/

namespace TypeLang.Wire

variable {α β : Type}

/-! ## Moves -/

/-- A move of a cursor. -/
inductive Move where
  /-- The octets from `start` up to `stop` are taken. -/
  | taken (start stop : ℕ)
  /-- The cursor goes back from `start` to `stop`. -/
  | back (start stop : ℕ)
  /-- Octets of their own are read, by these moves. -/
  | inside (octets : List UInt8) (moves : List Move)

/-- The move over the next `n` octets, if there are as many. -/
def Move.next (n : ℕ) (c : Cursor) : List Move :=
  if n ≤ c.remaining then [.taken c.pos (c.pos + n)] else []

/-- The moves that a reader makes from a cursor on, along the ways in which readers are put
together. -/
inductive Moves : {α : Type} → Reader α → Cursor → List Move → Prop
  | pure {α : Type} (a : α) (c : Cursor) : Moves (pure a : Reader α) c []
  | fail {α : Type} (fault : Fault) (c : Cursor) : Moves (Reader.fail fault : Reader α) c []
  | position (c : Cursor) : Moves Reader.position c []
  | take (n : ℕ) (c : Cursor) : Moves (Reader.take n) c (Move.next n c)
  | takeExactly (n : ℕ) (c : Cursor) : Moves (Reader.takeExactly n) c (Move.next n c)
  | rewind (n : ℕ) (c : Cursor) : Moves (Reader.rewind n) c [.back c.pos (c.rewind n).pos]
  | within {α : Type} {inner : Reader α} {octets : List UInt8} {ms : List Move}
      (hinner : Moves inner (.start octets) ms) (c : Cursor) :
      Moves (Reader.within octets inner) c [.inside octets ms]
  | bind {α β : Type} {r : Reader α} {f : α → Reader β} {c m : Cursor} {a : α}
      {ms ms' : List Move} (hr : Moves r c ms) (hdone : r c = .done a m)
      (hf : Moves (f a) m ms') : Moves (r >>= f) c (ms ++ ms')
  /-- Behind a fault nothing more is read. -/
  | broken {α β : Type} {r : Reader α} {f : α → Reader β} {c stop : Cursor} {fault : Fault}
      {ms : List Move} (hr : Moves r c ms) (hfailed : r c = .failed fault stop) :
      Moves (r >>= f) c ms

/-- Moves that lead from one place to another, with nothing between them. -/
inductive Walk : ℕ → List Move → ℕ → Prop
  | stay (p : ℕ) : Walk p [] p
  | taken {p q r : ℕ} {ms : List Move} (h : p ≤ q) (rest : Walk q ms r) :
      Walk p (.taken p q :: ms) r
  /-- A tag has just been taken; the cursor goes back to its start and takes it again. -/
  | again {p r : ℕ} {ms : List Move} (rest : Walk (p + 4) ms r) :
      Walk p (.taken p (p + 4) :: .back (p + 4) p :: .taken p (p + 4) :: ms) r
  | inside {p q r : ℕ} {octets : List UInt8} {inner ms : List Move} (hinner : Walk 0 inner q)
      (hend : q ≤ octets.length) (rest : Walk p ms r) : Walk p (.inside octets inner :: ms) r

namespace Walk

variable {p q r : ℕ} {ms ms' : List Move}

lemma append (h : Walk p ms q) (h' : Walk q ms' r) : Walk p (ms ++ ms') r := by
  induction h with
  | stay p => exact h'
  | taken hle _ ih => exact .taken hle (ih h')
  | again _ ih => exact .again (ih h')
  | inside hinner hend _ _ ih => exact .inside hinner hend (ih h')

lemma le (h : Walk p ms q) : p ≤ q := by
  induction h with
  | stay p => exact le_rfl
  | taken hle _ ih => exact hle.trans ih
  | again _ ih => exact (Nat.le_add_right _ 4).trans ih
  | inside _ _ _ _ ih => exact ih

end Walk

/-! ## Readers by which a cursor walks -/

/-- From a cursor on, a reader walks on the same wire to where it ends, well or not. -/
structure GoesOn (r : Reader α) (c : Cursor) : Prop where
  buffer_eq : (r c).cursor.buffer = c.buffer
  walks : ∃ ms, Moves r c ms ∧ Walk c.pos ms (r c).cursor.pos

/-- A reader walks wherever it begins. -/
def Steady (r : Reader α) : Prop :=
  ∀ c, GoesOn r c

/-- Behind a tag a reader walks, taken together with the tag. -/
structure SteadyBehindTag (r : Reader α) : Prop where
  buffer_eq : ∀ (c : Cursor) (h : 4 ≤ c.remaining),
    (r (c.advance 4 h)).cursor.buffer = c.buffer
  walks : ∀ (c : Cursor) (h : 4 ≤ c.remaining), ∃ ms, Moves r (c.advance 4 h) ms ∧
    Walk c.pos (.taken c.pos (c.pos + 4) :: ms) (r (c.advance 4 h)).cursor.pos

lemma GoesOn.bind {r : Reader α} {f : α → Reader β} {c : Cursor} (hr : GoesOn r c)
    (hf : ∀ a m, r c = .done a m → GoesOn (f a) m) : GoesOn (r >>= f) c := by
  obtain ⟨hbuffer, ms, hms, hwalk⟩ := hr
  cases h : r c with
  | failed fault stop =>
      have hwhole : (r >>= f) c = .failed fault stop := Reader.bind_of_failed h f
      rw [h] at hbuffer hwalk
      constructor
      · rw [hwhole]
        exact hbuffer
      · rw [hwhole]
        exact ⟨ms, .broken hms h, hwalk⟩
  | done a m =>
      obtain ⟨hbuffer', ms', hms', hwalk'⟩ := hf a m h
      have hwhole : (r >>= f) c = f a m := Reader.bind_of_done h f
      rw [h] at hbuffer hwalk
      constructor
      · rw [hwhole]
        exact hbuffer'.trans hbuffer
      · rw [hwhole]
        exact ⟨ms ++ ms', .bind hms h hms', hwalk.append hwalk'⟩

namespace Steady

/-! ### Combining -/

lemma pure (a : α) : Steady (Pure.pure a : Reader α) :=
  fun c => ⟨rfl, [], .pure a c, .stay _⟩

lemma fail (fault : Fault) : Steady (Reader.fail fault : Reader α) :=
  fun c => ⟨rfl, [], .fail fault c, .stay _⟩

lemma position : Steady Reader.position :=
  fun c => ⟨rfl, [], .position c, .stay _⟩

lemma bind {r : Reader α} {f : α → Reader β} (hr : Steady r) (hf : ∀ a, Steady (f a)) :
    Steady (r >>= f) := by
  intro c
  exact (hr c).bind fun a m _ => hf a m

lemma ite {p : Prop} [Decidable p] {r t : Reader α} (hr : Steady r) (ht : Steady t) :
    Steady (if p then r else t) := by
  by_cases h : p
  · rwa [if_pos h]
  · rwa [if_neg h]

lemma ofExcept (x : Except Fault α) : Steady (Reader.ofExcept x) := by
  cases x with
  | error fault => exact fail fault
  | ok a => exact pure a

lemma take (n : ℕ) : Steady (Reader.take n) := by
  intro c
  have hmoves : Moves (Reader.take n) c (Move.next n c) := .take n c
  unfold Move.next at hmoves
  by_cases h : n ≤ c.remaining
  · rw [if_pos h] at hmoves
    constructor
    · rw [take_of_le h]
      rfl
    · rw [take_of_le h]
      exact ⟨_, hmoves, .taken (Nat.le_add_right _ _) (.stay _)⟩
  · rw [if_neg h] at hmoves
    constructor
    · rw [take_of_not_le h]
      rfl
    · rw [take_of_not_le h]
      exact ⟨_, hmoves, .stay _⟩

/-- Octets with the proof of their number are taken as octets without it. -/
lemma takeExactly (n : ℕ) : Steady (Reader.takeExactly n) := by
  intro c
  have hsame : (Reader.takeExactly n c).cursor = (Reader.take n c).cursor := by
    unfold Reader.takeExactly Reader.take
    split_ifs <;> rfl
  obtain ⟨hbuffer, -⟩ := take n c
  refine ⟨hsame ▸ hbuffer, Move.next n c, .takeExactly n c, ?_⟩
  rw [hsame]
  unfold Move.next Reader.take
  split_ifs with h
  · exact .taken (Nat.le_add_right _ _) (.stay _)
  · exact .stay _

/-- The cursor of an envelope walks on a wire of its own. -/
lemma within {inner : Reader α} (hinner : Steady inner) (octets : List UInt8) :
    Steady (Reader.within octets inner) := by
  intro c
  have hstill : (Reader.within octets inner c).cursor = c := by
    unfold Reader.within
    cases inner (.start octets) <;> rfl
  obtain ⟨hbuffer, ms, hms, hwalk⟩ := hinner (.start octets)
  have hend : (inner (.start octets)).cursor.pos ≤ octets.length := by
    have hsize := congrArg Array.size hbuffer
    exact (inner (.start octets)).cursor.pos_le.trans hsize.le
  constructor
  · rw [hstill]
  · rw [hstill]
    exact ⟨_, .within hms c, .inside hwalk hend (.stay _)⟩

/-! ### Behind a tag -/

lemma behindTag {r : Reader α} (hr : Steady r) : SteadyBehindTag r := by
  constructor
  · intro c h
    exact (hr (c.advance 4 h)).buffer_eq
  · intro c h
    obtain ⟨-, ms, hms, hwalk⟩ := hr (c.advance 4 h)
    exact ⟨ms, hms, .taken (Nat.le_add_right _ _) hwalk⟩

end Steady

lemma moves_uint32 {c : Cursor} (h : 4 ≤ c.remaining) :
    Moves Reader.uint32 c [.taken c.pos (c.pos + 4)] := by
  have htake : Moves (Reader.take 4) c [.taken c.pos (c.pos + 4)] := by
    have hmoves := Moves.take 4 c
    rwa [Move.next, if_pos h] at hmoves
  have hnumber : Moves (Reader.number 4) c [.taken c.pos (c.pos + 4)] :=
    htake.bind (take_of_le h) (.pure _ _)
  exact hnumber.bind (Reader.bind_of_done (take_of_le h) _) (.pure _ _)

namespace SteadyBehindTag

lemma ite {p : Prop} [Decidable p] {r t : Reader α} (hr : SteadyBehindTag r)
    (ht : SteadyBehindTag t) : SteadyBehindTag (if p then r else t) := by
  by_cases h : p
  · rwa [if_pos h]
  · rwa [if_neg h]

/-- Going back to the start of the tag, the cursor stands where it stood before the tag. -/
lemma unknownTag (expected : String) :
    SteadyBehindTag (Reader.unknownTag expected : Reader α) := by
  have hread : ∀ (c : Cursor) (h : 4 ≤ c.remaining), ∃ fault,
      (Reader.unknownTag expected : Reader α) (c.advance 4 h) = .failed fault (c.advance 4 h) ∧
        Moves (Reader.unknownTag expected : Reader α) (c.advance 4 h)
          [.back (c.pos + 4) c.pos, .taken c.pos (c.pos + 4)] := by
    intro c h
    obtain ⟨tag, htag⟩ : ∃ tag, Reader.uint32 c = .done tag (c.advance 4 h) :=
      ⟨_, uint32_of_le h⟩
    have hrewind : (c.advance 4 h).rewind 4 = c := by
      simp [Cursor.advance, Cursor.rewind]
    have hback : Reader.rewind 4 (c.advance 4 h) = .done () c := by
      rw [Reader.rewind, hrewind]
    have hmoves : Moves (Reader.rewind 4) (c.advance 4 h) [.back (c.pos + 4) c.pos] := by
      have hmoves := Moves.rewind 4 (c.advance 4 h)
      rwa [hrewind] at hmoves
    refine ⟨.unknownTag tag c.pos expected, ?_, ?_⟩
    · unfold Reader.unknownTag
      rw [Reader.bind_of_done hback, Reader.bind_of_done (rfl : Reader.position c = .done c.pos c),
        Reader.bind_of_done htag]
      rfl
    · refine hmoves.bind hback ((Moves.position c).bind rfl ?_)
      exact (moves_uint32 h).bind htag (.fail _ _)
  constructor
  · intro c h
    obtain ⟨fault, hfailed, -⟩ := hread c h
    rw [hfailed]
    rfl
  · intro c h
    obtain ⟨fault, hfailed, hmoves⟩ := hread c h
    rw [hfailed]
    exact ⟨_, hmoves, .again (.stay _)⟩

end SteadyBehindTag

namespace Steady

/-- What goes on behind a tag may go back over it. -/
lemma tag {f : UInt32 → Reader α} (hf : ∀ tag, SteadyBehindTag (f tag)) :
    Steady (Reader.uint32 >>= f) := by
  intro c
  by_cases h : 4 ≤ c.remaining
  · have htag := uint32_of_le h
    obtain ⟨ms, hms, hwalk⟩ := (hf _).walks c h
    constructor
    · rw [Reader.bind_of_done htag]
      exact (hf _).buffer_eq c h
    · rw [Reader.bind_of_done htag]
      exact ⟨_, (moves_uint32 h).bind htag hms, hwalk⟩
  · have hsteady : Steady Reader.uint32 := ((take 4).bind fun _ => pure _).bind fun _ => pure _
    refine (hsteady c).bind fun tag m hdone => ?_
    rw [uint32_of_not_le h] at hdone
    cases hdone

/-! ### Primitive forms -/

lemma skip (n : ℕ) : Steady (Reader.skip n) :=
  (take n).bind fun _ => pure ()

lemma number (width : ℕ) : Steady (Reader.number width) :=
  (take width).bind fun _ => pure _

lemma uint32 : Steady Reader.uint32 :=
  (number 4).bind fun _ => pure _

lemma int32 : Steady Reader.int32 :=
  (number 4).bind fun _ => pure _

lemma int64 : Steady Reader.int64 :=
  (number 8).bind fun _ => pure _

lemma double : Steady Reader.double :=
  (number 8).bind fun _ => pure _

lemma bool : Steady Reader.bool := by
  apply tag
  intro tag
  exact .ite (pure _).behindTag (.ite (pure _).behindTag (.unknownTag _))

lemma lengthMark : Steady Reader.lengthMark := by
  refine position.bind fun _ => (number 1).bind fun _ => ite (fail _) (ite ?_ (pure _))
  exact (number 3).bind fun _ => pure _

lemma bytes : Steady Reader.bytes :=
  lengthMark.bind fun mark => (take _).bind fun _ => (skip mark.padding).bind fun _ => pure _

lemma randomBytes (least : ℕ) : Steady (Reader.randomBytes least) :=
  position.bind fun _ => lengthMark.bind fun _ => ite (fail _) (skip _)

lemma string : Steady Reader.string := by
  apply bytes.bind
  intro octets
  cases Text.unutf8 octets with
  | ok chars => exact pure _
  | error fault => exact fail _

lemma opened (limit : ℕ) : Steady (Reader.opened limit) :=
  position.bind fun _ => bytes.bind fun _ => ofExcept _

lemma count : Steady Reader.count :=
  position.bind fun _ => int32.bind fun _ => ite (fail _) (pure _)

/-! ### Rows, vectors and shapes -/

lemma items {item : Reader α} (hitem : Steady item) (n : ℕ) : Steady (Reader.items item n) := by
  induction n with
  | zero => exact pure []
  | succ n ih =>
      rw [Reader.items_succ]
      exact hitem.bind fun _ => ih.bind fun _ => pure _

lemma bareVector {elem : Reader α} (helem : Steady elem) : Steady (Reader.bareVector elem) :=
  count.bind helem.items

lemma afterVectorTag {body : Reader α} (hbody : Steady body) :
    Steady (Reader.afterVectorTag body) := by
  apply tag
  intro tag
  exact .ite hbody.behindTag (.unknownTag _)

lemma boxedVector {elem : Reader α} (helem : Steady elem) (limit : ℕ) :
    Steady (Reader.boxedVector limit elem) := by
  have hpacked : Steady (Reader.opened limit >>= fun octets =>
      Reader.within octets (Reader.afterVectorTag (Reader.bareVector elem))) :=
    (opened limit).bind fun octets => helem.bareVector.afterVectorTag.within octets
  apply tag
  intro tag
  exact .ite helem.bareVector.behindTag (.ite hpacked.behindTag (.unknownTag _))

/-- By the shape: a vector is walked over element by element. -/
lemma read (shape : Shape) : Steady shape.read := by
  induction shape with
  | int32 => exact int32
  | uint32 => exact uint32
  | int64 => exact int64
  | double => exact double
  | bool => exact bool
  | string => exact string
  | bytes => exact bytes
  | fixed size => exact takeExactly size
  | boxedVector elem ih => exact ih.boxedVector defaultMaxInflated
  | bareVector elem ih => exact ih.bareVector

end Steady

/-! ## Steps of a cursor -/

/-- What may be asked of a cursor. -/
inductive CursorStep where
  /-- The next `n` octets. -/
  | slice (n : ℕ)
  /-- The next octet. -/
  | octet
  /-- Octets to fill a place of `n` octets. -/
  | fill (n : ℕ)
  /-- An array of `n` octets. -/
  | array (n : ℕ)
  /-- To pass over `n` octets. -/
  | skip (n : ℕ)
  /-- An octet string. -/
  | bytes
  /-- To pass over at least `least` random octets. -/
  | randomBytes (least : ℕ)
  /-- The content of an envelope behind its tag, of at most `limit` octets. -/
  | opened (limit : ℕ)
  /-- A value of a shape. -/
  | value (shape : Shape)

namespace CursorStep

/-- What a step gives. -/
def Result : CursorStep → Type
  | slice _ | fill _ | bytes | opened _ => List UInt8
  | octet => ℕ
  | array n => { octets : List UInt8 // octets.length = n }
  | skip _ | randomBytes _ => Unit
  | value shape => shape.Carrier

/-- Reads what is asked for. -/
def read : (s : CursorStep) → Reader s.Result
  | slice n => Reader.take n
  | octet => Reader.number 1
  | fill n => Reader.take n
  | array n => Reader.takeExactly n
  | skip n => Reader.skip n
  | bytes => Reader.bytes
  | randomBytes least => Reader.randomBytes least
  | opened limit => Reader.opened limit
  | value shape => shape.read

/-- Whether a step asks for octets by their number. -/
def IsPlain : CursorStep → Prop
  | slice _ | octet | fill _ | array _ | skip _ => True
  | bytes | randomBytes _ | opened _ | value _ => False

lemma steady_read (s : CursorStep) : Steady s.read := by
  cases s with
  | slice n => exact .take n
  | octet => exact .number 1
  | fill n => exact .take n
  | array n => exact .takeExactly n
  | skip n => exact .skip n
  | bytes => exact .bytes
  | randomBytes least => exact .randomBytes least
  | opened limit => exact .opened limit
  | value shape => exact .read shape

end CursorStep

/-! ### Steps that take all or nothing -/

/-- Where a reader fails, the cursor stays. -/
def Stays (r : Reader α) : Prop :=
  ∀ c fault stop, r c = .failed fault stop → stop = c

lemma stays_take (n : ℕ) : Stays (Reader.take n) := by
  intro c fault stop h
  unfold Reader.take at h
  split_ifs at h
  cases h
  rfl

lemma stays_takeExactly (n : ℕ) : Stays (Reader.takeExactly n) := by
  intro c fault stop h
  unfold Reader.takeExactly at h
  split_ifs at h
  cases h
  rfl

lemma stays_bind_pure {r : Reader α} (hr : Stays r) (f : α → β) :
    Stays (r >>= fun a => pure (f a)) := by
  intro c fault stop h
  rw [Reader.bind_apply] at h
  cases hread : r c with
  | done a m =>
      rw [hread] at h
      cases h
  | failed fault' stop' =>
      rw [hread] at h
      cases h
      exact hr c _ _ hread

lemma CursorStep.IsPlain.stays {s : CursorStep} (h : s.IsPlain) : Stays s.read := by
  cases s with
  | slice n => exact stays_take n
  | octet => exact stays_bind_pure (stays_take 1) _
  | fill n => exact stays_take n
  | array n => exact stays_takeExactly n
  | skip n => exact stays_bind_pure (stays_take n) _
  | bytes => exact h.elim
  | randomBytes least => exact h.elim
  | opened limit => exact h.elim
  | value shape => exact h.elim

/-! ## Steps one after another -/

/-- A step of a cursor, and the cursor before it. -/
structure Leg where
  step : CursorStep
  before : Cursor

namespace Leg

/-- What comes of the step. -/
def outcome (l : Leg) : Outcome l.step.Result :=
  l.step.read l.before

/-- The cursor behind the step, whether it went well or not. -/
def after (l : Leg) : Cursor :=
  l.outcome.cursor

/-- The octets that the step consumes. -/
def octets (l : Leg) : List UInt8 :=
  (l.before.buffer.extract l.before.pos l.after.pos).toList

end Leg

/-- The legs of some steps from a cursor on.  Each begins where the one before has ended. -/
def legs : List CursorStep → Cursor → List Leg
  | [], _ => []
  | s :: rest, c => ⟨s, c⟩ :: legs rest (Leg.mk s c).after

/-- The cursor behind some steps. -/
def finish : List CursorStep → Cursor → Cursor
  | [], c => c
  | s :: rest, c => finish rest (Leg.mk s c).after

lemma Leg.goesOn (l : Leg) : GoesOn l.step.read l.before :=
  l.step.steady_read l.before

lemma Leg.pos_le (l : Leg) : l.before.pos ≤ l.after.pos := by
  obtain ⟨ms, -, hwalk⟩ := l.goesOn.walks
  exact hwalk.le

section

variable (steps : List CursorStep) (c : Cursor)

lemma buffer_of_mem_legs {l : Leg} (hl : l ∈ legs steps c) : l.before.buffer = c.buffer := by
  induction steps generalizing c with
  | nil => cases hl
  | cons s rest ih =>
      rcases List.mem_cons.1 hl with rfl | hl
      · rfl
      · exact (ih _ hl).trans (Leg.mk s c).goesOn.buffer_eq

lemma pos_le_of_mem_legs {l : Leg} (hl : l ∈ legs steps c) : c.pos ≤ l.before.pos := by
  induction steps generalizing c with
  | nil => cases hl
  | cons s rest ih =>
      rcases List.mem_cons.1 hl with rfl | hl
      · exact le_rfl
      · exact (Leg.mk s c).pos_le.trans (ih _ hl)

lemma pos_le_finish : c.pos ≤ (finish steps c).pos := by
  induction steps generalizing c with
  | nil => exact le_rfl
  | cons s rest ih => exact (Leg.mk s c).pos_le.trans (ih _)

lemma adjacent_legs : (legs steps c).IsChain fun l next => next.before = l.after := by
  induction steps generalizing c with
  | nil => exact .nil
  | cons s rest ih =>
      cases rest with
      | nil => exact .singleton _
      | cons t rest => exact .cons_cons rfl (ih _)

lemma disjoint_legs :
    (legs steps c).Pairwise fun l later => l.after.pos ≤ later.before.pos := by
  induction steps generalizing c with
  | nil => exact .nil
  | cons s rest ih => exact .cons (fun later h => pos_le_of_mem_legs rest _ h) (ih _)

/-- Two pieces side by side are one piece. -/
lemma octets_of_legs : ((legs steps c).map Leg.octets).flatten =
    (c.buffer.extract c.pos (finish steps c).pos).toList := by
  induction steps generalizing c with
  | nil => simp [legs, finish]
  | cons s rest ih =>
      have hfirst : c.pos ≤ (Leg.mk s c).after.pos := (Leg.mk s c).pos_le
      have hrest : (Leg.mk s c).after.pos ≤ (finish rest (Leg.mk s c).after).pos :=
        pos_le_finish rest _
      have hbuffer : (Leg.mk s c).after.buffer = c.buffer := (Leg.mk s c).goesOn.buffer_eq
      rw [legs, List.map_cons, List.flatten_cons, ih, hbuffer]
      show (c.buffer.extract c.pos (Leg.mk s c).after.pos).toList ++ _ = _
      rw [← Array.toList_append, Array.extract_append_extract, Nat.min_eq_left hfirst,
        Nat.max_eq_right hrest]
      rfl

end

/-- How a step goes on a wire. -/
structure GoesOver (wire : List UInt8) (l : Leg) : Prop where
  before_eq : l.before.buffer = wire.toArray
  after_eq : l.after.buffer = wire.toArray
  forward : l.before.pos ≤ l.after.pos
  le_end : l.after.pos ≤ wire.length
  /-- A step that asks for octets by their number takes nothing where it fails. -/
  stays : l.step.IsPlain → ∀ fault stop, l.outcome = .failed fault stop → l.after = l.before
  /-- All moves of the step lie side by side, and go back over a tag that has just been taken
  only. -/
  walks : ∃ ms, Moves l.step.read l.before ms ∧ Walk l.before.pos ms l.after.pos

/-- **Cursors go over their wire piece by piece.**  Of any steps of a cursor, one after another and
also behind faults, each goes forward on the wire; what they consume lies side by side and does not
overlap; and together it is all that lies before the cursor in the end. -/
theorem legs_partition (wire : List UInt8) (steps : List CursorStep) :
    (∀ l ∈ legs steps (.start wire), GoesOver wire l) ∧
      (legs steps (.start wire)).IsChain (fun l next => next.before = l.after) ∧
        (legs steps (.start wire)).Pairwise (fun l later => l.after.pos ≤ later.before.pos) ∧
          ((legs steps (.start wire)).map Leg.octets).flatten =
            wire.take (finish steps (.start wire)).pos := by
  refine ⟨?_, adjacent_legs steps _, disjoint_legs steps _, ?_⟩
  · intro l hl
    have hbefore : l.before.buffer = wire.toArray := buffer_of_mem_legs steps _ hl
    have hafter : l.after.buffer = wire.toArray := l.goesOn.buffer_eq.trans hbefore
    constructor
    case before_eq => exact hbefore
    case after_eq => exact hafter
    case forward => exact l.pos_le
    case le_end =>
      have hend := l.after.pos_le
      rwa [hafter, List.size_toArray] at hend
    case stays =>
      intro hplain fault stop hfailed
      have hstop : stop = l.before := hplain.stays _ _ _ hfailed
      rw [Leg.after, hfailed, ← hstop]
      rfl
    case walks => exact l.goesOn.walks
  · rw [octets_of_legs]
    simp [Cursor.start]

/-- A tag that is unknown and reported, more octets than are left, and the last octet. -/
def brokenSteps : List CursorStep :=
  [.value .bool, .array 4, .octet]

theorem brokenSteps_partition :
    (legs brokenSteps (.start [1, 2, 3, 4, 5])).map (fun l => (l.before.pos, l.after.pos)) =
        [(0, 4), (4, 4), (4, 5)] ∧
      (∀ l ∈ legs brokenSteps (.start [1, 2, 3, 4, 5]), GoesOver [1, 2, 3, 4, 5] l) ∧
        ((legs brokenSteps (.start [1, 2, 3, 4, 5])).map Leg.octets).flatten =
          [1, 2, 3, 4, 5] := by
  obtain ⟨hlegs, -, -, hoctets⟩ := legs_partition [1, 2, 3, 4, 5] brokenSteps
  have hfinish : (finish brokenSteps (.start [1, 2, 3, 4, 5])).pos = 5 := by decide
  rw [hfinish] at hoctets
  exact ⟨by decide, hlegs, hoctets⟩

end TypeLang.Wire
