import TypeLang.Wire.Fault

/-!
# Readers

A cursor is a place on a wire: the octets of the wire, and the number of those that have been read.
A reader takes a cursor to an outcome: a value and the cursor after it, or a fault and the cursor at
which reading stopped.

Every reader consumes octets through `take` alone, which consumes all that it is asked for or
nothing.  Only `rewind` goes back, and only to look at a tag again that is about to be reported.
-/

namespace TypeLang.Wire

/-! ## Cursors -/

/-- A place on a wire. -/
structure Cursor where
  /-- The octets of the wire. -/
  buffer : Array UInt8
  /-- The number of octets before the place. -/
  pos : Nat
  /-- The place lies on the wire. -/
  pos_le : pos ≤ buffer.size
  deriving DecidableEq, Repr

namespace Cursor

/-- The start of a wire. -/
def start (wire : List UInt8) : Cursor :=
  ⟨wire.toArray, 0, Nat.zero_le _⟩

instance : Inhabited Cursor :=
  ⟨start []⟩

/-- The number of octets that are left. -/
def remaining (c : Cursor) : Nat :=
  c.buffer.size - c.pos

/-- The octets that are left. -/
def rest (c : Cursor) : List UInt8 :=
  c.buffer.toList.drop c.pos

/-- The next `n` octets, or all that are left if there are fewer. -/
def next (c : Cursor) (n : Nat) : List UInt8 :=
  (c.buffer.extract c.pos (c.pos + n)).toList

theorem length_next {c : Cursor} {n : Nat} (h : n ≤ c.remaining) : (c.next n).length = n := by
  have := c.pos_le
  unfold remaining at h
  simp only [next, Array.length_toList, Array.size_extract]
  omega

/-- The cursor behind the next `n` octets. -/
def advance (c : Cursor) (n : Nat) (h : n ≤ c.remaining) : Cursor :=
  ⟨c.buffer, c.pos + n, by have := c.pos_le; unfold remaining at h; omega⟩

/-- The cursor before the last `n` octets, though not before the start. -/
def rewind (c : Cursor) (n : Nat) : Cursor :=
  ⟨c.buffer, c.pos - n, by have := c.pos_le; omega⟩

end Cursor

/-! ## Outcomes -/

/-- What comes of reading. -/
inductive Outcome (α : Type) where
  /-- A value was read, up to the cursor `after`. -/
  | done (value : α) (after : Cursor)
  /-- Reading stopped at the cursor `stop`. -/
  | failed (fault : Fault) (stop : Cursor)

/-- The cursor where reading ended, well or not. -/
def Outcome.cursor {α : Type} : Outcome α → Cursor
  | done _ after => after
  | failed _ stop => stop

/-- A value and what it leaves, or a fault and where it occurs. -/
def Reader (α : Type) : Type :=
  Cursor → Outcome α

namespace Reader

/-! ## Combining readers -/

/-- Reads nothing. -/
def done {α : Type} (value : α) : Reader α := fun c =>
  .done value c

/-- Stops with a fault. -/
def fail {α : Type} (fault : Fault) : Reader α := fun c =>
  .failed fault c

/-- Reads one thing and then another that depends on it. -/
def andThen {α β : Type} (first : Reader α) (next : α → Reader β) : Reader β := fun c =>
  match first c with
  | .done value after => next value after
  | .failed fault stop => .failed fault stop

instance : Monad Reader where
  pure := done
  bind := andThen

/-- What a computation gives, or its fault. -/
def ofExcept {α : Type} : Except Fault α → Reader α
  | .ok value => done value
  | .error fault => fail fault

/-! ## Moving -/

/-- The number of octets before the cursor. -/
def position : Reader Nat := fun c =>
  .done c.pos c

/-- The next `n` octets.  If fewer are left, none is consumed. -/
def take (n : Nat) : Reader (List UInt8) := fun c =>
  if h : n ≤ c.remaining then .done (c.next n) (c.advance n h)
  else .failed (.truncated c.pos n) c

/-- The next `n` octets, with the proof that there are as many. -/
def takeExactly (n : Nat) : Reader { bytes : List UInt8 // bytes.length = n } := fun c =>
  if h : n ≤ c.remaining then .done ⟨c.next n, Cursor.length_next h⟩ (c.advance n h)
  else .failed (.truncated c.pos n) c

/-- Passes over `n` octets. -/
def skip (n : Nat) : Reader Unit := do
  let _ ← take n

/-- Goes back over `n` octets. -/
def rewind (n : Nat) : Reader Unit := fun c =>
  .done () (c.rewind n)

/-- Reads from octets of their own.  A fault in them leaves the cursor of the wire where it is. -/
def within {α : Type} (octets : List UInt8) (inner : Reader α) : Reader α := fun c =>
  match inner (Cursor.start octets) with
  | .done value _ => .done value c
  | .failed fault _ => .failed fault c

/-! ## Items in a row -/

/-- Reads `n` items after those `read` in reverse. -/
def itemsFrom {α : Type} (item : Reader α) : (n : Nat) → (read : List α) → Reader (List α)
  | 0, read => done read.reverse
  | n + 1, read => fun c =>
    match item c with
    | .done value after => itemsFrom item n (value :: read) after
    | .failed fault stop => .failed fault stop

/-- Reads `n` items. -/
def items {α : Type} (item : Reader α) (n : Nat) : Reader (List α) :=
  itemsFrom item n []

end Reader

end TypeLang.Wire
