import TypeLang.Decoder.Run

/-!
# Sessions

A decoder keeps the step of every type that it has been asked for by a text, so that no text is read
twice.  Its copies share what is kept, so the calls on all of them are calls of one session.
-/

namespace TypeLang

open Wire

/-- A decoder with the steps that are kept for it. -/
structure Session where
  /-- The decoder. -/
  decoder : Decoder
  /-- The texts of types with their steps, the latest first. -/
  kept : List (String × Step)

namespace Session

/-- A decoder for which nothing is kept yet. -/
def start (d : Decoder) : Session :=
  ⟨d, []⟩

/-- The step of a type that is given as text.  A step that is not kept yet is made and kept; where
none can be made, nothing is. -/
def stepOf (x : Session) (type : String) : Except Fault (Step × Session) :=
  match x.kept.lookup type with
  | some st => .ok (st, x)
  | none => (x.decoder.stepOf type).map fun st => (st, { x with kept := (type, st) :: x.kept })

/-- Reads what is asked for. -/
def answer (x : Session) (request : Decoder.Request) (c : Cursor) : Outcome Value × Session :=
  match request with
  | .object => (x.decoder.readObject c, x)
  | .type text =>
    match x.stepOf text with
    | .ok (st, x) =>
      (Decoder.step x.decoder.plan x.decoder.limits x.decoder.limits.maxDepth st c, x)
    | .error fault => (.failed fault c, x)

/-- The session after some calls, the first one first. -/
def after (x : Session) : List (Decoder.Request × Cursor) → Session
  | [] => x
  | (request, c) :: rest => (x.answer request c).2.after rest

end Session

end TypeLang
