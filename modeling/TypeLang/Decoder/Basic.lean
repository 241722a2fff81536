import TypeLang.Plan.Compile
import TypeLang.Wire.Shape

/-!
# Decoders

A decoder is a schema with its plan and the limits that it keeps.
-/

namespace TypeLang

/-- The limits that a decoder keeps. -/
structure Limits where
  /-- The most octets that come out of an envelope. -/
  maxInflated : Nat := Wire.defaultMaxInflated
  /-- The fewest octets of a field of random octets. -/
  minRandom : Nat := 15
  /-- The most levels of constructors, vectors and envelopes. -/
  maxDepth : Nat := 128
  deriving DecidableEq, Repr, Inhabited

/-- A schema that is ready for reading. -/
structure Decoder where
  /-- The schema. -/
  schema : Schema
  /-- Its plan. -/
  plan : Plan
  /-- The limits in force. -/
  limits : Limits

/-- The decoder of a schema, unless something is wrong with the schema. -/
def Decoder.ofSchema (schema : Schema) (limits : Limits) : Except Wire.Fault Decoder :=
  (Plan.compile schema).map fun plan => ⟨schema, plan, limits⟩

end TypeLang
