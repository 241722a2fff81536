import TypeLang.Number.Double

/-!
# Values

What a wire holds, once it has been read by a schema.  A record keeps the predicate of its
constructor and its fields in wire order; fields behind a closed gate are missing.  Everything else
carries no mark of its type.
-/

namespace TypeLang

/-- A value. -/
inductive Value where
  /-- Nothing, as in JSON. -/
  | null
  /-- A truth value, or a field that is merely there. -/
  | bool (b : Bool)
  | int (n : Int32)
  | long (n : Int64)
  | double (d : Double)
  | bytes (content : List UInt8)
  | string (s : String)
  | vector (items : List Value)
  /-- The entries of a JSON object, sorted by key, each key once. -/
  | map (entries : List (String × Value))
  | record (predicate : String) (fields : List (String × Value))
  deriving Repr, Inhabited

namespace Value

/-- The truth value. -/
def asBool? : Value → Option Bool
  | bool b => some b
  | _ => none

/-- The number of four octets. -/
def asInt? : Value → Option Int32
  | int n => some n
  | _ => none

/-- The number of eight octets; one of four is widened. -/
def asLong? : Value → Option Int64
  | long n => some n
  | int n => some n.toInt64
  | _ => none

/-- The double. -/
def asDouble? : Value → Option Double
  | double d => some d
  | _ => none

/-- The octets. -/
def asBytes? : Value → Option (List UInt8)
  | bytes content => some content
  | _ => none

/-- The string. -/
def asString? : Value → Option String
  | string s => some s
  | _ => none

/-- The elements of a vector. -/
def asVector? : Value → Option (List Value)
  | vector items => some items
  | _ => none

/-- The entries of a JSON object. -/
def asMap? : Value → Option (List (String × Value))
  | map entries => some entries
  | _ => none

/-- The predicate and the fields of a record. -/
def asRecord? : Value → Option (String × List (String × Value))
  | record predicate fields => some (predicate, fields)
  | _ => none

/-- The predicate of a record. -/
def predicate? (v : Value) : Option String :=
  v.asRecord?.map (·.1)

/-- The first field of a name in a record. -/
def field? (v : Value) (name : String) : Option Value :=
  v.asRecord?.bind (·.2.lookup name)

end Value

end TypeLang
