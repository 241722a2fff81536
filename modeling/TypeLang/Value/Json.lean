import TypeLang.Json.Basic
import TypeLang.Json.Keyed
import TypeLang.Text.Hex
import TypeLang.Value.Basic

/-!
# Values and JSON

`Value.toJson` shows a value as JSON: octets as hexadecimal text, a record as an object whose key
`_` holds the predicate.  Of fields with one name the last counts.  `Value.ofJson` takes a JSON tree
for a value: whole numbers that fit 64 bits are numbers of eight octets, all others doubles.
-/

namespace TypeLang.Value

/-- The key under which a record shows its predicate. -/
def predicateKey : String :=
  "_"

/-- A double that is no finite number shows as `null`. -/
def doubleToJson (d : Double) : Json :=
  if d.isFinite then .double d else .null

mutual

/-- A value as JSON. -/
def toJson : Value → Json
  | null => .null
  | bool b => .bool b
  | int n => .integer n.toInt
  | long n => .integer n.toInt
  | double d => doubleToJson d
  | bytes content => .string (Text.hex content)
  | string s => .string s
  | vector items => .array (itemsToJson items)
  | map entries => .object (entriesToJson entries)
  | record predicate fields =>
    .object (insertKeys [(predicateKey, .string predicate)] (entriesToJson fields))

/-- Values as JSON, one by one. -/
def itemsToJson : List Value → List Json
  | [] => []
  | v :: rest => toJson v :: itemsToJson rest

/-- Named values as JSON, one by one. -/
def entriesToJson : List (String × Value) → List (String × Json)
  | [] => []
  | (key, v) :: rest => (key, toJson v) :: entriesToJson rest

end

/-- A whole number as a value. -/
def ofInteger (n : Int) : Value :=
  if Int64.minValue.toInt ≤ n ∧ n ≤ Int64.maxValue.toInt then long (Int64.ofInt n)
  else if n < 0 then double (Double.ofNat n.natAbs).neg
  else double (Double.ofNat n.natAbs)

mutual

/-- A JSON tree as a value. -/
def ofJson : Json → Value
  | .null => null
  | .bool b => bool b
  | .integer n => ofInteger n
  | .double d => double d
  | .string s => string s
  | .array items => vector (itemsOfJson items)
  | .object entries => map (entriesOfJson entries)

/-- JSON trees as values, one by one. -/
def itemsOfJson : List Json → List Value
  | [] => []
  | j :: rest => ofJson j :: itemsOfJson rest

/-- Named JSON trees as values, one by one. -/
def entriesOfJson : List (String × Json) → List (String × Value)
  | [] => []
  | (key, j) :: rest => (key, ofJson j) :: entriesOfJson rest

end

end TypeLang.Value
