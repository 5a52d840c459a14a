import Mathlib.Algebra.GroupWithZero.Nat
import Limpid.Dsl.Value

/-!
# Values as JSON

`dsl/value_json.rs`: the form in which values leave the program, for the queue, the tap and the
error log.  Bytes have a marker object of their own; a key that begins with a dollar sign gets one
more, so that no object of the user's is taken for the marker.

`Json` is `serde_json::Value` in the configuration the program builds it in, where an object keeps
its entries in order, each key once.  The `base64` crate is a parameter.
-/

namespace Limpid.Dsl

/-! ## JSON -/

/-- `serde_json::Number`; only negative numbers are `negInt`. -/
inductive JsonNumber where
  | posInt (n : UInt64)
  | negInt (n : Int64)
  | float (n : F64)

namespace JsonNumber

/-- `serde_json::Number` of an `i64`. -/
def ofInt (n : Int64) : JsonNumber :=
  if 0 ≤ n then posInt n.toUInt64 else negInt n

/-- `as_i64`. -/
def asInt : JsonNumber → Option Int64
  | posInt n => if n.toNat ≤ Int64.maxValue.toInt.toNat then some n.toInt64 else none
  | negInt n => some n
  | float _ => none

theorem asInt_ofInt (n : Int64) : (ofInt n).asInt = some n := by
  unfold ofInt
  split
  · next h =>
      have hle : n.toUInt64.toNat ≤ Int64.maxValue.toInt.toNat := by
        rw [Int64.toNat_toUInt64_of_le h]
        exact Int.toNat_le_toNat n.toInt_le
      rw [asInt, if_pos hle]
      rfl
  · rfl

/-- `as_u64`. -/
def asUInt : JsonNumber → Option UInt64
  | posInt n => some n
  | _ => none

end JsonNumber

/-- `serde_json::Value`. -/
inductive Json where
  | null
  | bool (b : Bool)
  | number (n : JsonNumber)
  | string (s : String)
  | array (items : List Json)
  | object (entries : List (String × Json))

namespace Json

/-- `get`. -/
def get (key : String) : Json → Option Json
  | object entries => entries.lookup key
  | _ => none

/-- `as_str`. -/
def asString : Json → Option String
  | string s => some s
  | _ => none

/-- `as_i64`. -/
def asInt : Json → Option Int64
  | number n => n.asInt
  | _ => none

/-- `as_u64`. -/
def asUInt : Json → Option UInt64
  | number n => n.asUInt
  | _ => none

/-- `Map::insert`: a key keeps its place. -/
def insert (key : String) (value : Json) : List (String × Json) → List (String × Json)
  | [] => [(key, value)]
  | (k, v) :: rest => if k = key then (k, value) :: rest else (k, v) :: insert key value rest

/-- `json_shape`. -/
def shape : Json → String
  | null => "null"
  | bool _ => "bool"
  | number _ => "number"
  | string _ => "string"
  | array _ => "array"
  | object _ => "object"

end Json

/-! ## The boundary -/

/-- `base64::engine::general_purpose::STANDARD`. -/
structure Base64 where
  encode : Bytes → String
  decode : String → Except String Bytes

/-- `BYTES_MARKER_KEY`. -/
def bytesMarkerKey : String := "$bytes_b64"

/-- `escape_user_key`: a key like the marker gets one more dollar sign. -/
def escapeUserKey (key : String) : String :=
  match key.toList with
  | '$' :: rest => String.ofList ('$' :: '$' :: rest)
  | _ => key

/-- The key as the user has it; a single dollar sign is reserved. -/
def unescapeUserKey (rt : Runtime) (key : String) : Except String String :=
  match key.toList with
  | '$' :: '$' :: rest => .ok (String.ofList ('$' :: rest))
  | '$' :: _ =>
      .error (s!"unknown reserved key in JSON object: {rt.debug key} " ++
        "(single-`$`-prefixed keys are reserved for limpid internal markers; " ++
        "user keys starting with `$` must be doubled in JSON form)")
  | _ => .ok key

/-- `timestamp_nanos_opt`. -/
def timestampNanos (instant : Timestamp) : Option Int64 :=
  if Int64.minValue.toInt ≤ instant ∧ instant ≤ Int64.maxValue.toInt then
    some (Int64.ofInt instant)
  else none

section Boundary

variable (rt : Runtime) (base64 : Base64)

mutual

/-- `value_to_json`. -/
def valueToJson : OwnedValue → Except String Json
  | .null => .ok .null
  | .bool b => .ok (.bool b)
  | .int n => .ok (.number (.ofInt n))
  | .float n =>
      if rt.isFinite n then .ok (.number (.float n))
      else .error s!"cannot serialize non-finite float to JSON: {rt.display n}"
  | .string s => .ok (.string s)
  | .timestamp instant =>
      match timestampNanos instant with
      | some nanos => .ok (.number (.ofInt nanos))
      | none => .error "timestamp out of i64 nanosecond range"
  | .bytes data => .ok (.object [(bytesMarkerKey, .string (base64.encode data))])
  | .array items => do
      let out ← itemsToJson items
      return .array out
  | .object entries => do
      let out ← entriesToJson entries []
      return .object out

def itemsToJson : List OwnedValue → Except String (List Json)
  | [] => .ok []
  | item :: rest => do
      let value ← valueToJson item
      let out ← itemsToJson rest
      return value :: out

def entriesToJson :
    List (String × OwnedValue) → List (String × Json) → Except String (List (String × Json))
  | [], out => .ok out
  | (key, value) :: rest, out => do
      let value ← valueToJson value
      entriesToJson rest (Json.insert (escapeUserKey key) value out)

end

/-- A number of JSON. -/
def numberToValue (n : JsonNumber) : OwnedValue :=
  match n, n.asInt with
  | _, some i => .int i
  | .posInt u, none => .float (rt.ofUInt u)
  | .negInt i, none => .float (rt.ofInt i)
  | .float n, none => .float n

mutual

/-- `json_to_value`. -/
def jsonToValue : Json → Except String OwnedValue
  | .null => .ok .null
  | .bool b => .ok (.bool b)
  | .number n => .ok (numberToValue rt n)
  | .string s => .ok (.string s)
  | .array items => do
      let out ← jsonToItems items
      return .array out
  | .object [(key, payload)] =>
      if key = bytesMarkerKey then
        match payload with
        | .string s =>
            match base64.decode s with
            | .ok data => .ok (.bytes data)
            | .error e => .error s!"invalid base64 in {bytesMarkerKey}: {e}"
        | payload => .error s!"{bytesMarkerKey} marker must hold a string, got {payload.shape}"
      else do
        let key ← unescapeUserKey rt key
        let value ← jsonToValue payload
        return .object [(key, value)]
  | .object entries => do
      let out ← jsonToEntries entries []
      return .object out

def jsonToItems : List Json → Except String (List OwnedValue)
  | [] => .ok []
  | item :: rest => do
      let value ← jsonToValue item
      let out ← jsonToItems rest
      return value :: out

def jsonToEntries : List (String × Json) → Map → Except String Map
  | [], out => .ok out
  | (key, value) :: rest, out => do
      let key ← unescapeUserKey rt key
      let value ← jsonToValue value
      jsonToEntries rest (out.insert key value)

end

end Boundary

end Limpid.Dsl
