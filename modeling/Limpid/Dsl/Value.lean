import Mathlib.Data.List.Basic
import Limpid.Bytes

/-!
# Values of the configuration language

`dsl/value.rs`.  `Value` is what the evaluator computes with; `OwnedValue` is the same tree as it
is kept outside an evaluation.  The two differ at objects: a `Value` is a list of entries in which
a key may occur more than once, an `OwnedValue` holds an insertion-ordered map (`Map`).

A `f64` is its bit pattern.  What the processor and the standard library do with it is a
parameter, `Runtime`, together with the text form of a timestamp, which is the `chrono` crate's,
and the debug form of a string.
-/

namespace Limpid.Dsl

/-- A `f64`, as `f64::to_bits` shows it. -/
structure F64 where
  bits : UInt64
deriving DecidableEq

/-- Nanoseconds since the epoch, in UTC. -/
abbrev Timestamp := Int

/-- What the evaluator uses of the `f64` type and of `chrono`. -/
structure Runtime where
  ofInt : Int64 → F64
  ofUInt : UInt64 → F64
  /-- `as i64`, saturating. -/
  toInt : F64 → Int64
  add : F64 → F64 → F64
  sub : F64 → F64 → F64
  mul : F64 → F64 → F64
  div : F64 → F64 → F64
  rem : F64 → F64 → F64
  neg : F64 → F64
  eq : F64 → F64 → Bool
  partialCmp : F64 → F64 → Option Ordering
  isNan : F64 → Bool
  isFinite : F64 → Bool
  fract : F64 → F64
  parse : String → Option F64
  display : F64 → String
  toRfc3339 : Timestamp → String
  /-- `{:?}` of a string. -/
  debug : String → String

/-- `0.0`. -/
def F64.zero : F64 := ⟨0⟩

/-- `1.0`. -/
def F64.one : F64 := ⟨0x3ff0000000000000⟩

/-- `Value`: a value in the arena. -/
inductive Value where
  | null
  | bool (b : Bool)
  | int (n : Int64)
  | float (n : F64)
  | string (s : String)
  | bytes (b : Bytes)
  | timestamp (instant : Timestamp)
  | array (items : List Value)
  | object (entries : List (String × Value))

/-- `OwnedValue`. -/
inductive OwnedValue where
  | null
  | bool (b : Bool)
  | int (n : Int64)
  | float (n : F64)
  | string (s : String)
  | bytes (b : Bytes)
  | timestamp (instant : Timestamp)
  | array (items : List OwnedValue)
  | object (entries : List (String × OwnedValue))

/-- `IndexMap<String, OwnedValue>`, in insertion order. -/
abbrev Map := List (String × OwnedValue)

/-- `IndexMap::insert`: a key keeps its place. -/
def Map.insert (key : String) (value : OwnedValue) : Map → Map
  | [] => [(key, value)]
  | (k, v) :: rest => if k = key then (k, value) :: rest else (k, v) :: insert key value rest

namespace Value

variable (rt : Runtime)

/-- `type_name`. -/
def typeName : Value → String
  | null => "null"
  | bool _ => "bool"
  | int _ => "int"
  | float _ => "float"
  | string _ => "string"
  | bytes _ => "bytes"
  | timestamp _ => "timestamp"
  | array _ => "array"
  | object _ => "object"

/-- `is_truthy`. -/
def isTruthy : Value → Bool
  | null => false
  | bool b => b
  | int n => n ≠ 0
  | float n => !rt.eq n .zero && !rt.isNan n
  | string s => !s.isEmpty
  | bytes b => !b.isEmpty
  | timestamp _ => true
  | array items => !items.isEmpty
  | object entries => !entries.isEmpty

mutual

/-- `PartialEq for Value`. -/
def beq : Value → Value → Bool
  | null, null => true
  | bool a, bool b => a = b
  | int a, int b => a = b
  | float a, float b => rt.eq a b
  | int a, float b => rt.eq (rt.ofInt a) b
  | float b, int a => rt.eq (rt.ofInt a) b
  | string a, string b => a = b
  | bytes a, bytes b => a = b
  | timestamp a, timestamp b => a = b
  | array a, array b => beqItems a b
  | object a, object b => beqEntries a b
  | _, _ => false

def beqItems : List Value → List Value → Bool
  | [], [] => true
  | a :: as, b :: bs => beq a b && beqItems as bs
  | _, _ => false

def beqEntries : List (String × Value) → List (String × Value) → Bool
  | [], [] => true
  | (ka, a) :: as, (kb, b) :: bs => ka = kb && beq a b && beqEntries as bs
  | _, _ => false

end

mutual

/-- `to_owned_value`: of the entries of an object with one key the last wins. -/
def toOwnedValue : Value → OwnedValue
  | null => .null
  | bool b => .bool b
  | int n => .int n
  | float n => .float n
  | string s => .string s
  | bytes b => .bytes b
  | timestamp instant => .timestamp instant
  | array items => .array (toOwnedItems items)
  | object entries => .object (toOwnedEntries entries [])

def toOwnedItems : List Value → List OwnedValue
  | [] => []
  | item :: rest => toOwnedValue item :: toOwnedItems rest

def toOwnedEntries : List (String × Value) → Map → Map
  | [], map => map
  | (key, value) :: rest, map => toOwnedEntries rest (map.insert key (toOwnedValue value))

end

end Value

namespace OwnedValue

mutual

/-- `view_in`. -/
def viewIn : OwnedValue → Value
  | null => .null
  | bool b => .bool b
  | int n => .int n
  | float n => .float n
  | string s => .string s
  | bytes b => .bytes b
  | timestamp instant => .timestamp instant
  | array items => .array (viewItems items)
  | object entries => .object (viewEntries entries)

def viewItems : List OwnedValue → List Value
  | [] => []
  | item :: rest => viewIn item :: viewItems rest

def viewEntries : List (String × OwnedValue) → List (String × Value)
  | [] => []
  | (key, value) :: rest => (key, viewIn value) :: viewEntries rest

end

end OwnedValue

end Limpid.Dsl
