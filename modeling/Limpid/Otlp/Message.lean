import Limpid.Dsl.Value

/-!
# Messages of the logs protocol

The messages below `ResourceLogs` as the `opentelemetry-proto` crate has them, with all of their
fields.  The `value` of an `AnyValue` is a `oneof`, `AnyValue.Kind`.
-/

namespace Limpid.Otlp

open Dsl

mutual

/-- `AnyValue`. -/
inductive AnyValue where
  | mk (value : Option AnyValueKind)

/-- `any_value::Value`. -/
inductive AnyValueKind where
  | stringValue (s : String)
  | boolValue (b : Bool)
  | intValue (n : Int64)
  | doubleValue (f : F64)
  | arrayValue (values : List AnyValue)
  | kvlistValue (values : List KeyValue)
  | bytesValue (bytes : Bytes)
  | stringValueStrindex (n : Int32)

/-- `KeyValue`. -/
inductive KeyValue where
  | mk (key : String) (value : Option AnyValue) (keyStrindex : Int32)

end

/-- `EntityRef`. -/
structure EntityRef where
  schemaUrl : String
  type : String
  idKeys : List String
  descriptionKeys : List String
deriving DecidableEq

/-- `Resource`. -/
structure Resource where
  attributes : List KeyValue
  droppedAttributesCount : UInt32
  entityRefs : List EntityRef

/-- `InstrumentationScope`. -/
structure InstrumentationScope where
  name : String
  version : String
  attributes : List KeyValue
  droppedAttributesCount : UInt32

/-- `LogRecord`. -/
structure LogRecord where
  timeUnixNano : UInt64
  observedTimeUnixNano : UInt64
  severityNumber : Int32
  severityText : String
  body : Option AnyValue
  attributes : List KeyValue
  droppedAttributesCount : UInt32
  flags : UInt32
  traceId : Bytes
  spanId : Bytes
  eventName : String

/-- `ScopeLogs`. -/
structure ScopeLogs where
  scope : Option InstrumentationScope
  logRecords : List LogRecord
  schemaUrl : String

/-- `ResourceLogs`. -/
structure ResourceLogs where
  resource : Option Resource
  scopeLogs : List ScopeLogs
  schemaUrl : String

end Limpid.Otlp
