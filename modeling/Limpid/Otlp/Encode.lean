import Limpid.Fields
import Limpid.Otlp.Message

/-!
# The `otlp` functions

The two mappers of `functions/otlp/encode.rs` between `ResourceLogs` messages and objects of the
configuration language.  The protobuf and JSON forms of a message belong to the `prost` and
`serde_json` crates; the warning about a timestamp that cannot be coerced is left out.

`hashlit_to_anyvalue` calls itself on what the accessors find, so the accessors hand the function
they apply a proof that the value lies inside the object (`optFieldAt`, `arrayFieldAt`,
`valuesFieldAt`).  Without that proof they are `optField`, `arrayField` and `valuesField`.
-/

namespace Limpid.Dsl.Value

/-- A string. -/
def asStr : Value → Option String
  | .string s => some s
  | _ => none

/-- A boolean. -/
def asBool : Value → Option Bool
  | .bool b => some b
  | _ => none

/-- An integer. -/
def asI64 : Value → Option Int64
  | .int n => some n
  | _ => none

/-- A number as a float. -/
def asF64 (rt : Runtime) : Value → Option F64
  | .int n => some (rt.ofInt n)
  | .float f => some f
  | _ => none

end Limpid.Dsl.Value

namespace Limpid.Otlp

open Dsl Fields

abbrev Entries := List (String × Value)

/-! ## Field accessors -/

/-- `expect_object`, with what is done with the entries. -/
def expectObjectAt {T : Type} (v : Value) (ctx : String)
    (f : (entries : Entries) → v = .object entries → Except String T) : Except String T :=
  match v with
  | .object entries => f entries rfl
  | other => .error s!"{ctx}: expected object, got {other.typeName}"

/-- `expect_object`. -/
def expectObject (v : Value) (ctx : String) : Except String Entries :=
  expectObjectAt v ctx fun entries _ => .ok entries

/-- The string under a key. -/
def stringField (entries : Entries) (key : String) : Option String :=
  (entries.lookup key).bind Value.asStr

/-- The number under a key, if it fits. -/
def u32Field (entries : Entries) (key : String) : Option UInt32 :=
  (((entries.lookup key).bind Value.asI64).filter fun n =>
    0 ≤ n.toInt ∧ n.toInt ≤ 0xffffffff).map fun n => UInt32.ofNat n.toInt.toNat

/-- The number under a key, if it fits. -/
def i32Field (entries : Entries) (key : String) : Option Int32 :=
  (((entries.lookup key).bind Value.asI64).filter fun n =>
    Int32.minValue.toInt ≤ n.toInt ∧ n.toInt ≤ Int32.maxValue.toInt).map fun n =>
      Int32.ofInt n.toInt

section Timestamps

/-- `timestamp_nanos_opt`. -/
def timestampNanosOpt (instant : Timestamp) : Option Int64 :=
  if Int64.minValue.toInt ≤ instant ∧ instant ≤ Int64.maxValue.toInt then
    some (Int64.ofInt instant)
  else none

-- `floatToU64` is `as u64`, saturating
variable (rt : Runtime) (floatToU64 : F64 → UInt64)

/-- `coerce_u64`: an integer, or a text of digits. -/
def coerceU64 : Value → Option UInt64
  | .int n => if 0 ≤ n then some n.toUInt64 else none
  | .float f =>
      if rt.isFinite f ∧ (rt.partialCmp f .zero = some .gt ∨ rt.partialCmp f .zero = some .eq) ∧
          rt.eq (rt.fract f) .zero ∧ rt.partialCmp f (rt.ofUInt (UInt64.ofNat (UInt64.size - 1))) =
            some .lt then
        some (floatToU64 f)
      else none
  | .timestamp instant =>
      (timestampNanosOpt instant).bind fun n => if 0 ≤ n then some n.toUInt64 else none
  | _ => none

/-- `timestamp_u64_field`. -/
def timestampU64Field (entries : Entries) (key : String) : UInt64 :=
  match entries.lookup key with
  | none => 0
  | some v => (coerceU64 rt floatToU64 v).getD 0

end Timestamps

/-- The bytes under a key, or a text in hexadecimal. -/
def bytesField (entries : Entries) (key : String) : Option Bytes :=
  (entries.lookup key).bind fun v =>
    match v with
    | .bytes b => some b
    | .string s => some s.toUTF8.data.toList
    | _ => none

theorem sizeOf_lt_of_mem {entries : Entries} {key : String} {v : Value}
    (h : (key, v) ∈ entries) : sizeOf v < sizeOf (Value.object entries) := by
  have hmem := List.sizeOf_lt_of_mem h
  simp only [Value.object.sizeOf_spec, Prod.mk.sizeOf_spec] at hmem ⊢
  omega

theorem sizeOf_lt_of_lookup {entries : Entries} {key : String} {v : Value}
    (h : entries.lookup key = some v) : sizeOf v < sizeOf (Value.object entries) := by
  obtain ⟨before, after, rfl, -⟩ := List.lookup_eq_some_iff.mp h
  exact sizeOf_lt_of_mem (List.mem_append_right before List.mem_cons_self)

/-- `opt_field`, with a function on the values inside the object. -/
def optFieldAt {T : Type} (entries : Entries) (key : String)
    (f : (v : Value) → sizeOf v < sizeOf (Value.object entries) → Except String T) :
    Except String (Option T) :=
  match h : entries.lookup key with
  | none | some .null => .ok none
  | some v => (f v (sizeOf_lt_of_lookup h)).map some

/-- What is under a key, if anything is. -/
def optField {T : Type} (entries : Entries) (key : String) (f : Value → Except String T) :
    Except String (Option T) :=
  optFieldAt entries key fun v _ => f v

theorem sizeOf_item_lt {entries : Entries} {key : String} {items : List Value} {item : Value}
    (h : entries.lookup key = some (.array items)) (hitem : item ∈ items) :
    sizeOf item < sizeOf (Value.object entries) := by
  have hlookup := sizeOf_lt_of_lookup h
  have hmem := List.sizeOf_lt_of_mem hitem
  simp only [Value.array.sizeOf_spec] at hlookup
  omega

/-- `array_field`, with a function on the values inside the object. -/
def arrayFieldAt {T : Type} (entries : Entries) (key : String)
    (f : (v : Value) → sizeOf v < sizeOf (Value.object entries) → Except String T) :
    Except String (List T) :=
  match h : entries.lookup key with
  | none | some .null => .ok []
  | some (.array items) => items.attach.mapM fun item => f item.1 (sizeOf_item_lt h item.2)
  | some other => .error s!"field `{key}`: expected array, got {other.typeName}"

/-- The items under a key, none if nothing is. -/
def arrayField {T : Type} (entries : Entries) (key : String) (f : Value → Except String T) :
    Except String (List T) :=
  arrayFieldAt entries key fun v _ => f v

/-- The `values` of the object under a key: an `ArrayValue` or a `KeyValueList`. -/
def valuesFieldAt {T : Type} (entries : Entries) (key : String)
    (f : (v : Value) → sizeOf v < sizeOf (Value.object entries) → Except String T) :
    Except String (Option (List T)) :=
  match h : entries.lookup key with
  | none => .ok none
  | some inner => expectObjectAt inner s!"AnyValue.{key}" fun innerEntries hinner => do
      let values ← arrayFieldAt innerEntries "values" fun v hv =>
        f v (Nat.lt_trans hv (hinner ▸ sizeOf_lt_of_lookup h))
      return some values

/-- The items under a `values` key. -/
def valuesField {T : Type} (entries : Entries) (key : String) (f : Value → Except String T) :
    Except String (Option (List T)) :=
  valuesFieldAt entries key fun v _ => f v

/-! ## From objects to messages -/

section ToMessage

variable (rt : Runtime) (floatToU64 : F64 → UInt64)

/-- `set_variant`, if there is a variant to set. -/
def setVariant (found : Option AnyValueKind) (key : String) :
    Option AnyValueKind → Except String (Option AnyValueKind)
  | none => .ok found
  | some variant =>
      if found.isSome then
        .error s!"AnyValue: multiple variant keys present (only one of string_value/int_value/.../bytes_value allowed; offending key: {key})"
      else .ok (some variant)

/-- The variant of `bytes_value`. -/
def bytesVariant (entries : Entries) : Except String (Option AnyValueKind) :=
  match entries.lookup "bytes_value" with
  | none => .ok none
  | some (.bytes b) => .ok (some (.bytesValue b))
  | some (.string s) => .ok (some (.bytesValue s.toUTF8.data.toList))
  | some other =>
      .error s!"AnyValue.bytes_value: expected bytes or string, got {other.typeName}"

mutual

/-- `hashlit_to_anyvalue`. -/
def hashlitToAnyvalue (v : Value) : Except String AnyValue :=
  expectObjectAt v "AnyValue" fun entries _ => do
    let found ← setVariant none "string_value"
      (((entries.lookup "string_value").bind Value.asStr).map .stringValue)
    let found ← setVariant found "bool_value"
      (((entries.lookup "bool_value").bind Value.asBool).map .boolValue)
    let found ← setVariant found "int_value"
      (((entries.lookup "int_value").bind Value.asI64).map .intValue)
    let found ← setVariant found "double_value"
      (((entries.lookup "double_value").bind (Value.asF64 rt)).map .doubleValue)
    let arrayValues ← valuesFieldAt entries "array_value" fun item _ => hashlitToAnyvalue item
    let found ← setVariant found "array_value" (arrayValues.map .arrayValue)
    let kvlistValues ← valuesFieldAt entries "kvlist_value" fun item _ => hashlitToKeyvalue item
    let found ← setVariant found "kvlist_value" (kvlistValues.map .kvlistValue)
    let bytesVariant ← bytesVariant entries
    let found ← setVariant found "bytes_value" bytesVariant
    let found ← setVariant found "string_value_strindex"
      ((i32Field entries "string_value_strindex").map .stringValueStrindex)
    return .mk found
termination_by sizeOf v
decreasing_by all_goals subst_vars; assumption

/-- `hashlit_to_keyvalue`. -/
def hashlitToKeyvalue (v : Value) : Except String KeyValue :=
  expectObjectAt v "KeyValue" fun entries _ => do
    let key ← match stringField entries "key" with
      | some key => .ok key
      | none => .error "KeyValue: missing string `key`"
    let value ← optFieldAt entries "value" fun inner _ => hashlitToAnyvalue inner
    return .mk key value ((i32Field entries "key_strindex").getD 0)
termination_by sizeOf v
decreasing_by subst_vars; assumption

end

/-- `string_list`. -/
def stringList (entries : Entries) (key : String) : Except String (List String) :=
  arrayField entries key fun v =>
    match v.asStr with
    | some s => .ok s
    | none => .error s!"EntityRef.{key}: expected string element"

/-- `hashlit_to_entity_ref`. -/
def hashlitToEntityRef (v : Value) : Except String EntityRef := do
  let entries ← expectObject v "EntityRef"
  let idKeys ← stringList entries "id_keys"
  let descriptionKeys ← stringList entries "description_keys"
  return {
    schemaUrl := (stringField entries "schema_url").getD ""
    type := (stringField entries "type").getD ""
    idKeys := idKeys
    descriptionKeys := descriptionKeys }

/-- `hashlit_to_resource`. -/
def hashlitToResource (v : Value) : Except String Resource := do
  let entries ← expectObject v "Resource"
  let attributes ← arrayField entries "attributes" (hashlitToKeyvalue rt)
  let entityRefs ← arrayField entries "entity_refs" hashlitToEntityRef
  return {
    attributes := attributes
    droppedAttributesCount := (u32Field entries "dropped_attributes_count").getD 0
    entityRefs := entityRefs }

/-- `hashlit_to_scope`. -/
def hashlitToScope (v : Value) : Except String InstrumentationScope := do
  let entries ← expectObject v "InstrumentationScope"
  let attributes ← arrayField entries "attributes" (hashlitToKeyvalue rt)
  return {
    name := (stringField entries "name").getD ""
    version := (stringField entries "version").getD ""
    attributes := attributes
    droppedAttributesCount := (u32Field entries "dropped_attributes_count").getD 0 }

/-- `hashlit_to_log_record`. -/
def hashlitToLogRecord (v : Value) : Except String LogRecord := do
  let entries ← expectObject v "LogRecord"
  let body ← optField entries "body" (hashlitToAnyvalue rt)
  let attributes ← arrayField entries "attributes" (hashlitToKeyvalue rt)
  return {
    timeUnixNano := timestampU64Field rt floatToU64 entries "time_unix_nano"
    observedTimeUnixNano := timestampU64Field rt floatToU64 entries "observed_time_unix_nano"
    severityNumber := (i32Field entries "severity_number").getD 0
    severityText := (stringField entries "severity_text").getD ""
    body := body
    attributes := attributes
    droppedAttributesCount := (u32Field entries "dropped_attributes_count").getD 0
    flags := (u32Field entries "flags").getD 0
    traceId := (bytesField entries "trace_id").getD []
    spanId := (bytesField entries "span_id").getD []
    eventName := (stringField entries "event_name").getD "" }

/-- `hashlit_to_scope_logs`. -/
def hashlitToScopeLogs (v : Value) : Except String ScopeLogs := do
  let entries ← expectObject v "ScopeLogs"
  let scope ← optField entries "scope" (hashlitToScope rt)
  let logRecords ← arrayField entries "log_records" (hashlitToLogRecord rt floatToU64)
  return {
    scope := scope
    logRecords := logRecords
    schemaUrl := (stringField entries "schema_url").getD "" }

/-- `hashlit_to_resourcelog`. -/
def hashlitToResourcelog (v : Value) : Except String ResourceLogs := do
  let entries ← expectObject v "ResourceLogs"
  let resource ← optField entries "resource" (hashlitToResource rt)
  let scopeLogs ← arrayField entries "scope_logs" (hashlitToScopeLogs rt floatToU64)
  return {
    resource := resource
    scopeLogs := scopeLogs
    schemaUrl := (stringField entries "schema_url").getD "" }

end ToMessage

/-! ## From messages to objects -/

/-- `u32 as i64`. -/
def ofU32 (n : UInt32) : Value := .int (Int64.ofNat n.toNat)

/-- `i32 as i64`. -/
def ofI32 (n : Int32) : Value := .int n.toInt64

/-- `u64 as i64`: from `2 ^ 63` on the result is negative. -/
def ofU64 (n : UInt64) : Value := .int n.toInt64

mutual

/-- `anyvalue_to_hashlit`. -/
def anyvalueToHashlit : AnyValue → Value
  | .mk none => .object []
  | .mk (some (.stringValue s)) => .object (push [] "string_value" (.string s))
  | .mk (some (.boolValue b)) => .object (push [] "bool_value" (.bool b))
  | .mk (some (.intValue n)) => .object (push [] "int_value" (.int n))
  | .mk (some (.doubleValue f)) => .object (push [] "double_value" (.float f))
  | .mk (some (.arrayValue values)) =>
      .object (push [] "array_value" (.object (push [] "values" (.array (anyvalues values)))))
  | .mk (some (.kvlistValue values)) =>
      .object (push [] "kvlist_value" (.object (push [] "values" (.array (keyvalues values)))))
  | .mk (some (.bytesValue bytes)) => .object (push [] "bytes_value" (.bytes bytes))
  | .mk (some (.stringValueStrindex n)) => .object (push [] "string_value_strindex" (ofI32 n))

/-- `keyvalue_to_hashlit`. -/
def keyvalueToHashlit : KeyValue → Value
  | .mk key none strindex =>
      .object (pushIf (strindex ≠ 0) (push [] "key" (.string key)) "key_strindex" (ofI32 strindex))
  | .mk key (some value) strindex =>
      .object (pushIf (strindex ≠ 0)
        (push (push [] "key" (.string key)) "value" (anyvalueToHashlit value))
        "key_strindex" (ofI32 strindex))

def anyvalues : List AnyValue → List Value
  | [] => []
  | value :: rest => anyvalueToHashlit value :: anyvalues rest

def keyvalues : List KeyValue → List Value
  | [] => []
  | kv :: rest => keyvalueToHashlit kv :: keyvalues rest

end

/-- `entity_ref_to_hashlit`. -/
def entityRefToHashlit (er : EntityRef) : Value :=
  let b := pushIf (er.schemaUrl ≠ "") [] "schema_url" (.string er.schemaUrl)
  let b := pushIf (er.type ≠ "") b "type" (.string er.type)
  let b := pushIf (!er.idKeys.isEmpty) b "id_keys" (.array (er.idKeys.map .string))
  let b := pushIf (!er.descriptionKeys.isEmpty) b "description_keys"
    (.array (er.descriptionKeys.map .string))
  .object b

/-- `resource_to_hashlit`. -/
def resourceToHashlit (r : Resource) : Value :=
  let b := push [] "attributes" (.array (r.attributes.map keyvalueToHashlit))
  let b := pushIf (r.droppedAttributesCount ≠ 0) b "dropped_attributes_count"
    (ofU32 r.droppedAttributesCount)
  let b := pushIf (!r.entityRefs.isEmpty) b "entity_refs"
    (.array (r.entityRefs.map entityRefToHashlit))
  .object b

/-- `scope_to_hashlit`. -/
def scopeToHashlit (s : InstrumentationScope) : Value :=
  let b := pushIf (s.name ≠ "") [] "name" (.string s.name)
  let b := pushIf (s.version ≠ "") b "version" (.string s.version)
  let b := pushIf (!s.attributes.isEmpty) b "attributes"
    (.array (s.attributes.map keyvalueToHashlit))
  let b := pushIf (s.droppedAttributesCount ≠ 0) b "dropped_attributes_count"
    (ofU32 s.droppedAttributesCount)
  .object b

/-- `log_record_to_hashlit`. -/
def logRecordToHashlit (lr : LogRecord) : Value :=
  let b := pushIf (lr.timeUnixNano ≠ 0) [] "time_unix_nano" (ofU64 lr.timeUnixNano)
  let b := pushIf (lr.observedTimeUnixNano ≠ 0) b "observed_time_unix_nano"
    (ofU64 lr.observedTimeUnixNano)
  let b := pushIf (lr.severityNumber ≠ 0) b "severity_number" (ofI32 lr.severityNumber)
  let b := pushIf (lr.severityText ≠ "") b "severity_text" (.string lr.severityText)
  let b := pushSome b "body" (lr.body.map anyvalueToHashlit)
  let b := pushIf (!lr.attributes.isEmpty) b "attributes"
    (.array (lr.attributes.map keyvalueToHashlit))
  let b := pushIf (lr.droppedAttributesCount ≠ 0) b "dropped_attributes_count"
    (ofU32 lr.droppedAttributesCount)
  let b := pushIf (lr.flags ≠ 0) b "flags" (ofU32 lr.flags)
  let b := pushIf (!lr.traceId.isEmpty) b "trace_id" (.bytes lr.traceId)
  let b := pushIf (!lr.spanId.isEmpty) b "span_id" (.bytes lr.spanId)
  let b := pushIf (lr.eventName ≠ "") b "event_name" (.string lr.eventName)
  .object b

/-- `scope_logs_to_hashlit`. -/
def scopeLogsToHashlit (sl : ScopeLogs) : Value :=
  let b := pushSome [] "scope" (sl.scope.map scopeToHashlit)
  let b := push b "log_records" (.array (sl.logRecords.map logRecordToHashlit))
  let b := pushIf (sl.schemaUrl ≠ "") b "schema_url" (.string sl.schemaUrl)
  .object b

/-- `resourcelog_to_hashlit`. -/
def resourcelogToHashlit (rl : ResourceLogs) : Value :=
  let b := pushSome [] "resource" (rl.resource.map resourceToHashlit)
  let b := push b "scope_logs" (.array (rl.scopeLogs.map scopeLogsToHashlit))
  let b := pushIf (rl.schemaUrl ≠ "") b "schema_url" (.string rl.schemaUrl)
  .object b

end Limpid.Otlp
