import Mathlib.Algebra.Group.Nat.Defs
import Limpid.Otlp.Encode

/-!
# Round trip of messages

A message that is made an object and read back is the message again, but for timestamps from
`2 ^ 63` on: they are written as negative integers, and a negative timestamp is read as `0`
(`resourcelog_round_trip`).  Every field is written with a condition on its value, under a key of
its own; one lemma for each kind of field (`stringField_written` and the others) says that reading
it gives the value, whether it was written or not.  The values of attributes and bodies are done by
induction on the value.
-/

namespace Limpid.Otlp

open Dsl Fields

/-! ## The recursion on values -/

section Equations

variable (rt : Runtime)

theorem hashlitToAnyvalue_object (entries : Entries) :
    hashlitToAnyvalue rt (.object entries) = (do
      let found ← setVariant none "string_value"
        (((entries.lookup "string_value").bind Value.asStr).map .stringValue)
      let found ← setVariant found "bool_value"
        (((entries.lookup "bool_value").bind Value.asBool).map .boolValue)
      let found ← setVariant found "int_value"
        (((entries.lookup "int_value").bind Value.asI64).map .intValue)
      let found ← setVariant found "double_value"
        (((entries.lookup "double_value").bind (Value.asF64 rt)).map .doubleValue)
      let arrayValues ← valuesField entries "array_value" (hashlitToAnyvalue rt)
      let found ← setVariant found "array_value" (arrayValues.map .arrayValue)
      let kvlistValues ← valuesField entries "kvlist_value" (hashlitToKeyvalue rt)
      let found ← setVariant found "kvlist_value" (kvlistValues.map .kvlistValue)
      let bytesVariant ← bytesVariant entries
      let found ← setVariant found "bytes_value" bytesVariant
      let found ← setVariant found "string_value_strindex"
        ((i32Field entries "string_value_strindex").map .stringValueStrindex)
      return .mk found) := by
  rw [hashlitToAnyvalue]
  rfl

theorem hashlitToKeyvalue_object (entries : Entries) :
    hashlitToKeyvalue rt (.object entries) = (do
      let key ← match stringField entries "key" with
        | some key => .ok key
        | none => .error "KeyValue: missing string `key`"
      let value ← optField entries "value" (hashlitToAnyvalue rt)
      return .mk key value ((i32Field entries "key_strindex").getD 0)) := by
  rw [hashlitToKeyvalue]
  rfl

end Equations

/-! ## Fields as they are written -/

section Written

variable {entries : Entries} {key : String}

theorem stringField_written {s : String}
    (h : entries.lookup key = if s = "" then none else some (.string s)) :
    (stringField entries key).getD "" = s := by
  unfold stringField
  rw [h]
  split
  · next hs => exact hs.symm
  · rfl

theorem bytesField_written {b : Bytes}
    (h : entries.lookup key = if b = [] then none else some (.bytes b)) :
    (bytesField entries key).getD [] = b := by
  unfold bytesField
  rw [h]
  split
  · next hb => exact hb.symm
  · rfl

theorem ofU32_toInt (n : UInt32) : (Int64.ofNat n.toNat).toInt = n.toNat := by
  have hlt := n.toNat_lt
  exact Int64.toInt_ofNat_of_lt (by omega)

theorem toInt64_nonneg_iff (n : UInt64) : 0 ≤ n.toInt64 ↔ n.toNat < 2 ^ 63 := by
  have hlt := n.toNat_lt
  have hint : n.toInt64.toInt = if 2 * n.toNat < 2 ^ 64 then (n.toNat : Int)
      else (n.toNat : Int) - (2 ^ 64 : ℕ) := BitVec.toInt_eq_toNat_cond n.toBitVec
  have hzero : (0 : Int64).toInt = 0 := rfl
  rw [Int64.le_iff_toInt_le, hzero, hint]
  split <;> omega

theorem u32Field_some {n : UInt32} (h : entries.lookup key = some (ofU32 n)) :
    u32Field entries key = some n := by
  have hlt := n.toNat_lt
  have hrange : (0 : Int) ≤ n.toNat ∧ (n.toNat : Int) ≤ 0xffffffff := ⟨by omega, by omega⟩
  simp only [u32Field, h, ofU32, Option.bind_some, Value.asI64, Option.filter_some, ofU32_toInt,
    decide_eq_true hrange, if_true, Option.map_some, Int.toNat_natCast, UInt32.ofNat_toNat]

theorem i32Field_some {n : Int32} (h : entries.lookup key = some (ofI32 n)) :
    i32Field entries key = some n := by
  have hlo := n.le_toInt
  have hhi := n.toInt_lt
  have hrange : Int32.minValue.toInt ≤ n.toInt ∧ n.toInt ≤ Int32.maxValue.toInt := by
    have hmin : Int32.minValue.toInt = -2 ^ 31 := rfl
    have hmax : Int32.maxValue.toInt = 2 ^ 31 - 1 := rfl
    omega
  simp only [i32Field, h, ofI32, Option.bind_some, Value.asI64, Option.filter_some,
    Int32.toInt_toInt64, decide_eq_true hrange, if_true, Option.map_some, Int32.ofInt_toInt]

theorem u32Field_written {n : UInt32}
    (h : entries.lookup key = if n = 0 then none else some (ofU32 n)) :
    (u32Field entries key).getD 0 = n := by
  by_cases hn : n = 0
  · rw [if_pos hn] at h
    simp only [u32Field, h, hn]
    rfl
  · rw [if_neg hn] at h
    rw [u32Field_some h]
    rfl

theorem i32Field_none (h : entries.lookup key = none) : i32Field entries key = none := by
  simp only [i32Field, h]
  rfl

theorem i32Field_written {n : Int32}
    (h : entries.lookup key = if n = 0 then none else some (ofI32 n)) :
    (i32Field entries key).getD 0 = n := by
  by_cases hn : n = 0
  · rw [if_pos hn] at h
    rw [i32Field_none h, hn]
    rfl
  · rw [if_neg hn] at h
    rw [i32Field_some h]
    rfl

/-- A timestamp from `2 ^ 63` on is read as `0`. -/
theorem timestampU64Field_written (rt : Runtime) (floatToU64 : F64 → UInt64) {n : UInt64}
    (h : entries.lookup key = if n = 0 then none else some (ofU64 n)) :
    timestampU64Field rt floatToU64 entries key = if n.toNat < 2 ^ 63 then n else 0 := by
  by_cases hn : n = 0
  · rw [if_pos hn] at h
    simp only [timestampU64Field, h, hn]
    rfl
  · rw [if_neg hn] at h
    simp only [timestampU64Field, h, ofU64, coerceU64, toInt64_nonneg_iff,
      UInt64.toUInt64_toInt64]
    split <;> rfl

theorem optField_written {A T : Type} {read : Value → Except String T} (write : A → Value)
    (kept : A → T) (value : Option A) (h : entries.lookup key = value.map write)
    (hnull : ∀ a, write a ≠ .null) (hread : ∀ a, value = some a → read (write a) = .ok (kept a)) :
    optField entries key read = .ok (value.map kept) := by
  unfold optField optFieldAt
  cases value with
  | none =>
      split
      · rfl
      · rfl
      · next v _ hv => exact absurd (h.symm.trans hv) (by simp)
  | some a =>
      split
      · next hv => exact absurd (h.symm.trans hv) (by simp)
      · next hv => exact absurd (Option.some.inj (h.symm.trans hv)) (hnull a)
      · next v _ hv =>
        obtain rfl := Option.some.inj (h.symm.trans hv)
        change (read (write a)).map some = _
        rw [hread a rfl]
        rfl

theorem arrayField_some {A T : Type} {read : Value → Except String T} (write : A → Value)
    (kept : A → T) (items : List A) (h : entries.lookup key = some (.array (items.map write)))
    (hread : ∀ a ∈ items, read (write a) = .ok (kept a)) :
    arrayField entries key read = .ok (items.map kept) := by
  unfold arrayField arrayFieldAt
  split
  · next hv => exact absurd (h.symm.trans hv) (by simp)
  · next hv => exact absurd (h.symm.trans hv) (by simp)
  · next found hv =>
    obtain rfl := Value.array.inj (Option.some.inj (h.symm.trans hv))
    rw [List.mapM_subtype (g := read) fun _ _ => rfl, List.unattach_attach]
    exact mapM_map hread
  · next other _ hother hv =>
    exact absurd (Option.some.inj (h.symm.trans hv)).symm (hother _)

theorem arrayField_written {A T : Type} {read : Value → Except String T} (write : A → Value)
    (kept : A → T) (items : List A)
    (h : entries.lookup key = if items = [] then none else some (.array (items.map write)))
    (hread : ∀ a ∈ items, read (write a) = .ok (kept a)) :
    arrayField entries key read = .ok (items.map kept) := by
  by_cases hitems : items = []
  · rw [if_pos hitems] at h
    unfold arrayField arrayFieldAt
    rw [hitems]
    split
    · rfl
    · rfl
    · next hv => exact absurd (h.symm.trans hv) (by simp)
    · next hv => exact absurd (h.symm.trans hv) (by simp)
  · rw [if_neg hitems] at h
    exact arrayField_some write kept items h hread

theorem valuesField_none {T : Type} {read : Value → Except String T}
    (h : entries.lookup key = none) : valuesField entries key read = .ok none := by
  unfold valuesField valuesFieldAt
  split
  · rfl
  · next inner hv => exact absurd (h.symm.trans hv) (by simp)

theorem valuesField_written {A T : Type} {read : Value → Except String T} {write : A → Value}
    {kept : A → T} {items : List A}
    (h : entries.lookup key = some (.object (push [] "values" (.array (items.map write)))))
    (hread : ∀ a ∈ items, read (write a) = .ok (kept a)) :
    valuesField entries key read = .ok (some (items.map kept)) := by
  unfold valuesField valuesFieldAt
  split
  · next hv => exact absurd (h.symm.trans hv) (by simp)
  · next inner hv =>
    obtain rfl := Option.some.inj (h.symm.trans hv)
    change (arrayField (push [] "values" (.array (items.map write))) "values" read >>= _) = _
    rw [arrayField_some write kept items (by simp [lookup_push]) hread]
    rfl

end Written

/-! ## Values of attributes and bodies -/

theorem anyvalues_eq (values : List AnyValue) :
    anyvalues values = values.map anyvalueToHashlit := by
  induction values with
  | nil => rfl
  | cons value rest ih => rw [anyvalues, ih, List.map_cons]

theorem keyvalues_eq (kvs : List KeyValue) : keyvalues kvs = kvs.map keyvalueToHashlit := by
  induction kvs with
  | nil => rfl
  | cons kv rest ih => rw [keyvalues, ih, List.map_cons]

theorem anyvalueToHashlit_ne_null (av : AnyValue) : anyvalueToHashlit av ≠ .null := by
  match av with
  | .mk none | .mk (some (.stringValue _)) | .mk (some (.boolValue _))
  | .mk (some (.intValue _)) | .mk (some (.doubleValue _)) | .mk (some (.arrayValue _))
  | .mk (some (.kvlistValue _)) | .mk (some (.bytesValue _))
  | .mk (some (.stringValueStrindex _)) =>
      rw [anyvalueToHashlit]
      exact nofun

theorem keyvalueToHashlit_eq (key : String) (value : Option AnyValue) (strindex : Int32) :
    keyvalueToHashlit (.mk key value strindex) = .object (pushIf (strindex ≠ 0)
      (pushSome (push [] "key" (.string key)) "value" (value.map anyvalueToHashlit))
      "key_strindex" (ofI32 strindex)) := by
  cases value with
  | none =>
      rw [keyvalueToHashlit]
      rfl
  | some value =>
      rw [keyvalueToHashlit]
      rfl

theorem keyvalue_of_value {rt : Runtime} {key : String} {value : Option AnyValue}
    {strindex : Int32}
    (hread : ∀ a, value = some a → hashlitToAnyvalue rt (anyvalueToHashlit a) = .ok a) :
    hashlitToKeyvalue rt (keyvalueToHashlit (.mk key value strindex)) =
      .ok (.mk key value strindex) := by
  rw [keyvalueToHashlit_eq, hashlitToKeyvalue_object,
    i32Field_written (n := strindex) (by simp [lookup_push, lookup_pushIf, lookup_pushSome]),
    optField_written anyvalueToHashlit id value
      (by simp [lookup_push, lookup_pushIf, lookup_pushSome]) anyvalueToHashlit_ne_null hread]
  have hkey : stringField (pushIf (strindex ≠ 0)
      (pushSome (push [] "key" (.string key)) "value" (value.map anyvalueToHashlit))
      "key_strindex" (ofI32 strindex)) "key" = some key := by
    simp [stringField, lookup_push, lookup_pushIf, lookup_pushSome, Value.asStr]
  rw [hkey, Option.map_id]
  rfl

mutual

theorem anyvalue_round_trip (rt : Runtime) : ∀ av : AnyValue,
    hashlitToAnyvalue rt (anyvalueToHashlit av) = .ok av
  | .mk none => by
      rw [anyvalueToHashlit, hashlitToAnyvalue_object]
      rfl
  | .mk (some (.stringValue s)) => by
      rw [anyvalueToHashlit, hashlitToAnyvalue_object]
      rfl
  | .mk (some (.boolValue b)) => by
      rw [anyvalueToHashlit, hashlitToAnyvalue_object]
      rfl
  | .mk (some (.intValue n)) => by
      rw [anyvalueToHashlit, hashlitToAnyvalue_object]
      rfl
  | .mk (some (.doubleValue f)) => by
      rw [anyvalueToHashlit, hashlitToAnyvalue_object]
      rfl
  | .mk (some (.arrayValue values)) => by
      rw [anyvalueToHashlit, hashlitToAnyvalue_object, anyvalues_eq]
      have hvalues : valuesField (push [] "array_value" (.object (push [] "values"
          (.array (values.map anyvalueToHashlit))))) "array_value" (hashlitToAnyvalue rt) =
            .ok (some (values.map id)) :=
        valuesField_written (by simp [lookup_push]) (anyvalues_round_trip rt values)
      rw [hvalues, List.map_id]
      rfl
  | .mk (some (.kvlistValue kvs)) => by
      rw [anyvalueToHashlit, hashlitToAnyvalue_object, keyvalues_eq]
      have hvalues : valuesField (push [] "kvlist_value" (.object (push [] "values"
          (.array (kvs.map keyvalueToHashlit))))) "kvlist_value" (hashlitToKeyvalue rt) =
            .ok (some (kvs.map id)) :=
        valuesField_written (by simp [lookup_push]) (keyvalues_round_trip rt kvs)
      rw [hvalues, List.map_id]
      rfl
  | .mk (some (.bytesValue bytes)) => by
      rw [anyvalueToHashlit, hashlitToAnyvalue_object]
      rfl
  | .mk (some (.stringValueStrindex n)) => by
      rw [anyvalueToHashlit, hashlitToAnyvalue_object,
        i32Field_some (n := n) (by simp [lookup_push])]
      rfl

theorem keyvalue_round_trip (rt : Runtime) : ∀ kv : KeyValue,
    hashlitToKeyvalue rt (keyvalueToHashlit kv) = .ok kv
  | .mk key none strindex => keyvalue_of_value fun _ h => nomatch h
  | .mk key (some value) strindex => keyvalue_of_value fun a h => by
      rw [← Option.some.inj h]
      exact anyvalue_round_trip rt value

theorem anyvalues_round_trip (rt : Runtime) : ∀ values : List AnyValue,
    ∀ a ∈ values, hashlitToAnyvalue rt (anyvalueToHashlit a) = .ok (id a)
  | [] => fun _ h => absurd h List.not_mem_nil
  | value :: rest =>
      List.forall_mem_cons.mpr ⟨anyvalue_round_trip rt value, anyvalues_round_trip rt rest⟩

theorem keyvalues_round_trip (rt : Runtime) : ∀ kvs : List KeyValue,
    ∀ a ∈ kvs, hashlitToKeyvalue rt (keyvalueToHashlit a) = .ok (id a)
  | [] => fun _ h => absurd h List.not_mem_nil
  | kv :: rest =>
      List.forall_mem_cons.mpr ⟨keyvalue_round_trip rt kv, keyvalues_round_trip rt rest⟩

end

/-! ## Messages -/

section Messages

variable (rt : Runtime) (floatToU64 : F64 → UInt64)

theorem stringList_written {entries : Entries} {key : String} {strings : List String}
    (h : entries.lookup key = if strings = [] then none else
      some (.array (strings.map .string))) : stringList entries key = .ok strings := by
  unfold stringList
  rw [arrayField_written .string id strings h fun s _ => rfl, List.map_id]

theorem entityRef_round_trip (er : EntityRef) :
    hashlitToEntityRef (entityRefToHashlit er) = .ok er := by
  unfold entityRefToHashlit hashlitToEntityRef
  simp only [expectObject, expectObjectAt]
  change (stringList _ "id_keys" >>= _) = _
  rw [@stringList_written _ _ er.idKeys (by simp [lookup_pushIf])]
  change (stringList _ "description_keys" >>= _) = _
  rw [@stringList_written _ _ er.descriptionKeys (by simp [lookup_pushIf])]
  change Except.ok _ = Except.ok _
  rw [stringField_written (s := er.schemaUrl) (by simp [lookup_pushIf]),
    stringField_written (s := er.type) (by simp [lookup_pushIf])]

theorem resource_round_trip (r : Resource) :
    hashlitToResource rt (resourceToHashlit r) = .ok r := by
  unfold resourceToHashlit hashlitToResource
  simp only [expectObject, expectObjectAt]
  change (arrayField _ "attributes" _ >>= _) = _
  rw [arrayField_some keyvalueToHashlit id r.attributes (by simp [lookup_push, lookup_pushIf])
    (keyvalues_round_trip rt r.attributes)]
  change (arrayField _ "entity_refs" _ >>= _) = _
  rw [arrayField_written entityRefToHashlit id r.entityRefs (by simp [lookup_push, lookup_pushIf])
    fun er _ => entityRef_round_trip er]
  change Except.ok _ = Except.ok _
  rw [u32Field_written (n := r.droppedAttributesCount) (by simp [lookup_push, lookup_pushIf]),
    List.map_id, List.map_id]

theorem scope_round_trip (s : InstrumentationScope) :
    hashlitToScope rt (scopeToHashlit s) = .ok s := by
  unfold scopeToHashlit hashlitToScope
  simp only [expectObject, expectObjectAt]
  change (arrayField _ "attributes" _ >>= _) = _
  rw [arrayField_written keyvalueToHashlit id s.attributes (by simp [lookup_pushIf])
    (keyvalues_round_trip rt s.attributes)]
  change Except.ok _ = Except.ok _
  rw [stringField_written (s := s.name) (by simp [lookup_pushIf]),
    stringField_written (s := s.version) (by simp [lookup_pushIf]),
    u32Field_written (n := s.droppedAttributesCount) (by simp [lookup_pushIf]), List.map_id]

/-- A timestamp after the round trip. -/
def nanosKept (n : UInt64) : UInt64 := if n.toNat < 2 ^ 63 then n else 0

/-- A record after the round trip. -/
def LogRecord.kept (lr : LogRecord) : LogRecord :=
  { lr with
    timeUnixNano := nanosKept lr.timeUnixNano
    observedTimeUnixNano := nanosKept lr.observedTimeUnixNano }

theorem logRecord_round_trip (lr : LogRecord) :
    hashlitToLogRecord rt floatToU64 (logRecordToHashlit lr) = .ok lr.kept := by
  unfold logRecordToHashlit hashlitToLogRecord
  simp only [expectObject, expectObjectAt]
  change (optField _ "body" _ >>= _) = _
  rw [optField_written anyvalueToHashlit id lr.body (by simp [lookup_pushIf, lookup_pushSome])
    anyvalueToHashlit_ne_null fun a _ => anyvalue_round_trip rt a]
  change (arrayField _ "attributes" _ >>= _) = _
  rw [arrayField_written keyvalueToHashlit id lr.attributes
    (by simp [lookup_pushIf, lookup_pushSome]) (keyvalues_round_trip rt lr.attributes)]
  change Except.ok _ = Except.ok _
  rw [timestampU64Field_written rt floatToU64 (n := lr.timeUnixNano)
      (by simp [lookup_pushIf, lookup_pushSome]),
    timestampU64Field_written rt floatToU64 (n := lr.observedTimeUnixNano)
      (by simp [lookup_pushIf, lookup_pushSome]),
    i32Field_written (n := lr.severityNumber) (by simp [lookup_pushIf, lookup_pushSome]),
    stringField_written (s := lr.severityText) (by simp [lookup_pushIf, lookup_pushSome]),
    u32Field_written (n := lr.droppedAttributesCount) (by simp [lookup_pushIf, lookup_pushSome]),
    u32Field_written (n := lr.flags) (by simp [lookup_pushIf, lookup_pushSome]),
    bytesField_written (b := lr.traceId) (by simp [lookup_pushIf, lookup_pushSome]),
    bytesField_written (b := lr.spanId) (by simp [lookup_pushIf, lookup_pushSome]),
    stringField_written (s := lr.eventName) (by simp [lookup_pushIf, lookup_pushSome]),
    List.map_id, Option.map_id]
  rfl

/-- A scope of records after the round trip. -/
def ScopeLogs.kept (sl : ScopeLogs) : ScopeLogs :=
  { sl with logRecords := sl.logRecords.map LogRecord.kept }

theorem scopeLogs_round_trip (sl : ScopeLogs) :
    hashlitToScopeLogs rt floatToU64 (scopeLogsToHashlit sl) = .ok sl.kept := by
  unfold scopeLogsToHashlit hashlitToScopeLogs
  simp only [expectObject, expectObjectAt]
  change (optField _ "scope" _ >>= _) = _
  rw [optField_written scopeToHashlit id sl.scope
    (by simp [lookup_push, lookup_pushIf, lookup_pushSome]) (fun s h => nomatch h)
    fun s _ => scope_round_trip rt s]
  change (arrayField _ "log_records" _ >>= _) = _
  rw [arrayField_some logRecordToHashlit LogRecord.kept sl.logRecords
    (by simp [lookup_push, lookup_pushIf, lookup_pushSome])
    fun lr _ => logRecord_round_trip rt floatToU64 lr]
  change Except.ok _ = Except.ok _
  rw [stringField_written (s := sl.schemaUrl)
    (by simp [lookup_push, lookup_pushIf, lookup_pushSome]), Option.map_id]
  rfl

/-- A message after the round trip. -/
def ResourceLogs.kept (rl : ResourceLogs) : ResourceLogs :=
  { rl with scopeLogs := rl.scopeLogs.map ScopeLogs.kept }

/-- **What the round trip keeps** of a message: all but the timestamps from `2 ^ 63` on. -/
theorem resourcelog_round_trip (rl : ResourceLogs) :
    hashlitToResourcelog rt floatToU64 (resourcelogToHashlit rl) = .ok rl.kept := by
  unfold resourcelogToHashlit hashlitToResourcelog
  simp only [expectObject, expectObjectAt]
  change (optField _ "resource" _ >>= _) = _
  rw [optField_written resourceToHashlit id rl.resource
    (by simp [lookup_push, lookup_pushIf, lookup_pushSome]) (fun r h => nomatch h)
    fun r _ => resource_round_trip rt r]
  change (arrayField _ "scope_logs" _ >>= _) = _
  rw [arrayField_some scopeLogsToHashlit ScopeLogs.kept rl.scopeLogs
    (by simp [lookup_push, lookup_pushIf, lookup_pushSome])
    fun sl _ => scopeLogs_round_trip rt floatToU64 sl]
  change Except.ok _ = Except.ok _
  rw [stringField_written (s := rl.schemaUrl)
    (by simp [lookup_push, lookup_pushIf, lookup_pushSome]), Option.map_id]
  rfl

end Messages

/-! ## Messages that are kept -/

theorem nanosKept_eq_iff {n : UInt64} : nanosKept n = n ↔ n.toNat < 2 ^ 63 := by
  unfold nanosKept
  split
  · next h => exact ⟨fun _ => h, fun _ => rfl⟩
  · next h =>
    refine ⟨fun hzero => absurd ?_ h, fun hlt => absurd hlt h⟩
    rw [← hzero]
    decide

/-- Both timestamps fit in an `i64`. -/
def LogRecord.InRange (lr : LogRecord) : Prop :=
  lr.timeUnixNano.toNat < 2 ^ 63 ∧ lr.observedTimeUnixNano.toNat < 2 ^ 63

theorem LogRecord.kept_eq_iff (lr : LogRecord) : lr.kept = lr ↔ lr.InRange := by
  obtain ⟨time, observed, _, _, _, _, _, _, _, _, _⟩ := lr
  simp only [LogRecord.kept, LogRecord.mk.injEq, and_true, nanosKept_eq_iff, LogRecord.InRange]

theorem ScopeLogs.kept_eq_iff (sl : ScopeLogs) :
    sl.kept = sl ↔ ∀ lr ∈ sl.logRecords, lr.InRange := by
  obtain ⟨scope, records, url⟩ := sl
  simp only [ScopeLogs.kept, ScopeLogs.mk.injEq, and_true, true_and, map_eq_self_iff,
    LogRecord.kept_eq_iff]

/-- **A message survives the round trip exactly if its timestamps fit.** -/
theorem otlp_round_trip_iff (rt : Runtime) (floatToU64 : F64 → UInt64) (m : ResourceLogs) :
    hashlitToResourcelog rt floatToU64 (resourcelogToHashlit m) = .ok m ↔
      ∀ sl ∈ m.scopeLogs, ∀ lr ∈ sl.logRecords,
        lr.timeUnixNano.toNat < 2 ^ 63 ∧ lr.observedTimeUnixNano.toNat < 2 ^ 63 := by
  rw [resourcelog_round_trip, Except.ok.injEq]
  obtain ⟨resource, scopes, url⟩ := m
  simp only [ResourceLogs.kept, ResourceLogs.mk.injEq, and_true, true_and, map_eq_self_iff,
    ScopeLogs.kept_eq_iff, LogRecord.InRange]

/-- One record, with a timestamp of `2 ^ 63` nanoseconds. -/
def lateMessage : ResourceLogs where
  resource := none
  scopeLogs := [⟨none, [⟨0x8000000000000000, 0, 0, "", none, [], 0, 0, [], [], ""⟩], ""⟩]
  schemaUrl := ""

/-- The same record without a timestamp. -/
def untimedMessage : ResourceLogs where
  resource := none
  scopeLogs := [⟨none, [⟨0, 0, 0, "", none, [], 0, 0, [], [], ""⟩], ""⟩]
  schemaUrl := ""

theorem late_timestamp_lost :
    lateMessage ≠ untimedMessage ∧ ∀ rt floatToU64,
      hashlitToResourcelog rt floatToU64 (resourcelogToHashlit lateMessage) =
        .ok untimedMessage := by
  refine ⟨?_, fun rt floatToU64 => resourcelog_round_trip rt floatToU64 lateMessage⟩
  simp [lateMessage, untimedMessage]

end Limpid.Otlp
