import Mathlib.Data.List.Flatten
import Mathlib.Data.List.Nodup
import Limpid.Grouping
import Limpid.Otlp.Message

/-!
# Batches of the OTLP outputs

`decode_drained_to_request` of `modules/output/otlp/mod.rs` and what it calls.  A batch is sent as
it is, or with the messages of one resource merged, or also with the entries of one scope merged
inside each.  Both merges are one loop (`Grouping.group`): an empty `schema_url` goes with any
other, and takes its value.

`Regrouped` is what merging may do to a batch: the records are those of the batch, each under the
resource and the scope it had, and in each scope entry they stand in the order of their arrival.
-/

namespace Limpid.Otlp

open Dsl (F64)
open Grouping

/-! ## Equality -/

/-- `==` of two `f64`: no NaN is equal to anything, and the two zeros are equal. -/
def doubleEq (x y : F64) : Bool :=
  let magnitude := fun (f : F64) => f.bits &&& 0x7fffffffffffffff
  magnitude x ≤ 0x7ff0000000000000 && magnitude y ≤ 0x7ff0000000000000 &&
    (x.bits = y.bits || (magnitude x = 0 && magnitude y = 0))

mutual

/-- `==` of two values, as it is derived. -/
def AnyValue.eq : AnyValue → AnyValue → Bool
  | ⟨none⟩, ⟨none⟩ => true
  | ⟨some kind⟩, ⟨some kind'⟩ => AnyValueKind.eq kind kind'
  | _, _ => false

/-- `==` of the generated messages; floats are compared as floats. -/
def AnyValueKind.eq : AnyValueKind → AnyValueKind → Bool
  | .stringValue s, .stringValue s' => s = s'
  | .boolValue b, .boolValue b' => b = b'
  | .intValue n, .intValue n' => n = n'
  | .doubleValue f, .doubleValue f' => doubleEq f f'
  | .arrayValue values, .arrayValue values' => valuesEq values values'
  | .kvlistValue values, .kvlistValue values' => keyValuesEq values values'
  | .bytesValue bytes, .bytesValue bytes' => bytes = bytes'
  | .stringValueStrindex n, .stringValueStrindex n' => n = n'
  | _, _ => false

/-- `==` on attributes. -/
def KeyValue.eq : KeyValue → KeyValue → Bool
  | ⟨key, value, keyStrindex⟩, ⟨key', value', keyStrindex'⟩ =>
    key = key' && optionEq value value' && keyStrindex = keyStrindex'

/-- `==` on an optional value. -/
def optionEq : Option AnyValue → Option AnyValue → Bool
  | none, none => true
  | some value, some value' => AnyValue.eq value value'
  | _, _ => false

def valuesEq : List AnyValue → List AnyValue → Bool
  | [], [] => true
  | value :: values, value' :: values' => AnyValue.eq value value' && valuesEq values values'
  | _, _ => false

def keyValuesEq : List KeyValue → List KeyValue → Bool
  | [], [] => true
  | value :: values, value' :: values' => KeyValue.eq value value' && keyValuesEq values values'
  | _, _ => false

end

/-- The key of an attribute. -/
def KeyValue.key : KeyValue → String
  | ⟨key, _, _⟩ => key

/-- `sort_by` on the keys, which is stable. -/
def sortByKey (attributes : List KeyValue) : List KeyValue :=
  attributes.mergeSort fun x y => x.key ≤ y.key

/-- `attrs_eq`. -/
def attrsEq (a b : List KeyValue) : Bool :=
  a.length = b.length && ((sortByKey a).zip (sortByKey b)).all fun (x, y) => x.eq y

/-- `resources_eq`. -/
def resourcesEq : Option Resource → Option Resource → Bool
  | none, none => true
  | some x, some y =>
    x.droppedAttributesCount = y.droppedAttributesCount && attrsEq x.attributes y.attributes &&
      x.entityRefs = y.entityRefs
  | _, _ => false

/-- `scopes_eq`. -/
def scopesEq : Option InstrumentationScope → Option InstrumentationScope → Bool
  | none, none => true
  | some x, some y =>
    x.name = y.name && x.version = y.version &&
      x.droppedAttributesCount = y.droppedAttributesCount && attrsEq x.attributes y.attributes
  | _, _ => false

/-- `schema_urls_compatible`. -/
def schemaUrlsCompatible (a b : String) : Bool := a.isEmpty || b.isEmpty || a = b

/-! ## Merging -/

/-- `ExportLogsServiceRequest`. -/
structure ExportLogsServiceRequest where
  resourceLogs : List ResourceLogs

/-- An empty `schema_url` takes the value of the incoming entry's. -/
def promote (existing incoming : String) : String :=
  if existing.isEmpty && !incoming.isEmpty then incoming else existing

/-- The entry takes the logs in. -/
def ResourceLogs.mergesWith (existing rl : ResourceLogs) : Bool :=
  resourcesEq existing.resource rl.resource && schemaUrlsCompatible existing.schemaUrl rl.schemaUrl

/-- The scope entries are put together. -/
def ResourceLogs.extend (existing rl : ResourceLogs) : ResourceLogs :=
  { existing with
    schemaUrl := promote existing.schemaUrl rl.schemaUrl
    scopeLogs := existing.scopeLogs ++ rl.scopeLogs }

/-- `merge_by_resource`. -/
def mergeByResource (decoded : List ResourceLogs) : ExportLogsServiceRequest :=
  ⟨group ResourceLogs.mergesWith ResourceLogs.extend decoded⟩

/-- The entry takes the logs in. -/
def ScopeLogs.mergesWith (existing sl : ScopeLogs) : Bool :=
  scopesEq existing.scope sl.scope && schemaUrlsCompatible existing.schemaUrl sl.schemaUrl

/-- The records are put together. -/
def ScopeLogs.extend (existing sl : ScopeLogs) : ScopeLogs :=
  { existing with
    schemaUrl := promote existing.schemaUrl sl.schemaUrl
    logRecords := existing.logRecords ++ sl.logRecords }

/-- `merge_by_scope`. -/
def mergeByScope (decoded : List ResourceLogs) : ExportLogsServiceRequest :=
  ⟨(mergeByResource decoded).resourceLogs.map fun rl =>
    { rl with scopeLogs := group ScopeLogs.mergesWith ScopeLogs.extend rl.scopeLogs }⟩

/-- `BatchLevel`. -/
inductive BatchLevel where
  | none
  | resource
  | scope

/-- The request that a batch is made into. -/
def BatchLevel.request : BatchLevel → List ResourceLogs → ExportLogsServiceRequest
  | none, decoded => ⟨decoded⟩
  | resource, decoded => mergeByResource decoded
  | scope, decoded => mergeByScope decoded

/-- `decode_drained_to_request`, with the decoder of the `prost` crate. -/
def decodeDrainedToRequest (decode : Bytes → Option ResourceLogs) (drained : List Bytes)
    (batchLevel : BatchLevel) : Except String ExportLogsServiceRequest := do
  let decoded ← drained.mapM fun proto =>
    match decode proto with
    | some rl => .ok rl
    | none => .error ("output otlp: pipeline egress is not a valid ResourceLogs proto " ++
        "(wire it through `otlp.encode_resourcelog_protobuf`)")
  return batchLevel.request decoded

/-! ## What merging may do -/

/-- A record with what it stands under. -/
structure LabelledRecord where
  record : LogRecord
  resource : Option Resource
  resourceSchemaUrl : String
  scope : Option InstrumentationScope
  scopeSchemaUrl : String

/-- The records of a scope entry, with what they are under. -/
def ScopeLogs.labelled (rl : ResourceLogs) (sl : ScopeLogs) : List LabelledRecord :=
  sl.logRecords.map fun record => ⟨record, rl.resource, rl.schemaUrl, sl.scope, sl.schemaUrl⟩

/-- The records of each scope entry. -/
def scopeEntries (messages : List ResourceLogs) : List (List LabelledRecord) :=
  messages.flatMap fun rl => rl.scopeLogs.map (ScopeLogs.labelled rl)

/-- The records of a request. -/
def flattened (messages : List ResourceLogs) : List LabelledRecord :=
    (scopeEntries messages).flatten

/-- The same attributes in another order, equal as `==` has it. -/
def Reordered (a b : List KeyValue) : Prop :=
  ∃ a', a.Perm a' ∧ List.Forall₂ (fun x y => KeyValue.eq x y) a' b

/-- A resource is kept up to the order of its attributes. -/
def ResourceKept : Option Resource → Option Resource → Prop
  | some x, some y =>
    x = y ∨ (x.droppedAttributesCount = y.droppedAttributesCount ∧ x.entityRefs = y.entityRefs ∧
      Reordered x.attributes y.attributes)
  | x, y => x = y

/-- A scope is kept up to the order of its attributes. -/
def ScopeKept : Option InstrumentationScope → Option InstrumentationScope → Prop
  | some x, some y =>
    x = y ∨ (x.name = y.name ∧ x.version = y.version ∧
      x.droppedAttributesCount = y.droppedAttributesCount ∧ Reordered x.attributes y.attributes)
  | x, y => x = y

/-- An empty `schema_url` may be filled in. -/
def UrlKept (before after : String) : Prop := before ≠ "" → after = before

/-- What becomes of a record of the batch. -/
structure LabelledRecord.Kept (before after : LabelledRecord) : Prop where
  record : after.record = before.record
  resource : ResourceKept after.resource before.resource
  resourceSchemaUrl : UrlKept before.resourceSchemaUrl after.resourceSchemaUrl
  scope : ScopeKept after.scope before.scope
  scopeSchemaUrl : UrlKept before.scopeSchemaUrl after.scopeSchemaUrl

/-- `arrived` has, for each scope entry of the request, the records of the batch that are in it,
with their places in the batch. -/
structure Regrouped (batch request : List ResourceLogs)
    (arrived : List (List (LabelledRecord × ℕ))) :
    Prop where
  all : arrived.flatten.Perm (flattened batch).zipIdx
  kept : List.Forall₂ (List.Forall₂ fun after before => before.1.Kept after)
    (scopeEntries request) arrived
  inOrder : ∀ entry ∈ arrived, entry.Pairwise fun first second => first.2 < second.2

/-! ## One entry -/

theorem reordered_of_attrsEq {a b : List KeyValue} (h : attrsEq a b) : Reordered a b := by
  simp only [attrsEq, Bool.and_eq_true, decide_eq_true_eq, List.all_eq_true] at h
  obtain ⟨hlength, hall⟩ := h
  have hperm (l : List KeyValue) : (sortByKey l).Perm l := List.mergeSort_perm l _
  have hsorted : List.Forall₂ (fun x y => KeyValue.eq x y) (sortByKey a) (sortByKey b) := by
    refine List.forall₂_iff_zip.mpr ⟨?_, fun hxy => hall _ hxy⟩
    rw [(hperm a).length_eq, (hperm b).length_eq, hlength]
  have hcomp : Relation.Comp (List.Forall₂ fun x y => KeyValue.eq x y) List.Perm (sortByKey a) b :=
    ⟨sortByKey b, hsorted, hperm b⟩
  rw [List.forall₂_comp_perm_eq_perm_comp_forall₂] at hcomp
  obtain ⟨a', ha', hforall⟩ := hcomp
  exact ⟨a', (hperm a).symm.trans ha', hforall⟩

/-- Pointwise equal attributes are sorted alike, as the sort is stable. -/
theorem attrsEq_of_forall₂ {a b : List KeyValue}
    (h : List.Forall₂ (fun x y => KeyValue.eq x y) a b) : attrsEq a b := by
  obtain ⟨pairs, rfl, rfl, hpairs⟩ : ∃ pairs : List (KeyValue × KeyValue),
      a = pairs.map Prod.fst ∧ b = pairs.map Prod.snd ∧ ∀ pair ∈ pairs, pair.1.eq pair.2 := by
    obtain ⟨hlength, hzip⟩ := List.forall₂_iff_zip.mp h
    exact ⟨a.zip b, (List.map_fst_zip (Nat.le_of_eq hlength)).symm,
      (List.map_snd_zip (Nat.le_of_eq hlength.symm)).symm, fun pair hpair => hzip hpair⟩
  have hkey : ∀ pair ∈ pairs, pair.1.key = pair.2.key := by
    rintro ⟨⟨key, value, keyStrindex⟩, ⟨key', value', keyStrindex'⟩⟩ hpair
    have heq := hpairs _ hpair
    simp only [KeyValue.eq, Bool.and_eq_true, decide_eq_true_eq] at heq
    exact heq.1.1
  obtain ⟨sorted, hsorted⟩ : ∃ sorted, pairs.mergeSort (fun p q => p.1.key ≤ q.1.key) = sorted :=
    ⟨_, rfl⟩
  have hfst : sortByKey (pairs.map Prod.fst) = sorted.map Prod.fst := by
    rw [← hsorted, sortByKey]
    exact (List.map_mergeSort (f := Prod.fst) fun p _ q _ => rfl).symm
  have hsnd : sortByKey (pairs.map Prod.snd) = sorted.map Prod.snd := by
    rw [← hsorted, sortByKey]
    exact (List.map_mergeSort fun p hp q hq => by rw [hkey p hp, hkey q hq]).symm
  have hmem : ∀ pair ∈ sorted, pair.1.eq pair.2 := fun pair hpair =>
    hpairs pair ((List.mergeSort_perm pairs _).subset (hsorted ▸ hpair))
  rw [attrsEq, hfst, hsnd, List.zip_map', List.all_map, Bool.and_eq_true]
  exact ⟨by simp, List.all_eq_true.mpr hmem⟩

/-- The order of the attributes does not matter where no key occurs twice. -/
theorem attrsEq_of_reordered {a b : List KeyValue} (hkeys : (a.map KeyValue.key).Nodup)
    (h : Reordered a b) : attrsEq a b := by
  obtain ⟨a', hperm, hforall⟩ := h
  have hle (l : List KeyValue) : (sortByKey l).Pairwise fun x y => x.key ≤ y.key := by
    refine (List.pairwise_mergeSort (fun x y z hxy hyz => ?_) (fun x y => ?_) l).imp
      of_decide_eq_true
    · exact decide_eq_true (String.le_trans (of_decide_eq_true hxy) (of_decide_eq_true hyz))
    · simpa using String.le_total x.key y.key
  have hsorted : sortByKey a = sortByKey a' := by
    have hsort (l : List KeyValue) : (sortByKey l).Perm l := List.mergeSort_perm l _
    refine List.Perm.eq_of_pairwise (fun x y hx hy hxy hyx => ?_) (hle a) (hle a')
      ((hsort a).trans (hperm.trans (hsort a').symm))
    exact List.inj_on_of_nodup_map hkeys ((hsort a).subset hx)
      (hperm.symm.subset ((hsort a').subset hy)) (String.le_antisymm hxy hyx)
  have heq := attrsEq_of_forall₂ hforall
  rw [attrsEq, ← hsorted, ← hperm.length_eq] at heq
  exact heq

@[simp] theorem resourceKept_refl (resource : Option Resource) :
    ResourceKept resource resource := by
  cases resource with
  | none => rfl
  | some x => exact .inl rfl

@[simp] theorem scopeKept_refl (scope : Option InstrumentationScope) : ScopeKept scope scope := by
  cases scope with
  | none => rfl
  | some x => exact .inl rfl

@[simp] theorem urlKept_refl (url : String) : UrlKept url url := fun _ => rfl

theorem resourceKept_of_resourcesEq {after before : Option Resource}
    (h : resourcesEq after before) : ResourceKept after before := by
  cases after with
  | none =>
      cases before with
      | none => rfl
      | some y => exact nomatch h
  | some x =>
      cases before with
      | none => exact nomatch h
      | some y =>
          simp only [resourcesEq, Bool.and_eq_true, decide_eq_true_eq] at h
          obtain ⟨⟨hdropped, hattributes⟩, hrefs⟩ := h
          exact .inr ⟨hdropped, hrefs, reordered_of_attrsEq hattributes⟩

theorem scopeKept_of_scopesEq {after before : Option InstrumentationScope}
    (h : scopesEq after before) : ScopeKept after before := by
  cases after with
  | none =>
      cases before with
      | none => rfl
      | some y => exact nomatch h
  | some x =>
      cases before with
      | none => exact nomatch h
      | some y =>
          simp only [scopesEq, Bool.and_eq_true, decide_eq_true_eq] at h
          obtain ⟨⟨⟨hname, hversion⟩, hdropped⟩, hattributes⟩ := h
          exact .inr ⟨hname, hversion, hdropped, reordered_of_attrsEq hattributes⟩

/-- Taking an entry in changes no `schema_url` that is there. -/
theorem promote_of_ne {existing : String} (h : existing ≠ "") (incoming : String) :
    promote existing incoming = existing := by
  simp [promote, h]

theorem UrlKept.promote {before existing : String} (h : UrlKept before existing)
    (incoming : String) : UrlKept before (promote existing incoming) := by
  intro hbefore
  rw [promote_of_ne (h hbefore ▸ hbefore), h hbefore]

/-- The entry that is taken in keeps its own, too. -/
theorem urlKept_promote {existing incoming : String}
    (h : schemaUrlsCompatible existing incoming) :
    UrlKept incoming (promote existing incoming) := by
  intro hincoming
  simp only [schemaUrlsCompatible, Bool.or_eq_true, String.isEmpty_iff, decide_eq_true_eq] at h
  by_cases hexisting : existing = ""
  · simp [Otlp.promote, hexisting, hincoming]
  · rw [promote_of_ne hexisting]
    exact (h.resolve_left fun h => h.elim hexisting hincoming)

/-- What a merged message has of the messages it is made of. -/
structure ResourceLogs.MadeOf (merged : ResourceLogs) (part : List ResourceLogs) : Prop where
  scopeLogs : merged.scopeLogs = part.flatMap ResourceLogs.scopeLogs
  resource : ∀ rl ∈ part, ResourceKept merged.resource rl.resource
  schemaUrl : ∀ rl ∈ part, UrlKept rl.schemaUrl merged.schemaUrl

theorem ResourceLogs.madeOf_of_collected {merged : ResourceLogs} {part : List ResourceLogs}
    (h : Collected ResourceLogs.mergesWith ResourceLogs.extend merged part) :
    merged.MadeOf part := by
  induction h with
  | single rl => exact ⟨by simp, by simp, by simp⟩
  | @absorb existing rl part _ hmerges ih =>
      obtain ⟨hresource, hurl⟩ := Bool.and_eq_true_iff.mp hmerges
      refine ⟨by simp [ResourceLogs.extend, ih.scopeLogs], ?_, ?_⟩
      · rw [List.forall_mem_append, List.forall_mem_singleton]
        exact ⟨ih.resource, resourceKept_of_resourcesEq hresource⟩
      · rw [List.forall_mem_append, List.forall_mem_singleton]
        exact ⟨fun rl' hrl' => (ih.schemaUrl rl' hrl').promote rl.schemaUrl, urlKept_promote hurl⟩

/-- What a merged scope entry has of the entries it is made of. -/
structure ScopeLogs.MadeOf (merged : ScopeLogs) (part : List ScopeLogs) : Prop where
  logRecords : merged.logRecords = part.flatMap ScopeLogs.logRecords
  scope : ∀ sl ∈ part, ScopeKept merged.scope sl.scope
  schemaUrl : ∀ sl ∈ part, UrlKept sl.schemaUrl merged.schemaUrl

theorem ScopeLogs.madeOf_of_collected {merged : ScopeLogs} {part : List ScopeLogs}
    (h : Collected ScopeLogs.mergesWith ScopeLogs.extend merged part) : merged.MadeOf part := by
  induction h with
  | single sl => exact ⟨by simp, by simp, by simp⟩
  | @absorb existing sl part _ hmerges ih =>
      obtain ⟨hscope, hurl⟩ := Bool.and_eq_true_iff.mp hmerges
      refine ⟨by simp [ScopeLogs.extend, ih.logRecords], ?_, ?_⟩
      · rw [List.forall_mem_append, List.forall_mem_singleton]
        exact ⟨ih.scope, scopeKept_of_scopesEq hscope⟩
      · rw [List.forall_mem_append, List.forall_mem_singleton]
        exact ⟨fun sl' hsl' => (ih.schemaUrl sl' hsl').promote sl.schemaUrl, urlKept_promote hurl⟩

/-! ## No two entries -/

/-- One resource: as `==` has it, or with its attributes in another order, no key coming twice. -/
def SameResource : Option Resource → Option Resource → Prop
  | some x, some y =>
    resourcesEq (some x) (some y) ∨
      (x.droppedAttributesCount = y.droppedAttributesCount ∧ x.entityRefs = y.entityRefs ∧
        (x.attributes.map KeyValue.key).Nodup ∧ Reordered x.attributes y.attributes)
  | x, y => resourcesEq x y

/-- One scope, likewise. -/
def SameScope : Option InstrumentationScope → Option InstrumentationScope → Prop
  | some x, some y =>
    scopesEq (some x) (some y) ∨
      (x.name = y.name ∧ x.version = y.version ∧
        x.droppedAttributesCount = y.droppedAttributesCount ∧
          (x.attributes.map KeyValue.key).Nodup ∧ Reordered x.attributes y.attributes)
  | x, y => scopesEq x y

theorem resourcesEq_of_same {a b : Option Resource} (h : SameResource a b) : resourcesEq a b := by
  cases a with
  | none => exact h
  | some x =>
      cases b with
      | none => exact h
      | some y =>
          obtain heq | ⟨hdropped, hrefs, hkeys, hattributes⟩ := h
          · exact heq
          · simp [resourcesEq, hdropped, hrefs, attrsEq_of_reordered hkeys hattributes]

theorem scopesEq_of_same {a b : Option InstrumentationScope} (h : SameScope a b) :
    scopesEq a b := by
  cases a with
  | none => exact h
  | some x =>
      cases b with
      | none => exact h
      | some y =>
          obtain heq | ⟨hname, hversion, hdropped, hkeys, hattributes⟩ := h
          · exact heq
          · simp [scopesEq, hname, hversion, hdropped, attrsEq_of_reordered hkeys hattributes]

/-- Of the same resource only under different `schema_url`s. -/
def ResourceLogs.Apart (a b : ResourceLogs) : Prop :=
  SameResource a.resource b.resource →
    a.schemaUrl ≠ "" ∧ b.schemaUrl ≠ "" ∧ a.schemaUrl ≠ b.schemaUrl

/-- Of the same scope only under different `schema_url`s. -/
def ScopeLogs.Apart (a b : ScopeLogs) : Prop :=
  SameScope a.scope b.scope → a.schemaUrl ≠ "" ∧ b.schemaUrl ≠ "" ∧ a.schemaUrl ≠ b.schemaUrl

theorem incompatible {a b : String} (h : ¬ schemaUrlsCompatible a b) : a ≠ "" ∧ b ≠ "" ∧ a ≠ b := by
  simpa [schemaUrlsCompatible, and_assoc] using h

theorem pairwise_mergeByResource (decoded : List ResourceLogs) :
    (mergeByResource decoded).resourceLogs.Pairwise ResourceLogs.Apart := by
  refine pairwise_group (fun existing rl hnot hsame => ?_)
    (fun existing rl other hapart hsame => ?_)
    (fun existing rl other hapart hsame => ?_) decoded
  · refine incompatible fun hcompatible => hnot ?_
    simp [ResourceLogs.mergesWith, resourcesEq_of_same hsame, hcompatible]
  · obtain ⟨hexisting, hother⟩ := hapart hsame
    simp only [ResourceLogs.extend, promote_of_ne hexisting]
    exact ⟨hexisting, hother⟩
  · obtain ⟨hother, hexisting, hne⟩ := hapart hsame
    simp only [ResourceLogs.extend, promote_of_ne hexisting]
    exact ⟨hother, hexisting, hne⟩

theorem pairwise_groupScopes (scopeLogs : List ScopeLogs) :
    (group ScopeLogs.mergesWith ScopeLogs.extend scopeLogs).Pairwise ScopeLogs.Apart := by
  refine pairwise_group (fun existing sl hnot hsame => ?_)
    (fun existing sl other hapart hsame => ?_)
    (fun existing sl other hapart hsame => ?_) scopeLogs
  · refine incompatible fun hcompatible => hnot ?_
    simp [ScopeLogs.mergesWith, scopesEq_of_same hsame, hcompatible]
  · obtain ⟨hexisting, hother⟩ := hapart hsame
    simp only [ScopeLogs.extend, promote_of_ne hexisting]
    exact ⟨hexisting, hother⟩
  · obtain ⟨hother, hexisting, hne⟩ := hapart hsame
    simp only [ScopeLogs.extend, promote_of_ne hexisting]
    exact ⟨hother, hexisting, hne⟩

/-! ## The records of a batch

The entries of a batch are taken together with their records as the batch has them, so that what is
said of the entries of a group can be said of records.
-/

/-- A scope entry and its records, with their places in the batch. -/
structure ArrivedScope where
  entry : ScopeLogs
  records : List (LabelledRecord × ℕ)

/-- A message of a request, with the records that came into it. -/
structure ArrivedMessage where
  message : ResourceLogs
  scopes : List ArrivedScope

/-- The records that came into a message. -/
def ArrivedMessage.records (arrived : ArrivedMessage) : List (LabelledRecord × ℕ) :=
  arrived.scopes.flatMap ArrivedScope.records

/-- The records are those of the message. -/
structure ArrivedMessage.Ok (arrived : ArrivedMessage) : Prop where
  scopes : arrived.scopes.map ArrivedScope.entry = arrived.message.scopeLogs
  records : ∀ scope ∈ arrived.scopes,
    scope.records.map Prod.fst = scope.entry.labelled arrived.message

theorem exists_arrivedScopes (rl : ResourceLogs) {scopeLogs : List ScopeLogs}
    {records : List (LabelledRecord × ℕ)}
    (h : records.map Prod.fst = scopeLogs.flatMap (ScopeLogs.labelled rl)) :
    ∃ scopes : List ArrivedScope, scopes.map ArrivedScope.entry = scopeLogs ∧
      (∀ scope ∈ scopes, scope.records.map Prod.fst = scope.entry.labelled rl) ∧
      scopes.flatMap ArrivedScope.records = records := by
  induction scopeLogs generalizing records with
  | nil => exact ⟨[], rfl, by simp, (by simpa using h.symm : [] = records)⟩
  | cons sl scopeLogs ih =>
      rw [List.flatMap_cons] at h
      obtain ⟨first, rest, rfl, hfirst, hrest⟩ := List.map_eq_append_iff.mp h
      obtain ⟨scopes, rfl, hrecords, rfl⟩ := ih hrest
      exact ⟨⟨sl, first⟩ :: scopes, rfl, List.forall_mem_cons.mpr ⟨hfirst, hrecords⟩, rfl⟩

theorem flattened_cons (rl : ResourceLogs) (messages : List ResourceLogs) :
    flattened (rl :: messages) =
      rl.scopeLogs.flatMap (ScopeLogs.labelled rl) ++ flattened messages := by
  simp [flattened, scopeEntries, List.flatMap]

theorem exists_arrived {batch : List ResourceLogs} {records : List (LabelledRecord × ℕ)}
    (h : records.map Prod.fst = flattened batch) :
    ∃ arrived : List ArrivedMessage, arrived.map ArrivedMessage.message = batch ∧
      (∀ m ∈ arrived, m.Ok) ∧ arrived.flatMap ArrivedMessage.records = records := by
  induction batch generalizing records with
  | nil =>
    exact ⟨[], rfl, by simp, (by simpa [flattened, scopeEntries] using h.symm : [] = records)⟩
  | cons rl batch ih =>
      rw [flattened_cons] at h
      obtain ⟨first, rest, rfl, hfirst, hrest⟩ := List.map_eq_append_iff.mp h
      obtain ⟨scopes, hscopes, hrecords, rfl⟩ := exists_arrivedScopes rl hfirst
      obtain ⟨arrived, rfl, hok, rfl⟩ := ih hrest
      exact ⟨⟨rl, scopes⟩ :: arrived, rfl, List.forall_mem_cons.mpr ⟨⟨hscopes, hrecords⟩, hok⟩, rfl⟩

/-- What may be made of the scope entries of one message: each is made of some of them, in their
order, and together they have all. -/
def RegroupsScopes (regroup : List ScopeLogs → List ScopeLogs) : Prop :=
  ∀ scopes : List ArrivedScope, ∃ parts,
    List.Forall₂ (fun sl part => sl.MadeOf (part.map ArrivedScope.entry) ∧ part.Sublist scopes)
        (regroup (scopes.map ArrivedScope.entry)) parts ∧ parts.flatten.Perm scopes

theorem regroupsScopes_id : RegroupsScopes id := by
  intro scopes
  refine ⟨scopes.map ([·]), ?_, ?_⟩
  · rw [id, List.forall₂_map_left_iff, List.forall₂_map_right_iff, List.forall₂_same]
    intro scope hscope
    exact ⟨⟨by simp, by simp, by simp⟩, List.singleton_sublist.mpr hscope⟩
  · rw [← List.flatMap_def, List.flatMap_singleton']

theorem regroupsScopes_group : RegroupsScopes (group ScopeLogs.mergesWith ScopeLogs.extend) := by
  intro scopes
  obtain ⟨parts, hparts, hperm⟩ := @exists_parts_group _ ScopeLogs.mergesWith
    ScopeLogs.extend _ ArrivedScope.entry scopes
  exact ⟨parts, hparts.imp fun _ _ h => ⟨ScopeLogs.madeOf_of_collected h.1, h.2⟩, hperm⟩

/-- The records of a scope entry are those of the entries it is made of, one after another. -/
theorem kept_of_madeOf {merged : ResourceLogs} {sl : ScopeLogs} {part : List ArrivedScope}
    (hmade : sl.MadeOf (part.map ArrivedScope.entry))
    (hrecords : ∀ scope ∈ part, ∃ rl : ResourceLogs, ResourceKept merged.resource rl.resource ∧
      UrlKept rl.schemaUrl merged.schemaUrl ∧
      scope.records.map Prod.fst = scope.entry.labelled rl) :
    List.Forall₂ (fun after before => before.1.Kept after) (sl.labelled merged)
      (part.flatMap ArrivedScope.records) := by
  have hlabelled : sl.labelled merged = part.flatMap fun scope => scope.entry.logRecords.map
      fun record => ⟨record, merged.resource, merged.schemaUrl, sl.scope, sl.schemaUrl⟩ := by
    rw [ScopeLogs.labelled, hmade.logRecords, List.flatMap_map, List.map_flatMap]
  rw [hlabelled]
  refine List.rel_flatMap (List.forall₂_same.mpr fun scope hscope => ⟨rfl, hscope⟩)
    (R := fun a b => a = b ∧ b ∈ part) ?_
  rintro scope _ ⟨rfl, hscope⟩
  obtain ⟨rl, hresource, hurl, hfst⟩ := hrecords scope hscope
  have hscope' := List.mem_map_of_mem (f := ArrivedScope.entry) hscope
  have hkept : List.Forall₂ (fun after before => LabelledRecord.Kept before after)
      (scope.entry.logRecords.map fun record =>
        ⟨record, merged.resource, merged.schemaUrl, sl.scope, sl.schemaUrl⟩)
      (scope.records.map Prod.fst) := by
    rw [hfst, ScopeLogs.labelled, List.forall₂_map_left_iff, List.forall₂_map_right_iff,
      List.forall₂_same]
    exact fun record _ => ⟨rfl, hresource, hurl, hmade.scope _ hscope', hmade.schemaUrl _ hscope'⟩
  rwa [List.forall₂_map_right_iff] at hkept

/-- **One message of the request.** -/
theorem exists_arrived_message {regroup : List ScopeLogs → List ScopeLogs}
    (hregroup : RegroupsScopes regroup) {merged : ResourceLogs} {part : List ArrivedMessage}
    (hmade : merged.MadeOf (part.map ArrivedMessage.message)) (hok : ∀ m ∈ part, m.Ok) :
    ∃ arrived : List (List (LabelledRecord × ℕ)),
      List.Forall₂ (fun entry records =>
          List.Forall₂ (fun after before => before.1.Kept after) entry records ∧
            records.Sublist (part.flatMap ArrivedMessage.records))
        ((regroup merged.scopeLogs).map (ScopeLogs.labelled merged)) arrived ∧
      arrived.flatten.Perm (part.flatMap ArrivedMessage.records) := by
  have hscopeLogs : merged.scopeLogs
      = (part.flatMap ArrivedMessage.scopes).map ArrivedScope.entry := by
    rw [hmade.scopeLogs, List.flatMap_map, List.map_flatMap]
    exact List.flatMap_congr fun m hm => (hok m hm).scopes.symm
  have hrecords : part.flatMap ArrivedMessage.records
      = (part.flatMap ArrivedMessage.scopes).flatMap ArrivedScope.records := List.flatMap_assoc.symm
  obtain ⟨parts, hparts, hperm⟩ := hregroup (part.flatMap ArrivedMessage.scopes)
  rw [hscopeLogs, hrecords]
  refine ⟨parts.map fun part => part.flatMap ArrivedScope.records, ?_, ?_⟩
  · rw [List.forall₂_map_left_iff, List.forall₂_map_right_iff]
    refine hparts.imp fun sl scopes ⟨hsl, hsublist⟩ =>
      ⟨kept_of_madeOf hsl fun scope hscope => ?_, hsublist.flatMap _⟩
    obtain ⟨m, hm, hmem⟩ := List.mem_flatMap.mp (hsublist.subset hscope)
    have hmessage := List.mem_map_of_mem (f := ArrivedMessage.message) hm
    exact ⟨m.message, hmade.resource _ hmessage, hmade.schemaUrl _ hmessage,
      (hok m hm).records scope hmem⟩
  · have hflatten : (parts.map fun part => part.flatMap ArrivedScope.records).flatten
        = parts.flatten.flatMap ArrivedScope.records := by
      rw [← List.flatMap_def, ← List.flatMap_id, List.flatMap_assoc]
      rfl
    rw [hflatten]
    exact hperm.flatMap_right _

/-- **All messages of the request.** -/
theorem exists_arrived_request {regroup : List ScopeLogs → List ScopeLogs}
    (hregroup : RegroupsScopes regroup) {merged : List ResourceLogs}
    {parts : List (List ArrivedMessage)}
    (hparts :
    List.Forall₂ (fun rl part => rl.MadeOf (part.map ArrivedMessage.message)) merged parts)
    (hok : ∀ part ∈ parts, ∀ m ∈ part, m.Ok) {records : List (LabelledRecord × ℕ)}
    (hsublist : ∀ part ∈ parts, (part.flatMap ArrivedMessage.records).Sublist records) :
    ∃ arrived : List (List (LabelledRecord × ℕ)),
      List.Forall₂ (fun entry part =>
          List.Forall₂ (fun after before => before.1.Kept after) entry part ∧ part.Sublist records)
        (scopeEntries (merged.map fun rl => { rl with scopeLogs := regroup rl.scopeLogs }))
          arrived ∧
      arrived.flatten.Perm (parts.flatten.flatMap ArrivedMessage.records) := by
  induction hparts with
  | nil => exact ⟨[], .nil, .nil⟩
  | @cons rl part merged parts hmade _ ih =>
      obtain ⟨hokPart, hokParts⟩ := List.forall_mem_cons.mp hok
      obtain ⟨hsubPart, hsubParts⟩ := List.forall_mem_cons.mp hsublist
      obtain ⟨first, hfirst, hperm⟩ := exists_arrived_message hregroup hmade hokPart
      obtain ⟨rest, hrest, hperms⟩ := ih hokParts hsubParts
      refine ⟨first ++ rest, ?_, ?_⟩
      · exact List.rel_append (hfirst.imp fun _ _ h => ⟨h.1, h.2.trans hsubPart⟩) hrest
      · rw [List.flatten_append, List.flatten_cons, List.flatMap_append]
        exact hperm.append hperms

/-- **Merging keeps the records of a batch**, whatever is made of the scope entries of a message. -/
theorem exists_regrouped {regroup : List ScopeLogs → List ScopeLogs}
    (hregroup : RegroupsScopes regroup) (batch : List ResourceLogs) :
    ∃ arrived, Regrouped batch ((mergeByResource batch).resourceLogs.map fun rl =>
      { rl with scopeLogs := regroup rl.scopeLogs }) arrived := by
  obtain ⟨messages, hmessages, hok, hrecords⟩ :=
    @exists_arrived batch (flattened batch).zipIdx (List.zipIdx_map_fst ..)
  obtain ⟨parts, hparts, hperm⟩ := @exists_parts_group _ ResourceLogs.mergesWith
    ResourceLogs.extend _ ArrivedMessage.message messages
  rw [hmessages] at hparts
  have hsublist : ∀ part ∈ parts, part.Sublist messages :=
    forall_mem_of_forall₂ hparts fun _ _ h => h.2
  have hrecordsSublist : ∀ part ∈ parts,
      (part.flatMap ArrivedMessage.records).Sublist (flattened batch).zipIdx := by
    intro part hpart
    rw [← hrecords]
    exact (hsublist part hpart).flatMap _
  obtain ⟨arrived, harrived, hall⟩ := exists_arrived_request hregroup
    (hparts.imp fun _ _ h => ResourceLogs.madeOf_of_collected h.1)
    (fun part hpart m hm => hok m ((hsublist part hpart).subset hm))
    hrecordsSublist
  refine ⟨arrived, ?_, harrived.imp fun _ _ h => h.1, ?_⟩
  · rw [← hrecords]
    exact hall.trans (hperm.flatMap_right _)
  · have hplaces : (flattened batch).zipIdx.Pairwise fun first second => first.2 < second.2 := by
      rw [← List.pairwise_map (f := Prod.snd) (R := (· < ·)), List.zipIdx_map_snd]
      exact List.pairwise_lt_range'
    exact forall_mem_of_forall₂ harrived fun _ _ h => hplaces.sublist h.2

/-! ## The results -/

end Limpid.Otlp
