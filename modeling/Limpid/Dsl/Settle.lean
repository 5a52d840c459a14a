import Limpid.Entries
import Limpid.Dsl.RoundTrip

/-!
# What a value keeps when it leaves the evaluation

An object of the evaluator is a list of entries in which a key may come twice; an `OwnedValue`
holds each key once.  `settle` is a value after it has been converted to an `OwnedValue` and
viewed again: in every object the last entry of a key, at the place of the first.  A value in
which every object has distinct keys (`Unique`) is what it was.

Both conversions work through lists of items and entries.  They are restated as maps over these
lists first, so that the proofs go by induction on the value with a hypothesis for every item
(`Value.induction`).
-/

namespace Limpid.Dsl

open Entries

/-! ## Induction -/

/-- Induction on a value, with what is inside it given by membership. -/
@[elab_as_elim]
theorem Value.induction {motive : Value → Prop}
    (null : motive .null) (bool : ∀ b, motive (.bool b)) (int : ∀ n, motive (.int n))
    (float : ∀ n, motive (.float n)) (string : ∀ s, motive (.string s))
    (bytes : ∀ data, motive (.bytes data)) (timestamp : ∀ instant, motive (.timestamp instant))
    (array : ∀ items, (∀ item ∈ items, motive item) → motive (.array items))
    (object : ∀ entries : List (String × Value), (∀ entry ∈ entries, motive entry.2) →
      motive (.object entries)) (value : Value) : motive value := by
  refine Value.rec (motive_1 := motive) (motive_2 := fun items => ∀ item ∈ items, motive item)
    (motive_3 := fun entries => ∀ entry ∈ entries, motive entry.2)
    (motive_4 := fun entry => motive entry.2)
    null bool int float string bytes timestamp array object ?_ ?_ ?_ ?_ ?_ value
  · exact fun _ h => absurd h List.not_mem_nil
  · exact fun _ _ hhead htail => List.forall_mem_cons.mpr ⟨hhead, htail⟩
  · exact fun _ h => absurd h List.not_mem_nil
  · exact fun _ _ hhead htail => List.forall_mem_cons.mpr ⟨hhead, htail⟩
  · exact fun _ _ h => h

/-! ## The two conversions -/

theorem Value.toOwnedItems_eq (items : List Value) :
    Value.toOwnedItems items = items.map Value.toOwnedValue := by
  induction items with
  | nil => rfl
  | cons item rest ih => rw [toOwnedItems, ih, List.map_cons]

theorem Value.toOwnedEntries_eq (entries : List (String × Value)) (map : Map) :
    Value.toOwnedEntries entries map = insertAll map (mapValues Value.toOwnedValue entries) := by
  induction entries generalizing map with
  | nil => rfl
  | cons entry rest ih =>
      obtain ⟨key, value⟩ := entry
      rw [toOwnedEntries, ih, Map.insert_eq]
      rfl

@[simp] theorem Value.toOwnedValue_array (items : List Value) :
    (Value.array items).toOwnedValue = .array (items.map Value.toOwnedValue) := by
  rw [toOwnedValue, toOwnedItems_eq]

@[simp] theorem Value.toOwnedValue_object (entries : List (String × Value)) :
    (Value.object entries).toOwnedValue =
      .object (collect (mapValues Value.toOwnedValue entries)) := by
  rw [toOwnedValue, toOwnedEntries_eq, collect]

theorem OwnedValue.viewItems_eq (items : List OwnedValue) :
    OwnedValue.viewItems items = items.map OwnedValue.viewIn := by
  induction items with
  | nil => rfl
  | cons item rest ih => rw [viewItems, ih, List.map_cons]

theorem OwnedValue.viewEntries_eq (entries : List (String × OwnedValue)) :
    OwnedValue.viewEntries entries = mapValues OwnedValue.viewIn entries := by
  induction entries with
  | nil => rfl
  | cons entry rest ih =>
      obtain ⟨key, value⟩ := entry
      rw [viewEntries, ih]
      rfl

@[simp] theorem OwnedValue.viewIn_array (items : List OwnedValue) :
    (OwnedValue.array items).viewIn = .array (items.map OwnedValue.viewIn) := by
  rw [viewIn, viewItems_eq]

@[simp] theorem OwnedValue.viewIn_object (entries : List (String × OwnedValue)) :
    (OwnedValue.object entries).viewIn = .object (mapValues OwnedValue.viewIn entries) := by
  rw [viewIn, viewEntries_eq]

/-! ## Well-formed owned values -/

/-- The keys of every object are distinct, as an `IndexMap` has them. -/
inductive OwnedValue.WellFormed : OwnedValue → Prop
  | null : WellFormed .null
  | bool (b : Bool) : WellFormed (.bool b)
  | int (n : Int64) : WellFormed (.int n)
  | float (n : F64) : WellFormed (.float n)
  | string (s : String) : WellFormed (.string s)
  | bytes (data : Bytes) : WellFormed (.bytes data)
  | timestamp (instant : Timestamp) : WellFormed (.timestamp instant)
  | array {items : List OwnedValue} (h : ∀ item ∈ items, WellFormed item) :
      WellFormed (.array items)
  | object {entries : List (String × OwnedValue)} (hkeys : (keys entries).Nodup)
      (h : ∀ entry ∈ entries, WellFormed entry.2) : WellFormed (.object entries)

theorem Value.wellFormed_toOwnedValue (value : Value) : value.toOwnedValue.WellFormed := by
  induction value using Value.induction with
  | null => exact .null
  | bool b => exact .bool b
  | int n => exact .int n
  | float n => exact .float n
  | string s => exact .string s
  | bytes data => exact .bytes data
  | timestamp instant => exact .timestamp instant
  | array items ih =>
      rw [toOwnedValue_array]
      exact .array (List.forall_mem_map.mpr ih)
  | object entries ih =>
      rw [toOwnedValue_object]
      refine .object (nodup_collect _) fun entry hentry => ?_
      have hmem : entry ∈ mapValues Value.toOwnedValue entries :=
        (settled_sublist _).subset ((collect_perm _).subset hentry)
      obtain ⟨original, horiginal, rfl⟩ := List.mem_map.mp hmem
      exact ih original horiginal

theorem OwnedValue.toOwnedValue_viewIn {value : OwnedValue} (h : value.WellFormed) :
    value.viewIn.toOwnedValue = value := by
  induction h with
  | array _ ih =>
      rw [viewIn_array, Value.toOwnedValue_array, List.map_map]
      exact congrArg _ ((List.map_congr_left ih).trans (List.map_id _))
  | @object entries hkeys _ ih =>
      rw [viewIn_object, Value.toOwnedValue_object]
      have hentries : mapValues Value.toOwnedValue (mapValues OwnedValue.viewIn entries) =
          entries := by
        rw [mapValues_mapValues]
        exact mapValues_eq_self ih
      rw [hentries, collect_of_nodup hkeys]
  | _ => rfl

/-! ## Settled values -/

/-- A value after it has left the evaluation and been viewed again. -/
def Value.settle (value : Value) : Value := value.toOwnedValue.viewIn

@[simp] theorem Value.settle_array (items : List Value) :
    (Value.array items).settle = .array (items.map Value.settle) := by
  rw [settle, toOwnedValue_array, OwnedValue.viewIn_array, List.map_map]
  rfl

@[simp] theorem Value.settle_object (entries : List (String × Value)) :
    (Value.object entries).settle = .object (collect (mapValues Value.settle entries)) := by
  rw [settle, toOwnedValue_object, OwnedValue.viewIn_object, mapValues_collect,
    mapValues_mapValues]
  rfl

/-- In every object inside a value the keys are distinct. -/
inductive Value.Unique : Value → Prop
  | null : Unique .null
  | bool (b : Bool) : Unique (.bool b)
  | int (n : Int64) : Unique (.int n)
  | float (n : F64) : Unique (.float n)
  | string (s : String) : Unique (.string s)
  | bytes (data : Bytes) : Unique (.bytes data)
  | timestamp (instant : Timestamp) : Unique (.timestamp instant)
  | array {items : List Value} (h : ∀ item ∈ items, Unique item) : Unique (.array items)
  | object {entries : List (String × Value)} (hkeys : (keys entries).Nodup)
      (h : ∀ entry ∈ entries, Unique entry.2) : Unique (.object entries)

theorem Value.settle_of_unique {value : Value} (h : value.Unique) : value.settle = value := by
  induction h with
  | array _ ih =>
      rw [settle_array]
      exact congrArg _ ((List.map_congr_left ih).trans (List.map_id _))
  | object hkeys _ ih =>
      rw [settle_object, mapValues_eq_self ih, collect_of_nodup hkeys]
  | _ => rfl

end Limpid.Dsl
