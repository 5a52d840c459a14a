import Mathlib.Algebra.GroupWithZero.Nat
import Mathlib.Data.List.Nodup
import Mathlib.Data.List.Perm.Basic

/-!
# Lists of entries and maps in insertion order

A list of entries may hold a key more than once; a map holds each key once, in the order in which
the keys came.  `insert` writes into a map: a key that is there keeps its place.  `collect` makes a
map of a list of entries, so that of the entries with one key the last one wins, at the place of
the first.

What a map made of a list says about the list:

* read by key it gives the `last` entry of the key (`lookup_collect`);
* up to order it holds the entries that no later one overrides, `settled` (`collect_perm`).
-/

namespace Limpid.Entries

variable {K V W : Type*}

/-- The keys, as often as they occur. -/
def keys (entries : List (K × V)) : List K := entries.map Prod.fst

@[simp] theorem keys_nil : keys ([] : List (K × V)) = [] := rfl

@[simp] theorem keys_cons (entry : K × V) (entries : List (K × V)) :
    keys (entry :: entries) = entry.1 :: keys entries := rfl

@[simp] theorem keys_append (first second : List (K × V)) :
    keys (first ++ second) = keys first ++ keys second := List.map_append

variable [DecidableEq K]

theorem lookup_cons (key : K) (entry : K × V) (rest : List (K × V)) :
    (entry :: rest).lookup key = if key = entry.1 then some entry.2 else rest.lookup key := by
  rw [List.lookup_cons]
  by_cases h : key = entry.1
  · rw [if_pos h, beq_iff_eq.mpr h]
  · rw [if_neg h, beq_eq_false_iff_ne.mpr h]

theorem lookup_eq_none_iff {key : K} {entries : List (K × V)} :
    entries.lookup key = none ↔ key ∉ keys entries := by
  induction entries with
  | nil => simp
  | cons entry rest ih =>
      rw [lookup_cons, keys_cons, List.mem_cons, not_or, ← ih]
      by_cases h : key = entry.1 <;> simp [h]

/-- The values of a key, in order. -/
def valuesOf (key : K) (entries : List (K × V)) : List V :=
  (entries.filter fun entry => entry.1 = key).map Prod.snd

theorem valuesOf_eq_nil {key : K} {entries : List (K × V)} (h : key ∉ keys entries) :
    valuesOf key entries = [] := by
  rw [valuesOf, List.filter_eq_nil_iff.mpr, List.map_nil]
  intro entry hentry hkey
  exact h (List.mem_map.mpr ⟨entry, hentry, of_decide_eq_true hkey⟩)

/-- A key that occurs once has its one value. -/
theorem valuesOf_of_nodup {entries : List (K × V)} (h : (keys entries).Nodup) {key : K} {value : V}
    (hmem : (key, value) ∈ entries) : valuesOf key entries = [value] := by
  obtain ⟨before, after, rfl⟩ := List.append_of_mem hmem
  rw [keys_append, keys_cons, List.nodup_middle, List.nodup_cons, List.mem_append, not_or] at h
  have hbefore := valuesOf_eq_nil h.1.1
  have hafter := valuesOf_eq_nil h.1.2
  rw [valuesOf] at hbefore hafter ⊢
  rw [List.filter_append, List.filter_cons, List.map_append, hbefore]
  simp [hafter]

/-- Two values of a key that occurs once are the same. -/
theorem eq_of_mem {entries : List (K × V)} (h : (keys entries).Nodup) {key : K} {first second : V}
    (hfirst : (key, first) ∈ entries) (hsecond : (key, second) ∈ entries) : first = second := by
  have hvalues := valuesOf_of_nodup h hfirst
  rw [valuesOf_of_nodup h hsecond] at hvalues
  exact (List.singleton_injective hvalues).symm

/-- Write into a map. -/
def insert (key : K) (value : V) : List (K × V) → List (K × V)
  | [] => [(key, value)]
  | (k, v) :: rest => if k = key then (k, value) :: rest else (k, v) :: insert key value rest

theorem insert_of_notMem {key : K} {value : V} {map : List (K × V)} (h : key ∉ keys map) :
    insert key value map = map ++ [(key, value)] := by
  induction map with
  | nil => rfl
  | cons entry rest ih =>
      rw [keys_cons, List.mem_cons, not_or] at h
      rw [insert, if_neg (Ne.symm h.1), ih h.2, List.cons_append]

theorem keys_insert_of_mem {key : K} {value : V} {map : List (K × V)} (h : key ∈ keys map) :
    keys (insert key value map) = keys map := by
  induction map with
  | nil => exact absurd h List.not_mem_nil
  | cons entry rest ih =>
      rw [insert]
      split
      · rfl
      · next hne =>
        rw [keys_cons, List.mem_cons] at h
        rw [keys_cons, keys_cons, ih (h.resolve_left (Ne.symm hne))]

theorem keys_insert (key : K) (value : V) (map : List (K × V)) :
    keys (insert key value map) = if key ∈ keys map then keys map else keys map ++ [key] := by
  split
  · next h => exact keys_insert_of_mem h
  · next h => rw [insert_of_notMem h, keys_append, keys_cons, keys_nil]

theorem nodup_insert {map : List (K × V)} (h : (keys map).Nodup) (key : K) (value : V) :
    (keys (insert key value map)).Nodup := by
  rw [keys_insert]
  split
  · exact h
  · next hkey => exact List.nodup_append.mpr ⟨h, List.nodup_singleton key, by
      rintro a ha b hb rfl
      exact hkey (List.mem_singleton.mp hb ▸ ha)⟩

theorem lookup_insert (key k : K) (value : V) (map : List (K × V)) :
    (insert key value map).lookup k = if k = key then some value else map.lookup k := by
  induction map with
  | nil => rw [insert, lookup_cons]
  | cons entry rest ih =>
      rw [insert]
      by_cases hkey : entry.1 = key
      · rw [if_pos hkey, lookup_cons, lookup_cons, hkey]
        by_cases hk : k = key <;> simp [hk]
      · rw [if_neg hkey, lookup_cons, lookup_cons, ih]
        by_cases hk : k = entry.1
        · simp [hk, hkey]
        · simp [hk]

/-- An inserted entry comes to those of the other keys. -/
theorem insert_perm {map : List (K × V)} (h : (keys map).Nodup) (key : K) (value : V) :
    (insert key value map).Perm ((key, value) :: map.filter fun entry => entry.1 ≠ key) := by
  induction map with
  | nil => exact List.Perm.refl _
  | cons entry rest ih =>
      rw [keys_cons, List.nodup_cons] at h
      rw [insert]
      split
      · next hkey =>
        have hrest : rest.filter (fun other => other.1 ≠ key) = rest :=
          List.filter_eq_self.mpr fun other hother => by
            have hne : other.1 ≠ key := fun heq =>
              h.1 (hkey ▸ heq ▸ List.mem_map_of_mem hother)
            simpa using hne
        rw [List.filter_cons_of_neg (by simpa using hkey), hrest, ← hkey]
      · next hkey =>
        rw [List.filter_cons_of_pos (by simpa using hkey)]
        exact ((ih h.2).cons entry).trans (List.Perm.swap _ _ _)

/-! ## The map of a list -/

/-- Write entries into a map, in order. -/
def insertAll (map entries : List (K × V)) : List (K × V) :=
  entries.foldl (fun map entry => insert entry.1 entry.2 map) map

@[simp] theorem insertAll_nil (map : List (K × V)) : insertAll map [] = map := rfl

@[simp] theorem insertAll_cons (map : List (K × V)) (entry : K × V) (rest : List (K × V)) :
    insertAll map (entry :: rest) = insertAll (insert entry.1 entry.2 map) rest := rfl

/-- A map made of entries, the last one of a key winning. -/
def collect (entries : List (K × V)) : List (K × V) := insertAll [] entries

theorem nodup_insertAll {map : List (K × V)} (h : (keys map).Nodup) (entries : List (K × V)) :
    (keys (insertAll map entries)).Nodup := by
  induction entries generalizing map with
  | nil => exact h
  | cons entry rest ih => exact ih (nodup_insert h entry.1 entry.2)

theorem nodup_collect (entries : List (K × V)) : (keys (collect entries)).Nodup := by
  have hempty : (keys ([] : List (K × V))).Nodup := List.nodup_nil
  exact nodup_insertAll hempty entries

/-- Entries with new keys are appended. -/
theorem insertAll_of_nodup {map entries : List (K × V)}
    (h : (keys (map ++ entries)).Nodup) : insertAll map entries = map ++ entries := by
  induction entries generalizing map with
  | nil => simp
  | cons entry rest ih =>
      have hnew : entry.1 ∉ keys map := by
        rw [keys_append, List.nodup_append] at h
        exact fun hmem => h.2.2 _ hmem _ List.mem_cons_self rfl
      have happend : map ++ entry :: rest = (map ++ [entry]) ++ rest := by simp
      rw [insertAll_cons, insert_of_notMem hnew]
      rw [happend] at h ⊢
      exact ih h

theorem collect_of_nodup {entries : List (K × V)} (h : (keys entries).Nodup) :
    collect entries = entries := by
  have hall : (keys ([] ++ entries)).Nodup := h
  exact insertAll_of_nodup hall

/-- The value of the last entry of a key. -/
def last (key : K) : List (K × V) → Option V
  | [] => none
  | (k, v) :: rest => (last key rest).or (if k = key then some v else none)

theorem lookup_insertAll (key : K) (map entries : List (K × V)) :
    (insertAll map entries).lookup key = (last key entries).or (map.lookup key) := by
  induction entries generalizing map with
  | nil => rfl
  | cons entry rest ih =>
      rw [insertAll_cons, ih, lookup_insert, last, Option.or_assoc]
      congr 1
      by_cases h : key = entry.1
      · simp [h]
      · simp [h, Ne.symm h]

theorem lookup_collect (key : K) (entries : List (K × V)) :
    (collect entries).lookup key = last key entries := by
  rw [collect, lookup_insertAll, List.lookup_nil, Option.or_none]

theorem mem_of_last {key : K} {value : V} {entries : List (K × V)}
    (h : last key entries = some value) : (key, value) ∈ entries := by
  induction entries with
  | nil => exact absurd h (by simp [last])
  | cons entry rest ih =>
      rw [last, Option.or_eq_some_iff] at h
      rcases h with h | ⟨-, h⟩
      · exact List.mem_cons_of_mem _ (ih h)
      · split at h
        · next hkey =>
          obtain rfl := Option.some.inj h
          rw [← hkey]
          exact List.mem_cons_self
        · exact absurd h (by simp)

theorem last_eq_none_iff {key : K} {entries : List (K × V)} :
    last key entries = none ↔ key ∉ keys entries := by
  induction entries with
  | nil => simp [last]
  | cons entry rest ih =>
      rw [last, Option.or_eq_none_iff, ih, keys_cons, List.mem_cons, not_or]
      by_cases h : entry.1 = key
      · simp [h]
      · simp [h, Ne.symm h]

theorem last_eq_none_iff_notMem_collect {key : K} {entries : List (K × V)} :
    last key entries = none ↔ key ∉ keys (collect entries) := by
  rw [← lookup_collect, lookup_eq_none_iff]

/-- Among distinct keys the last entry is the only one. -/
theorem last_of_nodup {entries : List (K × V)} (h : (keys entries).Nodup) (key : K) :
    last key entries = entries.lookup key := by
  rw [← lookup_collect, collect_of_nodup h]

/-- Two maps with the same keys in the same order and the same values by key are the same. -/
theorem ext_of_lookup {first second : List (K × V)} (hkeys : keys first = keys second)
    (hnodup : (keys first).Nodup) (h : ∀ key, first.lookup key = second.lookup key) :
    first = second := by
  induction first generalizing second with
  | nil => exact (List.map_eq_nil_iff.mp hkeys.symm).symm
  | cons entry rest ih =>
      obtain ⟨other, others, rfl, hhead, htail⟩ := List.map_eq_cons_iff.mp hkeys.symm
      rw [keys_cons, List.nodup_cons] at hnodup
      have hentry : entry = other := by
        have hvalue := h entry.1
        rw [lookup_cons, lookup_cons, if_pos rfl, if_pos hhead.symm] at hvalue
        exact Prod.ext hhead.symm (Option.some.inj hvalue)
      have hsame : keys rest = keys others := htail.symm
      rw [hentry, ih hsame hnodup.2 fun key => ?_]
      by_cases hkey : key = entry.1
      · rw [lookup_eq_none_iff.mpr (hkey ▸ hnodup.1),
          lookup_eq_none_iff.mpr (by rw [hkey, ← hsame]; exact hnodup.1)]
      · have hrest := h key
        rwa [lookup_cons, lookup_cons, if_neg hkey, if_neg (hhead ▸ hkey)] at hrest

/-! ## What a list loses -/

/-- The entries that no later one overrides. -/
def settled : List (K × V) → List (K × V)
  | [] => []
  | entry :: rest => if entry.1 ∈ keys rest then settled rest else entry :: settled rest

theorem settled_sublist (entries : List (K × V)) : (settled entries).Sublist entries := by
  induction entries with
  | nil => exact List.Sublist.slnil
  | cons entry rest ih =>
      rw [settled]
      split
      · exact ih.cons entry
      · exact ih.cons_cons entry

theorem insertAll_perm {map : List (K × V)} (h : (keys map).Nodup) (entries : List (K × V)) :
    (insertAll map entries).Perm
      (map.filter (fun entry => entry.1 ∉ keys entries) ++ settled entries) := by
  induction entries generalizing map with
  | nil => simp [settled]
  | cons entry rest ih =>
      refine (ih (nodup_insert h entry.1 entry.2)).trans ?_
      have hothers : (map.filter fun other => other.1 ≠ entry.1).filter
          (fun other => other.1 ∉ keys rest) =
            map.filter fun other => other.1 ∉ keys (entry :: rest) := by
        rw [List.filter_filter]
        refine List.filter_congr fun other _ => ?_
        simp [Bool.and_comm]
      have hinsert := (insert_perm h entry.1 entry.2).filter fun other => other.1 ∉ keys rest
      rw [List.filter_cons, hothers] at hinsert
      rw [settled]
      by_cases hmem : entry.1 ∈ keys rest
      · rw [if_neg (by simpa using hmem)] at hinsert
        rw [if_pos hmem]
        exact hinsert.append_right _
      · rw [if_pos (by simpa using hmem)] at hinsert
        rw [if_neg hmem]
        exact (hinsert.append_right _).trans List.perm_middle.symm

theorem collect_perm (entries : List (K × V)) : (collect entries).Perm (settled entries) := by
  have hempty : (keys ([] : List (K × V))).Nodup := List.nodup_nil
  simpa [collect] using insertAll_perm hempty entries

/-- Nothing is overridden exactly when no key occurs twice. -/
theorem length_settled_eq_iff {entries : List (K × V)} :
    (settled entries).length = entries.length ↔ (keys entries).Nodup := by
  induction entries with
  | nil => simp [settled]
  | cons entry rest ih =>
      have hle := (settled_sublist rest).length_le
      rw [settled, keys_cons, List.nodup_cons, ← ih]
      split
      · next h =>
        simp only [List.length_cons]; exact ⟨fun _ => by omega, fun ⟨hn, _⟩ => absurd h hn⟩
      · next h => simp [h]

/-! ## Values changed one by one -/

section Map

variable (f : V → W)

/-- Entries with their values changed. -/
def mapValues (entries : List (K × V)) : List (K × W) :=
  entries.map fun entry => (entry.1, f entry.2)

omit [DecidableEq K] in
@[simp] theorem keys_mapValues (entries : List (K × V)) :
    keys (mapValues f entries) = keys entries := by
  simp [keys, mapValues, Function.comp_def]

theorem last_mapValues (key : K) (entries : List (K × V)) :
    last key (mapValues f entries) = (last key entries).map f := by
  induction entries with
  | nil => rfl
  | cons entry rest ih =>
      rw [mapValues, List.map_cons, last, ← mapValues, ih, last]
      cases last key rest with
      | some value => rfl
      | none => by_cases h : entry.1 = key <;> simp [h]

theorem lookup_mapValues (key : K) (entries : List (K × V)) :
    (mapValues f entries).lookup key = (entries.lookup key).map f := by
  induction entries with
  | nil => rfl
  | cons entry rest ih =>
      rw [mapValues, List.map_cons, lookup_cons, lookup_cons, ← mapValues, ih]
      by_cases h : key = entry.1 <;> simp [h]

omit [DecidableEq K] in
theorem mapValues_mapValues {X : Type*} (g : W → X) (entries : List (K × V)) :
    mapValues g (mapValues f entries) = mapValues (g ∘ f) entries := by
  simp [mapValues, Function.comp_def]

omit [DecidableEq K] in
theorem mapValues_eq_self {g : V → V} {entries : List (K × V)}
    (h : ∀ entry ∈ entries, g entry.2 = entry.2) : mapValues g entries = entries := by
  have hid : ∀ entry ∈ entries, (entry.1, g entry.2) = id entry := fun entry hentry =>
    Prod.ext rfl (h entry hentry)
  exact (List.map_congr_left hid).trans (List.map_id entries)

theorem settled_mapValues (entries : List (K × V)) :
    settled (mapValues f entries) = mapValues f (settled entries) := by
  induction entries with
  | nil => rfl
  | cons entry rest ih =>
      have hcons : mapValues f (entry :: rest) = (entry.1, f entry.2) :: mapValues f rest := rfl
      rw [hcons, settled, settled, keys_mapValues, ih]
      split <;> rfl

theorem mapValues_insert (key : K) (value : V) (map : List (K × V)) :
    mapValues f (insert key value map) = insert key (f value) (mapValues f map) := by
  induction map with
  | nil => rfl
  | cons entry rest ih =>
      have hcons : mapValues f (entry :: rest) = (entry.1, f entry.2) :: mapValues f rest := rfl
      rw [hcons, insert, insert]
      split
      · rfl
      · rw [← ih]
        rfl

theorem mapValues_insertAll (map entries : List (K × V)) :
    mapValues f (insertAll map entries) = insertAll (mapValues f map) (mapValues f entries) := by
  induction entries generalizing map with
  | nil => rfl
  | cons entry rest ih =>
      rw [insertAll_cons, ih, mapValues_insert]
      rfl

theorem mapValues_collect (entries : List (K × V)) :
    mapValues f (collect entries) = collect (mapValues f entries) :=
  mapValues_insertAll f [] entries

end Map

end Limpid.Entries
