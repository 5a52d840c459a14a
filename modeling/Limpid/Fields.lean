import Mathlib.Data.List.Basic

/-!
# Records as lists of fields

A record is written field by field, each under its key and some only when they are set, and read
back by looking keys up.  What is found under a key is said by the last field written under it, if
no other field has the key (`lookup_push`, `lookup_pushIf`, `lookup_pushSome`); with the keys given
as literals `simp` finds the field of a key in a record of any length.
-/

namespace Limpid.Fields

variable {K V A : Type} [BEq K]

/-- A field comes last. -/
def push (fields : List (K × V)) (key : K) (value : V) : List (K × V) := fields ++ [(key, value)]

/-- A field that is written on a condition. -/
def pushIf (condition : Bool) (fields : List (K × V)) (key : K) (value : V) : List (K × V) :=
  if condition then push fields key value else fields

/-- A field that is written if there is a value for it. -/
def pushSome (fields : List (K × V)) (key : K) : Option V → List (K × V)
  | some value => push fields key value
  | none => fields

theorem lookup_push (fields : List (K × V)) (key k : K) (value : V) :
    (push fields key value).lookup k =
      (fields.lookup k).or (if k == key then some value else none) := by
  rw [push, List.lookup_append]
  congr 1
  rw [List.lookup_cons]
  cases k == key <;> rfl

theorem lookup_pushIf (condition : Bool) (fields : List (K × V)) (key k : K) (value : V) :
    (pushIf condition fields key value).lookup k =
      (fields.lookup k).or
        (if k == key then (if condition then some value else none) else none) := by
  cases condition with
  | true => exact lookup_push fields key k value
  | false => simp [pushIf]

theorem lookup_pushSome (fields : List (K × V)) (key k : K) (value : Option V) :
    (pushSome fields key value).lookup k =
      (fields.lookup k).or (if k == key then value else none) := by
  cases value with
  | some value => exact lookup_push fields key k value
  | none => simp [pushSome]

/-- Reading a list of written items. -/
theorem mapM_map {E B : Type} {read : V → Except E B} {write : A → V} {kept : A → B}
    {items : List A} (h : ∀ a ∈ items, read (write a) = .ok (kept a)) :
    (items.map write).mapM read = .ok (items.map kept) := by
  induction items with
  | nil => rfl
  | cons a rest ih =>
      obtain ⟨ha, hrest⟩ := List.forall_mem_cons.mp h
      rw [List.map_cons, List.mapM_cons, ha, ih hrest]
      rfl

theorem map_eq_self_iff {items : List A} {f : A → A} :
    items.map f = items ↔ ∀ a ∈ items, f a = a := by
  have h := List.map_inj_left (l := items) (f := f) (g := id)
  rwa [List.map_id] at h

end Limpid.Fields
