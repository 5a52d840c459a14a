import Mathlib.Data.List.Perm.Basic
import Limpid.Dsl.Negation

/-!
# The greatest and the least element

`max` and `min` share one loop (`functions/primitives/max.rs`), which compares every element as an
`f64`, integers too.  So they pick an element whose nearest `f64` is extremal (`max_min_extremal`):
the true extremum where the integers are numbers of the format, and otherwise one that only
elements with the same nearest `f64` can pass.
-/

namespace Limpid.Functions.Extremum

open Binary64 (scaled nearest unit)
open Dsl (F64 IsBinary64 Runtime Value)

/-! ## The loop -/

/-- The elements that are compared. -/
inductive Number where
  | int (n : Int64)
  | float (x : F64)
deriving DecidableEq

namespace Number

/-- The number of a value, if it is one. -/
def ofValue : Value → Option Number
  | .int n => some (.int n)
  | .float x => some (.float x)
  | _ => none

/-- The value of a number. -/
def toValue : Number → Value
  | int n => .int n
  | float x => .float x

/-- `as_f64`. -/
def asF64 (rt : Runtime) : Number → F64
  | int n => rt.ofInt n
  | float x => x

@[simp] theorem ofValue_toValue (x : Number) : ofValue x.toValue = some x := by
  cases x <;> rfl

end Number

section Pick

variable (rt : Runtime) (wantMax : Bool)

/-- `max` or `min`. -/
def functionName : String := if wantMax then "max" else "min"

/-- `cur_f > bf`, or `cur_f < bf`. -/
def beats (cur best : Number) : Bool :=
  rt.partialCmp (cur.asF64 rt) (best.asF64 rt) == some (if wantMax then .gt else .lt)

/-- The loop of `pick`; as the best is a number, `as_f64` of it cannot fail. -/
def pickFrom : Option Number → List Value → Except String (Option Number)
  | best, [] => .ok best
  | best, item :: items =>
    match Number.ofValue item with
    | none => .error (functionName wantMax ++ "() expects numeric elements, got " ++ item.typeName)
    | some cur =>
      let take := match best with
        | none => true
        | some best => beats rt wantMax cur best
      pickFrom (if take then some cur else best) items

/-- What both functions do. -/
def pick : Value → Except String Value
  | .array items =>
    (pickFrom rt wantMax none items).map fun best => (best.map Number.toValue).getD .null
  | .null => .ok .null
  | other => .error (functionName wantMax ++ "() expects an Array, got " ++ other.typeName)

end Pick

/-- `max`. -/
protected def max (rt : Runtime) (v : Value) : Except String Value := pick rt true v

/-- `min`. -/
protected def min (rt : Runtime) (v : Value) : Except String Value := pick rt false v

/-! ## What it is for -/

namespace Number

/-- The number itself, by the least positive `f64`. -/
def exact : Number → ℤ
  | int n => n.toInt * unit
  | float x => scaled x.bits

/-- The nearest `f64`. -/
def rounded : Number → ℤ
  | int n => nearest n.toInt * unit
  | float x => scaled x.bits

/-- Neither an infinity nor a NaN. -/
def IsFinite : Number → Prop
  | int _ => True
  | float x => Binary64.isFinite x.bits = true

/-- Integers that are a number of the format, and floats. -/
def IsExact : Number → Prop
  | int n => Binary64.IsExact n.toInt
  | float _ => True

end Number

/-- An array of numbers. -/
def arrayOf (items : List Number) : Value := .array (items.map Number.toValue)

/-- The function returns an element that no other passes in the order, and one as good for the
elements in every other order. -/
def Extremal (measure : Number → ℤ) (order : ℤ → ℤ → Prop) (f : Value → Except String Value)
    (items : List Number) : Prop :=
  ∃ best ∈ items, f (arrayOf items) = .ok best.toValue ∧
    (∀ x ∈ items, order (measure x) (measure best)) ∧
    ∀ items' : List Number, items'.Perm items →
      ∃ best' ∈ items, f (arrayOf items') = .ok best'.toValue ∧ measure best' = measure best

/-- Only an element with the same nearest `f64` passes the one that is returned. -/
def PassedByRounding (order : ℤ → ℤ → Prop) (f : Value → Except String Value)
    (items : List Number) : Prop :=
  ∀ best : Number, f (arrayOf items) = .ok best.toValue →
    ∀ x ∈ items, order x.exact best.exact ∨ x.rounded = best.rounded

/-! ## Rounded numbers -/

section Rounded

variable {rt : Runtime} {x y cur best : Number} {wantMax : Bool}

theorem Number.scaled_asF64 (hrt : IsBinary64 rt) (hx : x.IsFinite) :
    rt.isFinite (x.asF64 rt) = true ∧ scaled (x.asF64 rt).bits = x.rounded := by
  cases x with
  | int n => exact hrt.ofInt n
  | float x => exact ⟨(hrt.isFinite x).trans hx, rfl⟩

theorem Number.rounded_of_isExact (hx : x.IsExact) : x.rounded = x.exact := by
  cases x with
  | int n => rw [rounded, exact, Binary64.nearest_eq_iff.mpr hx]
  | float x => rfl

/-- **The nearest numbers are in the order of the numbers.** -/
theorem Number.rounded_mono (h : x.exact ≤ y.exact) : x.rounded ≤ y.rounded := by
  have hunit : (0 : ℤ) < unit := Int.natCast_pos.mpr Binary64.unit_pos
  cases x with
  | int n =>
    cases y with
    | int k =>
        have hle : n.toInt ≤ k.toInt := (mul_le_mul_iff_left₀ hunit).mp h
        exact (mul_le_mul_iff_left₀ hunit).mpr (Binary64.nearest_mono hle)
    | float y => exact Binary64.nearest_le_scaled h
  | float x =>
    cases y with
    | int k => exact Binary64.scaled_le_nearest h
    | float y => exact h

/-- The order in which the best is the last. -/
def ahead (wantMax : Bool) (a b : ℤ) : Prop := if wantMax then a ≤ b else b ≤ a

theorem beats_iff (hrt : IsBinary64 rt) (hcur : cur.IsFinite) (hbest : best.IsFinite) :
    beats rt wantMax cur best = true ↔ ¬ahead wantMax cur.rounded best.rounded := by
  obtain ⟨hfinite, hscaled⟩ := Number.scaled_asF64 hrt hcur
  obtain ⟨hfinite', hscaled'⟩ := Number.scaled_asF64 hrt hbest
  rw [beats, hrt.partialCmp _ _ hfinite hfinite', hscaled, hscaled', beq_iff_eq, Option.some_inj]
  cases wantMax with
  | true => exact (compare_gt_iff_gt).trans not_le.symm
  | false => exact (compare_lt_iff_lt).trans not_le.symm

end Rounded

/-! ## Runs of the loop -/

section Runs

variable {rt : Runtime} {wantMax : Bool} {items : List Number} {best : Number}

/-- The loop ends well exactly on numbers. -/
theorem exists_pickFrom_iff {values : List Value} {start : Option Number} :
    (∃ last, pickFrom rt wantMax start values = .ok last) ↔
      ∀ value ∈ values, (Number.ofValue value).isSome := by
  induction values generalizing start with
  | nil => exact iff_of_true ⟨start, rfl⟩ fun _ hvalue => absurd hvalue List.not_mem_nil
  | cons value values ih =>
      rw [List.forall_mem_cons, pickFrom]
      cases hvalue : Number.ofValue value with
      | none => exact iff_of_false (fun ⟨_, hrun⟩ => nomatch hrun) fun h => nomatch h.1
      | some cur => exact ih.trans (and_iff_right rfl).symm

theorem ahead_trans {a b c : ℤ} (hab : ahead wantMax a b) (hbc : ahead wantMax b c) :
    ahead wantMax a c := by
  cases wantMax with
  | true => exact le_trans hab hbc
  | false => exact le_trans hbc hab

theorem ahead_total (a b : ℤ) : ahead wantMax a b ∨ ahead wantMax b a := by
  cases wantMax with
  | true => exact le_total a b
  | false => exact le_total b a

theorem ahead_refl (a : ℤ) : ahead wantMax a a := (ahead_total a a).elim id id

theorem ahead_antisymm {a b : ℤ} (hab : ahead wantMax a b) (hba : ahead wantMax b a) : a = b := by
  cases wantMax with
  | true => exact le_antisymm hab hba
  | false => exact le_antisymm hba hab

/-- No element passes the best at the end, nor did the best before. -/
theorem pickFrom_some (hrt : IsBinary64 rt) (hbest : best.IsFinite)
    (hitems : ∀ x ∈ items, x.IsFinite) :
    ∃ last, (last = best ∨ last ∈ items) ∧
      pickFrom rt wantMax (some best) (items.map Number.toValue) = .ok (some last) ∧
      ahead wantMax best.rounded last.rounded ∧
      ∀ x ∈ items, ahead wantMax x.rounded last.rounded := by
  induction items generalizing best with
  | nil => exact ⟨best, .inl rfl, rfl, ahead_refl _, fun _ hx => absurd hx List.not_mem_nil⟩
  | cons cur items ih =>
      obtain ⟨hcur, hitems⟩ := List.forall_mem_cons.mp hitems
      rw [List.map_cons, pickFrom, Number.ofValue_toValue]
      dsimp only
      by_cases htake : beats rt wantMax cur best = true
      · obtain ⟨last, hmem, hrun, hlast, hall⟩ := ih hcur hitems
        have hpassed := (beats_iff hrt hcur hbest).mp htake
        have hbelow := (ahead_total _ _).resolve_left hpassed
        rw [if_pos htake]
        exact ⟨last, .inr (List.mem_cons.mpr hmem), hrun, ahead_trans hbelow hlast,
          List.forall_mem_cons.mpr ⟨hlast, hall⟩⟩
      · obtain ⟨last, hmem, hrun, hlast, hall⟩ := ih hbest hitems
        have hbelow := not_not.mp (mt (beats_iff hrt hcur hbest).mpr htake)
        rw [if_neg htake]
        exact ⟨last, hmem.imp_right (List.mem_cons_of_mem cur), hrun, hlast,
          List.forall_mem_cons.mpr ⟨ahead_trans hbelow hlast, hall⟩⟩

theorem pick_arrayOf (hrt : IsBinary64 rt) (hne : items ≠ []) (hitems : ∀ x ∈ items, x.IsFinite) :
    ∃ best ∈ items, pick rt wantMax (arrayOf items) = .ok best.toValue ∧
      ∀ x ∈ items, ahead wantMax x.rounded best.rounded := by
  obtain ⟨first, rest, rfl⟩ := List.exists_cons_of_ne_nil hne
  obtain ⟨hfirst, hrest⟩ := List.forall_mem_cons.mp hitems
  obtain ⟨last, hmem, hrun, hlast, hall⟩ := @pickFrom_some rt wantMax rest first hrt hfirst hrest
  refine ⟨last, List.mem_cons.mpr hmem, ?_, List.forall_mem_cons.mpr ⟨hlast, hall⟩⟩
  rw [arrayOf, pick, List.map_cons, pickFrom, Number.ofValue_toValue]
  dsimp only
  rw [if_pos rfl, hrun]
  rfl

theorem toValue_injective {x y : Number} (h : x.toValue = y.toValue) : x = y := by
  rw [← Option.some_inj, ← Number.ofValue_toValue x, h, Number.ofValue_toValue]

theorem extremal_rounded (hrt : IsBinary64 rt) (hne : items ≠ [])
    (hitems : ∀ x ∈ items, x.IsFinite) :
    Extremal Number.rounded (ahead wantMax) (pick rt wantMax) items := by
  obtain ⟨best, hmem, hrun, hall⟩ := @pick_arrayOf rt wantMax items hrt hne hitems
  refine ⟨best, hmem, hrun, hall, fun items' hperm => ?_⟩
  have hne' : items' ≠ [] := fun hnil => hne (List.nil_perm.mp (hnil ▸ hperm))
  obtain ⟨best', hmem', hrun', hall'⟩ := @pick_arrayOf rt wantMax items' hrt hne'
    fun x hx => hitems x (hperm.mem_iff.mp hx)
  exact ⟨best', hperm.mem_iff.mp hmem', hrun', ahead_antisymm (hall best' (hperm.mem_iff.mp hmem'))
    (hall' best (hperm.mem_iff.mpr hmem))⟩

theorem passedByRounding (hrt : IsBinary64 rt) (hne : items ≠ [])
    (hitems : ∀ x ∈ items, x.IsFinite) :
    PassedByRounding (ahead wantMax) (pick rt wantMax) items := by
  intro best hrun x hx
  obtain ⟨best', hmem, hrun', hall⟩ := @pick_arrayOf rt wantMax items hrt hne hitems
  rw [hrun'] at hrun
  obtain rfl := toValue_injective (Except.ok.inj hrun)
  refine or_iff_not_imp_left.mpr fun hpassed => ahead_antisymm (hall x hx) ?_
  have hbelow := (ahead_total _ _).resolve_left hpassed
  cases wantMax with
  | true => exact Number.rounded_mono hbelow
  | false => exact Number.rounded_mono hbelow

theorem Extremal.exact_of_rounded {order : ℤ → ℤ → Prop} {f : Value → Except String Value}
    (h : Extremal Number.rounded order f items) (hexact : ∀ x ∈ items, x.IsExact) :
    Extremal Number.exact order f items := by
  have heq : ∀ x ∈ items, x.rounded = x.exact := fun x hx =>
    Number.rounded_of_isExact (hexact x hx)
  obtain ⟨best, hmem, hrun, hall, hperm⟩ := h
  refine ⟨best, hmem, hrun, fun x hx => ?_, fun items' hitems' => ?_⟩
  · rw [← heq x hx, ← heq best hmem]
    exact hall x hx
  · obtain ⟨best', hmem', hrun', hsame⟩ := hperm items' hitems'
    rw [heq best' hmem', heq best hmem] at hsame
    exact ⟨best', hmem', hrun', hsame⟩

end Runs

/-- **`max` and `min` are extremal among the nearest numbers**, and among the numbers themselves
up to rounding, which is nothing where every integer is a number of the format. -/
theorem max_min_extremal {rt : Runtime} {items : List Number} (hrt : IsBinary64 rt)
    (hne : items ≠ []) (hitems : ∀ x ∈ items, x.IsFinite) :
    (Extremal Number.rounded (· ≤ ·) (Extremum.max rt) items ∧
      PassedByRounding (· ≤ ·) (Extremum.max rt) items) ∧
    (Extremal Number.rounded (· ≥ ·) (Extremum.min rt) items ∧
      PassedByRounding (· ≥ ·) (Extremum.min rt) items) ∧
    ((∀ x ∈ items, x.IsExact) →
      Extremal Number.exact (· ≤ ·) (Extremum.max rt) items ∧
        Extremal Number.exact (· ≥ ·) (Extremum.min rt) items) := by
  have hmax : Extremal Number.rounded (· ≤ ·) (Extremum.max rt) items :=
    @extremal_rounded rt true items hrt hne hitems
  have hmin : Extremal Number.rounded (· ≥ ·) (Extremum.min rt) items :=
    @extremal_rounded rt false items hrt hne hitems
  exact ⟨⟨hmax, @passedByRounding rt true items hrt hne hitems⟩,
    ⟨hmin, @passedByRounding rt false items hrt hne hitems⟩,
    fun hexact => ⟨hmax.exact_of_rounded hexact, hmin.exact_of_rounded hexact⟩⟩

/-- `2 ^ 53` and the integer after it. -/
def neighbours : List Number := [.int 9007199254740992, .int 9007199254740993]

theorem max_min_extremal_neighbours :
    Extremal Number.rounded (· ≤ ·) (Extremum.max Dsl.binary64) neighbours ∧
      Extremal Number.exact (· ≥ ·) (Extremum.min Dsl.binary64) [.int 3, .float .one] := by
  have hsmall : ∀ x ∈ [Number.int 3, .float .one], x.IsExact := by
    simp only [List.forall_mem_cons]
    exact ⟨⟨3, 0, by decide, by decide⟩, trivial, List.forall_mem_nil _⟩
  have hfinite : ∀ x ∈ [Number.int 3, .float .one], x.IsFinite := by
    simp only [List.forall_mem_cons]
    exact ⟨trivial, (by decide : Binary64.isFinite F64.one.bits = true), List.forall_mem_nil _⟩
  have hints : ∀ x ∈ neighbours, x.IsFinite := by
    simp only [neighbours, List.forall_mem_cons]
    exact ⟨trivial, trivial, List.forall_mem_nil _⟩
  exact ⟨(max_min_extremal Dsl.binary64_isBinary64 (List.cons_ne_nil _ _) hints).1.1,
    ((max_min_extremal Dsl.binary64_isBinary64 (List.cons_ne_nil _ _) hfinite).2.2 hsmall).2⟩

/-- The greater of the two is not the one that is returned. -/
theorem max_neighbours : ¬Extremal Number.exact (· ≤ ·) (Extremum.max Dsl.binary64) neighbours := by
  rintro ⟨best, -, hrun, hall, -⟩
  have hnearest : nearest (9007199254740993 : Int64).toInt =
      nearest (9007199254740992 : Int64).toInt := by decide
  have hint : ∀ n, (Number.int n).IsFinite := fun _ => trivial
  have htake : ¬beats Dsl.binary64 true (.int 9007199254740993) (.int 9007199254740992) = true := by
    rw [beats_iff Dsl.binary64_isBinary64 (hint _) (hint _), not_not]
    exact (congrArg (· * (unit : ℤ)) hnearest).le
  have hfirst : Extremum.max Dsl.binary64 (arrayOf neighbours) =
      .ok (Number.int 9007199254740992).toValue := by
    rw [Extremum.max, arrayOf, neighbours, pick, List.map_cons, pickFrom, Number.ofValue_toValue]
    dsimp only
    rw [if_pos rfl, List.map_cons, pickFrom, Number.ofValue_toValue]
    dsimp only
    rw [if_neg htake]
    rfl
  rw [hfirst] at hrun
  obtain rfl := toValue_injective (Except.ok.inj hrun)
  have hunit : (0 : ℤ) < unit := Int.natCast_pos.mpr Binary64.unit_pos
  have hle := hall (.int 9007199254740993) (by simp [neighbours])
  exact absurd ((mul_le_mul_iff_left₀ hunit).mp hle) (by decide)

end Limpid.Functions.Extremum
