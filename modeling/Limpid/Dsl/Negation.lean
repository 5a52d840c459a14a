import Limpid.Binary64
import Limpid.Dsl.Eval
import Limpid.Dsl.Numeral

/-!
# Negative integers

`eval_unary_op` negates through `f64`, also an integer, where `numeric_op` stays on checked `i64`
arithmetic.  So `-x` is `0 - x` exactly when the integer is a number of the format and is not the
least one (`evalUnaryOp_neg_eq_iff`).  As the text of a negative number is a negation, it is read
back under the same condition (`reads_iff`), and the least integer is not even parsed.
-/

namespace Limpid.Dsl

open Binary64 (scaled nearest unit IsExact)

/-! ## Integers among the floats -/

/-- The standard library does on `f64` what the format says. -/
structure IsBinary64 (rt : Runtime) : Prop where
  isFinite : ∀ x, rt.isFinite x = Binary64.isFinite x.bits
  ofInt : ∀ n, rt.isFinite (rt.ofInt n) = true ∧
    scaled (rt.ofInt n).bits = nearest n.toInt * unit
  neg : ∀ x, rt.isFinite x = true →
    rt.isFinite (rt.neg x) = true ∧ scaled (rt.neg x).bits = -scaled x.bits
  fract : ∀ x, rt.isFinite x = true →
    (rt.eq (rt.fract x) .zero = true ↔ (unit : ℤ) ∣ scaled x.bits)
  partialCmp : ∀ x y, rt.isFinite x = true → rt.isFinite y = true →
    rt.partialCmp x y = some (compare (scaled x.bits) (scaled y.bits))
  toInt : ∀ x (n : Int64), rt.isFinite x = true → scaled x.bits = n.toInt * unit → rt.toInt x = n

section Floats

variable {rt : Runtime}

theorem natAbs_toInt_le (n : Int64) : n.toInt.natAbs ≤ 2 ^ 63 := by
  have hle := n.le_toInt
  have hlt := n.toInt_lt
  omega

theorem nearest_minValue : nearest Int64.minValue.toInt = -2 ^ 63 := by
  have hexact : IsExact Int64.minValue.toInt := ⟨1, 63, by decide, by decide⟩
  rw [Binary64.nearest_eq_iff.mpr hexact]
  rfl

/-- A finite float that is an integer in range is that integer. -/
theorem numericValueFromF64_int (h : IsBinary64 rt) {x : F64} (hx : rt.isFinite x = true)
    {n : Int64} (hn : scaled x.bits = n.toInt * unit) : numericValueFromF64 rt x = .int n := by
  have hmin := h.ofInt Int64.minValue
  have hmax := h.neg _ hmin.1
  rw [nearest_minValue] at hmin
  rw [hmin.2] at hmax
  have hle := n.le_toInt
  have hlt := n.toInt_lt
  have hunit : (0 : ℤ) < unit := Int.natCast_pos.mpr Binary64.unit_pos
  have hfract : rt.eq (rt.fract x) .zero = true :=
    (h.fract x hx).mpr ⟨n.toInt, by rw [hn, mul_comm]⟩
  have hlow : rt.partialCmp x (rt.ofInt Int64.minValue) = some .gt ∨
      rt.partialCmp x (rt.ofInt Int64.minValue) = some .eq := by
    rw [h.partialCmp _ _ hx hmin.1, hn, hmin.2, Option.some_inj, Option.some_inj, compare_gt_iff_gt,
      compare_eq_iff_eq, mul_left_inj' hunit.ne', mul_lt_mul_iff_left₀ hunit]
    omega
  have hhigh : rt.partialCmp x (rt.neg (rt.ofInt Int64.minValue)) = some .lt := by
    rw [h.partialCmp _ _ hx hmax.1, hn, hmax.2, Option.some_inj, compare_lt_iff_lt, ← neg_mul,
      mul_lt_mul_iff_left₀ hunit]
    omega
  unfold numericValueFromF64
  rw [if_pos ⟨hx, hfract, hlow, hhigh⟩, h.toInt x n hx hn]

/-- `2 ^ 63` is out of range. -/
theorem numericValueFromF64_float (h : IsBinary64 rt) {x : F64} (hx : rt.isFinite x = true)
    (hn : scaled x.bits = 2 ^ 63 * unit) : numericValueFromF64 rt x = .float x := by
  have hmin := h.ofInt Int64.minValue
  have hmax := h.neg _ hmin.1
  rw [nearest_minValue] at hmin
  rw [hmin.2] at hmax
  have hhigh : ¬ rt.partialCmp x (rt.neg (rt.ofInt Int64.minValue)) = some .lt := by
    rw [h.partialCmp _ _ hx hmax.1, hn, hmax.2, Option.some_inj, compare_lt_iff_lt]
    omega
  unfold numericValueFromF64
  rw [if_neg fun hin => hhigh hin.2.2.2, if_pos hx]

/-- The negation of an integer: the nearest number with the other sign, if it is in range. -/
theorem evalUnaryOp_neg_int (h : IsBinary64 rt) (a : Int64) :
    evalUnaryOp rt .neg (.int a) =
      .ok (if nearest a.toInt = -2 ^ 63 then .float (rt.neg (rt.ofInt a))
        else .int (Int64.ofInt (-nearest a.toInt))) := by
  obtain ⟨hfinite, hscaled⟩ := h.ofInt a
  obtain ⟨hfinite', hneg⟩ := h.neg _ hfinite
  rw [hscaled] at hneg
  show Except.ok (numericValueFromF64 rt (rt.neg (rt.ofInt a))) = _
  congr 1
  split
  · next hnearest =>
    refine numericValueFromF64_float h hfinite' ?_
    rw [hneg, hnearest, neg_mul, neg_neg]
  · next hnearest =>
    have habs := Binary64.abs_nearest_le (natAbs_toInt_le a)
    have hint : (Int64.ofInt (-nearest a.toInt)).toInt = -nearest a.toInt :=
      Int64.toInt_ofInt_of_le (by omega) (by omega)
    refine numericValueFromF64_int h hfinite' ?_
    rw [hneg, hint, neg_mul]

theorem numericOp_zero_sub {a : Int64} (ha : a ≠ Int64.minValue) :
    numericOp rt .sub (.int 0) (.int a) = .ok (.int (Int64.ofInt (-a.toInt))) := by
  have hne : a.toInt ≠ -2 ^ 63 := fun h => ha (Int64.toInt_inj.mp h)
  have hle := a.le_toInt
  have hlt := a.toInt_lt
  have hmin : Int64.minValue.toInt = -2 ^ 63 := rfl
  have hmax : Int64.maxValue.toInt = 2 ^ 63 - 1 := rfl
  have hzero : (0 : Int64).toInt - a.toInt = -a.toInt := Int.zero_sub _
  have hchecked : checkedInt ((0 : Int64).toInt - a.toInt) = some (Int64.ofInt (-a.toInt)) := by
    rw [hzero, checkedInt, if_pos (by omega)]
  show Except.map Value.int (exactIntOp .sub 0 a) = _
  rw [exactIntOp, hchecked]
  rfl

theorem numericOp_zero_sub_minValue :
    ∃ message, numericOp rt .sub (.int 0) (.int Int64.minValue) = .error message := by
  have hchecked : checkedInt ((0 : Int64).toInt - Int64.minValue.toInt) = none :=
    if_neg (by decide)
  have hop : ∃ message, exactIntOp .sub 0 Int64.minValue = .error message := by
    rw [exactIntOp, hchecked]
    exact ⟨_, rfl⟩
  obtain ⟨message, hmessage⟩ := hop
  exact ⟨message, congrArg (Except.map Value.int) hmessage⟩

/-- **Negation is `0 - x` exactly on the integers that are numbers of the format, but for the
least.** -/
theorem evalUnaryOp_neg_eq_iff (h : IsBinary64 rt) {a : Int64} :
    evalUnaryOp rt .neg (.int a) = numericOp rt .sub (.int 0) (.int a) ↔
      IsExact a.toInt ∧ a ≠ Int64.minValue := by
  rw [evalUnaryOp_neg_int h, ← Binary64.nearest_eq_iff]
  by_cases ha : a = Int64.minValue
  · subst ha
    obtain ⟨message, hmessage⟩ := @numericOp_zero_sub_minValue rt
    rw [hmessage]
    exact iff_of_false (fun heq => nomatch heq) (fun hand => hand.2 rfl)
  · have hne : a.toInt ≠ -2 ^ 63 := fun h => ha (Int64.toInt_inj.mp h)
    have habs := Binary64.abs_nearest_le (natAbs_toInt_le a)
    have hle := a.le_toInt
    have hlt := a.toInt_lt
    rw [numericOp_zero_sub ha, and_iff_left ha, Except.ok.injEq]
    split
    · next hnearest =>
      exact iff_of_false (fun heq => nomatch heq) (by omega)
    · next hnearest =>
      rw [Value.int.injEq, ← Int64.toInt_inj, Int64.toInt_ofInt_of_le (by omega) (by omega),
        Int64.toInt_ofInt_of_le (by omega) (by omega), neg_inj]

end Floats

/-! ## Evaluation -/

section Evaluation

open Numeral (ParsesTo formatInt)

variable {World : Type} (rt : Runtime) (event : BorrowedEvent)
  (call : Option String → String → List Value → Eval World Value) (scope : LocalScope)
  (world : World)

/-- The text of an integer is an expression whose value is the integer. -/
def Reads (n : Int64) : Prop :=
  ∃ e, ParsesTo rt (formatInt n.toInt) (.ok e) ∧
    evalExpr rt event call scope e world = some (.ok (.int n), world)

/-- `-x` ends as `0 - x` does. -/
def NegatesAsDifference (x : Expr) : Prop :=
  evalExpr rt event call scope (.unaryOp .neg x) world =
    evalExpr rt event call scope (.binOp (.intLit 0) .sub x) world

variable {rt event call scope world}

theorem ofExcept_apply {α : Type} (result : Except String α) :
    Eval.ofExcept result world = some (result, world) := by
  cases result <;> rfl

theorem evalExpr_unaryOp {op : UnaryOp} {x : Expr} {value : Value} {world' : World}
    (h : evalExpr rt event call scope x world = some (.ok value, world')) :
    evalExpr rt event call scope (.unaryOp op x) world =
      some (evalUnaryOp rt op value, world') := by
  rw [evalExpr]
  show Eval.bind _ _ world = _
  rw [Eval.bind, h]
  exact ofExcept_apply _

theorem evalExpr_intLit_binOp {n : Int64} {op : BinOp} {x : Expr} {value : Value} {world' : World}
    (h : evalExpr rt event call scope x world = some (.ok value, world')) :
    evalExpr rt event call scope (.binOp (.intLit n) op x) world =
      some (evalBinOp rt (.int n) op value, world') := by
  rw [evalExpr]
  show Eval.bind (evalExpr rt event call scope x) _ world = _
  rw [Eval.bind, h]
  exact ofExcept_apply _

theorem negatesAsDifference_iff (hrt : IsBinary64 rt) {x : Expr} {a : Int64} {world' : World}
    (h : evalExpr rt event call scope x world = some (.ok (.int a), world')) :
    NegatesAsDifference rt event call scope world x ↔
      IsExact a.toInt ∧ a ≠ Int64.minValue := by
  rw [NegatesAsDifference, evalExpr_unaryOp h, evalExpr_intLit_binOp h, Option.some_inj,
    Prod.mk.injEq, and_iff_left rfl]
  exact evalUnaryOp_neg_eq_iff hrt

theorem reads_iff_of_nonneg {n : Int64} (hn : 0 ≤ n.toInt) : Reads rt event call scope world n := by
  have hlt := n.toInt_lt
  have htext : formatInt n.toInt = Decimal.formatNat n.toInt.natAbs := if_neg hn.not_gt
  have hmax : ¬ Int64.maxValue.toInt < (n.toInt.natAbs : ℤ) := by
    have hvalue : Int64.maxValue.toInt = 2 ^ 63 - 1 := rfl
    omega
  have hcast : (n.toInt.natAbs : ℤ) = n.toInt := Int.natAbs_of_nonneg hn
  refine ⟨.intLit n, ?_, rfl⟩
  have hparse := @Numeral.parsesTo_formatNat rt n.toInt.natAbs
  rwa [Numeral.parseInt64_formatNat, if_neg hmax, hcast, Int64.ofInt_toInt, ← htext] at hparse

theorem reads_iff_of_neg (hrt : IsBinary64 rt) {n : Int64} (hn : n.toInt < 0) :
    Reads rt event call scope world n ↔ IsExact n.toInt ∧ n ≠ Int64.minValue := by
  have hle := n.le_toInt
  have htext : formatInt n.toInt = '-' :: Decimal.formatNat n.toInt.natAbs := if_pos hn
  have hparse := @Numeral.parsesTo_negative rt n.toInt.natAbs
  rw [← htext, Numeral.parseInt64_formatNat] at hparse
  have hmaxValue : Int64.maxValue.toInt = 2 ^ 63 - 1 := rfl
  have hminValue : Int64.minValue.toInt = -2 ^ 63 := rfl
  by_cases hmin : n = Int64.minValue
  · -- the literal behind the sign is out of range
    have htoInt : n.toInt = -2 ^ 63 := by rw [hmin]; rfl
    have hmax : Int64.maxValue.toInt < (n.toInt.natAbs : ℤ) := by omega
    rw [if_pos hmax] at hparse
    refine iff_of_false ?_ (fun h => h.2 hmin)
    rintro ⟨e, he, -⟩
    exact nomatch he.det hparse
  · have hne : n.toInt ≠ -2 ^ 63 := fun h => hmin (Int64.toInt_inj.mp h)
    have hmax : ¬ Int64.maxValue.toInt < (n.toInt.natAbs : ℤ) := by omega
    have hmagnitude : (Int64.ofInt n.toInt.natAbs).toInt = n.toInt.natAbs :=
      Int64.toInt_ofInt_of_le (by omega) (by omega)
    rw [if_neg hmax] at hparse
    have heval := @evalExpr_unaryOp World rt event call scope world .neg
      (.intLit (Int64.ofInt n.toInt.natAbs)) _ world rfl
    have hexact : IsExact (n.toInt.natAbs : ℤ) ↔ IsExact n.toInt := by
      rw [IsExact, IsExact, Int.natAbs_natCast]
    have hnonneg := Binary64.nearest_nonneg (Int.natCast_nonneg n.toInt.natAbs)
    rw [evalUnaryOp_neg_int hrt, hmagnitude, if_neg (by omega)] at heval
    rw [and_iff_left hmin, ← hexact, ← Binary64.nearest_eq_iff]
    have habs := @Binary64.abs_nearest_le n.toInt.natAbs (by omega)
    constructor
    · rintro ⟨e, he, hvalue⟩
      obtain rfl := Except.ok.inj (he.det hparse)
      rw [heval, Option.some_inj, Prod.mk.injEq, Except.ok.injEq, Value.int.injEq,
        ← Int64.toInt_inj, Int64.toInt_ofInt_of_le (by omega) (by omega)] at hvalue
      omega
    · intro hnearest
      refine ⟨_, hparse, ?_⟩
      rw [heval, hnearest]
      have hback : -(n.toInt.natAbs : ℤ) = n.toInt := by omega
      rw [hback, Int64.ofInt_toInt]

/-- **Which integers are read back, and which are negated as a difference.** -/
theorem integers_exact_iff (hrt : IsBinary64 rt) :
    (∀ n : Int64, Reads rt event call scope world n ↔
      0 ≤ n.toInt ∨ IsExact n.toInt ∧ n ≠ Int64.minValue) ∧
    ∀ (x : Expr) (a : Int64) (world' : World),
      evalExpr rt event call scope x world = some (.ok (.int a), world') →
        (NegatesAsDifference rt event call scope world x ↔
          IsExact a.toInt ∧ a ≠ Int64.minValue) := by
  refine ⟨fun n => ?_, fun x a world' h => negatesAsDifference_iff hrt h⟩
  rcases lt_or_ge n.toInt 0 with hn | hn
  · rw [reads_iff_of_neg hrt hn, or_iff_right hn.not_ge]
  · exact iff_of_true (reads_iff_of_nonneg hn) (.inl hn)

/-- Floats as the format has them, as far as integers are negated and compared. -/
def binary64 : Runtime where
  ofInt n := ⟨Binary64.ofInt n.toInt⟩
  ofUInt n := ⟨Binary64.ofInt n.toNat⟩
  toInt x := Int64.ofInt (max (-2 ^ 63) (min (2 ^ 63 - 1) ((scaled x.bits).tdiv unit)))
  add _ _ := .zero
  sub _ _ := .zero
  mul _ _ := .zero
  div _ _ := .zero
  rem _ _ := .zero
  neg x := ⟨Binary64.neg x.bits⟩
  eq x y := scaled x.bits = scaled y.bits
  partialCmp x y := some (compare (scaled x.bits) (scaled y.bits))
  isNan x := !Binary64.isFinite x.bits && Binary64.fraction x.bits ≠ 0
  isFinite x := Binary64.isFinite x.bits
  fract x := if (unit : ℤ) ∣ scaled x.bits then .zero else x
  parse _ := none
  display _ := ""
  toRfc3339 _ := ""
  debug text := text

theorem binary64_isBinary64 : IsBinary64 binary64 where
  isFinite _ := rfl
  ofInt n := ⟨(Binary64.magnitude_ofInt (natAbs_toInt_le n)).2,
    Binary64.scaled_ofInt (natAbs_toInt_le n)⟩
  neg x hx := ⟨(Binary64.isFinite_neg x.bits).trans hx, Binary64.scaled_neg x.bits⟩
  fract x _ := by
    show decide (scaled (if (unit : ℤ) ∣ scaled x.bits then F64.zero else x).bits =
      scaled F64.zero.bits) = true ↔ _
    have hzero : scaled F64.zero.bits = 0 := by decide
    rw [decide_eq_true_iff, hzero]
    split
    · next h => exact iff_of_true hzero h
    · next h => exact iff_of_false (fun heq => h (heq ▸ dvd_zero _)) h
  partialCmp _ _ _ _ := rfl
  toInt x n _ hn := by
    have hle := n.le_toInt
    have hlt := n.toInt_lt
    have hunit : (unit : ℤ) ≠ 0 := (Int.natCast_pos.mpr Binary64.unit_pos).ne'
    have hquot : (scaled x.bits).tdiv unit = n.toInt := by
      rw [hn, Int.mul_tdiv_cancel _ hunit]
    show Int64.ofInt (max (-2 ^ 63) (min (2 ^ 63 - 1) ((scaled x.bits).tdiv unit))) = n
    rw [hquot, min_eq_right (by omega), max_eq_right hle, Int64.ofInt_toInt]

/-- An event, and no built-in function. -/
def anyEvent : BorrowedEvent := ⟨1, 0, .v4 .localhost 514, [], [], [], none⟩

/-- No function is known. -/
def noCall : Option String → String → List Value → Eval Unit Value :=
  fun _ _ _ => .bail "unknown function"

theorem integers_exact_iff_small : Reads binary64 anyEvent noCall [] () (-5) ∧
    NegatesAsDifference binary64 anyEvent noCall [] () (.intLit 7) := by
  obtain ⟨hreads, hneg⟩ :=
    @integers_exact_iff Unit binary64 anyEvent noCall [] () binary64_isBinary64
  refine ⟨(hreads (-5)).mpr (.inr ⟨⟨5, 0, by decide, by decide⟩, by decide⟩), ?_⟩
  exact (hneg (.intLit 7) 7 () rfl).mpr ⟨⟨7, 0, by decide, by decide⟩, by decide⟩

/-- `2 ^ 53 + 1` loses its last bit when it is negated, and the least integer is not read. -/
theorem negation_rounds :
    evalUnaryOp binary64 .neg (.int 9007199254740993) = .ok (.int (-9007199254740992)) ∧
    evalBinOp binary64 (.int 0) .sub (.int 9007199254740993) = .ok (.int (-9007199254740993)) ∧
      ¬ Reads binary64 anyEvent noCall [] () Int64.minValue := by
  refine ⟨?_, rfl, fun h => ?_⟩
  · have hnearest : nearest (9007199254740993 : Int64).toInt = 9007199254740992 := by decide
    rw [evalUnaryOp_neg_int binary64_isBinary64, hnearest]
    rfl
  · exact ((reads_iff_of_neg binary64_isBinary64 (by decide)).mp h).2 rfl

end Evaluation

end Limpid.Dsl
