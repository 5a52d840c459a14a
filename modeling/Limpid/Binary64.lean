import Mathlib.Algebra.GroupWithZero.Nat
import Mathlib.Algebra.Order.Ring.Nat
import Mathlib.Algebra.Order.Ring.Int
import Mathlib.Data.Nat.Log
import Mathlib.Tactic.Ring

/-!
# Integers in binary64

A finite number of the format is an integer times `2 ^ -1074`, and `scaled` is that integer, so
that numbers are compared without fractions.  An integer becomes the nearest number, the even one
of two as near (`nearest`), which is the integer itself exactly when it has at most 53 bits between
its first and its last one (`nearest_eq_iff`).
-/

namespace Limpid.Binary64

/-! ## Fields -/

/-- The sign bit. -/
def isNegative (bits : UInt64) : Bool := 2 ^ 63 ≤ bits.toNat

/-- The biased exponent. -/
def exponent (bits : UInt64) : ℕ := bits.toNat / 2 ^ 52 % 2 ^ 11

/-- The fraction, without the leading bit. -/
def fraction (bits : UInt64) : ℕ := bits.toNat % 2 ^ 52

/-- Neither an infinity nor a NaN. -/
def isFinite (bits : UInt64) : Bool := exponent bits ≠ 2047

/-- The number is its magnitude by `2 ^ -1074`. -/
def magnitude (bits : UInt64) : ℕ :=
  if exponent bits = 0 then fraction bits
  else (2 ^ 52 + fraction bits) * 2 ^ (exponent bits - 1)

/-- The number in units of the smallest one. -/
def scaled (bits : UInt64) : ℤ :=
  if isNegative bits then -(magnitude bits : ℤ) else magnitude bits

/-- The least positive number is `2` to minus this. -/
def leastExponent : ℕ := 1074

/-- `1` is this many times the least positive number. -/
def unit : ℕ := 2 ^ leastExponent

theorem unit_pos : 0 < unit := Nat.two_pow_pos leastExponent

/-! ## Rounding -/

/-- `m / 2 ^ s`, to the nearest integer, and to the even one of two. -/
def roundEven (m s : ℕ) : ℕ :=
  if 2 * (m % 2 ^ s) < 2 ^ s ∨ 2 * (m % 2 ^ s) = 2 ^ s ∧ m / 2 ^ s % 2 = 0 then m / 2 ^ s
  else m / 2 ^ s + 1

/-- The bits of an integer that are dropped. -/
def excess (m : ℕ) : ℕ := Nat.log2 m - 52

/-- The double nearest to a natural number, ties going to the even significand. -/
def nearestNat (m : ℕ) : ℕ := roundEven m (excess m) * 2 ^ excess m

/-- The double nearest to an integer. -/
def nearest (n : ℤ) : ℤ := n.sign * nearestNat n.natAbs

/-- An integer of at most 53 bits, up to a power of two. -/
def IsExact (n : ℤ) : Prop := ∃ c e : ℕ, c < 2 ^ 53 ∧ n.natAbs = c * 2 ^ e

section Rounding

variable {m s : ℕ}

theorem roundEven_of_dvd (h : 2 ^ s ∣ m) : roundEven m s = m / 2 ^ s := by
  have hmod : m % 2 ^ s = 0 := Nat.mod_eq_zero_of_dvd h
  have hpos : 0 < 2 ^ s := Nat.two_pow_pos s
  rw [roundEven, if_pos (.inl (by rw [hmod]; omega))]

theorem roundEven_le (m s : ℕ) : roundEven m s ≤ m / 2 ^ s + 1 := by
  unfold roundEven
  split <;> omega

theorem le_roundEven (m s : ℕ) : m / 2 ^ s ≤ roundEven m s := by
  unfold roundEven
  split <;> omega

theorem div_excess_lt (m : ℕ) : m / 2 ^ excess m < 2 ^ 53 := by
  rw [Nat.div_lt_iff_lt_mul (Nat.two_pow_pos _), ← pow_add]
  refine Nat.lt_log2_self.trans_le (Nat.pow_le_pow_right (by decide) ?_)
  unfold excess
  omega

theorem roundEven_excess_le (m : ℕ) : roundEven m (excess m) ≤ 2 ^ 53 := by
  have hround := roundEven_le m (excess m)
  have hdiv := div_excess_lt m
  omega

theorem nearestNat_eq_of_dvd (h : 2 ^ excess m ∣ m) : nearestNat m = m := by
  rw [nearestNat, roundEven_of_dvd h, Nat.div_mul_cancel h]

theorem nearestNat_eq_iff : nearestNat m = m ↔ ∃ c e : ℕ, c < 2 ^ 53 ∧ m = c * 2 ^ e := by
  constructor
  · intro h
    rcases (roundEven_excess_le m).lt_or_eq with hlt | heq
    · exact ⟨roundEven m (excess m), excess m, hlt, h.symm⟩
    · -- the rounding carried into a new bit
      refine ⟨2 ^ 52, excess m + 1, by decide, ?_⟩
      rw [nearestNat, heq] at h
      calc m = 2 ^ 53 * 2 ^ excess m := h.symm
        _ = 2 ^ 52 * 2 ^ (excess m + 1) := by rw [pow_succ]; ring
  · rintro ⟨c, e, hc, rfl⟩
    refine nearestNat_eq_of_dvd ((Nat.pow_dvd_pow 2 ?_).mul_left c)
    rcases Nat.eq_zero_or_pos (c * 2 ^ e) with hzero | hpos
    · rw [hzero]
      exact Nat.zero_le e
    · have hlog : Nat.log2 (c * 2 ^ e) < 53 + e := by
        rw [Nat.log2_lt hpos.ne', pow_add]
        exact Nat.mul_lt_mul_of_pos_right hc (Nat.two_pow_pos e)
      unfold excess
      omega

theorem nearestNat_le (h : m ≤ 2 ^ 63) : nearestNat m ≤ 2 ^ 63 := by
  rcases h.lt_or_eq with hlt | rfl
  · have hlog : Nat.log2 m < 63 := by
      rcases Nat.eq_zero_or_pos m with rfl | hpos
      · decide
      · exact (Nat.log2_lt hpos.ne').mpr hlt
    calc nearestNat m ≤ 2 ^ 53 * 2 ^ excess m := Nat.mul_le_mul_right _ (roundEven_excess_le m)
      _ = 2 ^ (53 + excess m) := (pow_add ..).symm
      _ ≤ 2 ^ 63 := Nat.pow_le_pow_right (by decide) (by unfold excess; omega)
  · exact (nearestNat_eq_of_dvd (Nat.pow_dvd_pow 2 (by decide))).le

end Rounding

section Nearest

variable {n : ℤ}

theorem natAbs_nearest (n : ℤ) : (nearest n).natAbs = nearestNat n.natAbs := by
  rw [nearest, Int.natAbs_mul, Int.natAbs_natCast]
  by_cases h : n = 0
  · subst h
    decide
  · rw [Int.natAbs_sign_of_ne_zero h, Nat.one_mul]

theorem nearestNat_zero : nearestNat 0 = 0 := by decide

theorem nearest_eq_iff : nearest n = n ↔ IsExact n := by
  rw [IsExact, ← nearestNat_eq_iff]
  constructor
  · intro h
    rw [← natAbs_nearest, h]
  · intro h
    rw [nearest, h, Int.sign_mul_natAbs]

theorem nearest_nonneg (h : 0 ≤ n) : 0 ≤ nearest n :=
  mul_nonneg (Int.sign_nonneg_iff.mpr h) (Int.natCast_nonneg _)

theorem abs_nearest_le (h : n.natAbs ≤ 2 ^ 63) : (nearest n).natAbs ≤ 2 ^ 63 := by
  rw [natAbs_nearest]
  exact nearestNat_le h

end Nearest

/-! ## Conversion -/

/-- The 53 bits that are kept, with the first of them. -/
def significand (m : ℕ) : ℕ :=
  if Nat.log2 m ≤ 52 then m * 2 ^ (52 - Nat.log2 m) else roundEven m (excess m)

/-- The first bit is not stored, and a carry goes into the exponent. -/
def encodeNat (m : ℕ) : ℕ :=
  if m = 0 then 0 else (Nat.log2 m + 1022) * 2 ^ 52 + significand m

/-- The number nearest to an integer. -/
def ofInt (n : ℤ) : UInt64 :=
  UInt64.ofNat ((if n < 0 then 2 ^ 63 else 0) + encodeNat n.natAbs)

section Conversion

variable {m : ℕ}

theorem significand_bounds (hm : m ≠ 0) : 2 ^ 52 ≤ significand m ∧ significand m ≤ 2 ^ 53 := by
  have hle : 2 ^ Nat.log2 m ≤ m := Nat.log2_self_le hm
  unfold significand
  split
  · next hlog =>
    have hlt : m < 2 ^ (Nat.log2 m + 1) := Nat.lt_log2_self
    have hlow : 2 ^ Nat.log2 m * 2 ^ (52 - Nat.log2 m) = 2 ^ 52 := by
      rw [← pow_add]
      congr 1
      omega
    have hhigh : 2 ^ (Nat.log2 m + 1) * 2 ^ (52 - Nat.log2 m) = 2 ^ 53 := by
      rw [← pow_add]
      congr 1
      omega
    exact ⟨hlow ▸ Nat.mul_le_mul_right _ hle, hhigh ▸ Nat.mul_le_mul_right _ hlt.le⟩
  · next hlog =>
    refine ⟨le_trans ?_ (le_roundEven m _), roundEven_excess_le m⟩
    rw [Nat.le_div_iff_mul_le (Nat.two_pow_pos _), ← pow_add]
    refine le_trans (Nat.pow_le_pow_right (by decide) ?_) hle
    unfold excess
    omega

theorem significand_mul : significand m * 2 ^ (Nat.log2 m + 1022) = nearestNat m * unit := by
  unfold significand unit
  split
  · next hlog =>
    have hexcess : excess m = 0 := by unfold excess; omega
    have hnearest : nearestNat m = m := nearestNat_eq_of_dvd (by rw [hexcess]; exact one_dvd m)
    have hsum : 52 - Nat.log2 m + (Nat.log2 m + 1022) = leastExponent := by
      unfold leastExponent
      omega
    rw [hnearest, mul_assoc, ← pow_add, hsum]
  · next hlog =>
    have hsum : Nat.log2 m + 1022 = excess m + leastExponent := by
      unfold excess leastExponent
      omega
    rw [nearestNat, mul_assoc, hsum, ← pow_add]

theorem fields_ofInt {n : ℤ} (hn : n.natAbs ≤ 2 ^ 63) :
    (ofInt n).toNat = (if n < 0 then 2 ^ 63 else 0) + encodeNat n.natAbs ∧
      encodeNat n.natAbs < 1100 * 2 ^ 52 := by
  have hlt : encodeNat n.natAbs < 1100 * 2 ^ 52 := by
    by_cases h : n.natAbs = 0
    · rw [encodeNat, if_pos h]
      omega
    · have hlog : Nat.log2 n.natAbs < 64 := (Nat.log2_lt h).mpr (by omega)
      have hsig := (significand_bounds h).2
      rw [encodeNat, if_neg h]
      omega
  refine ⟨?_, hlt⟩
  rw [ofInt, UInt64.toNat_ofNat', Nat.mod_eq_of_lt]
  split <;> omega

theorem magnitude_ofInt {n : ℤ} (hn : n.natAbs ≤ 2 ^ 63) :
    magnitude (ofInt n) = nearestNat n.natAbs * unit ∧ isFinite (ofInt n) = true := by
  obtain ⟨hbits, hlt⟩ := fields_ofInt hn
  have hexp : exponent (ofInt n) = encodeNat n.natAbs / 2 ^ 52 := by
    rw [exponent, hbits]
    split <;> omega
  have hfrac : fraction (ofInt n) = encodeNat n.natAbs % 2 ^ 52 := by
    rw [fraction, hbits]
    split <;> omega
  have hfinite : isFinite (ofInt n) = true := by
    rw [isFinite, hexp, decide_eq_true_iff]
    omega
  refine ⟨?_, hfinite⟩
  rw [magnitude, hexp, hfrac]
  by_cases hzero : n.natAbs = 0
  · have hencode : encodeNat 0 = 0 := if_pos rfl
    rw [hzero, hencode, nearestNat_zero, Nat.zero_div, Nat.zero_mod, if_pos rfl, Nat.zero_mul]
  · obtain ⟨hlow, hhigh⟩ := significand_bounds hzero
    have hencode : encodeNat n.natAbs =
        (Nat.log2 n.natAbs + 1022) * 2 ^ 52 + significand n.natAbs := if_neg hzero
    rw [← significand_mul]
    rcases hhigh.lt_or_eq with hhigh | hhigh
    · have hdiv : encodeNat n.natAbs / 2 ^ 52 = Nat.log2 n.natAbs + 1023 := by omega
      have hmod : 2 ^ 52 + encodeNat n.natAbs % 2 ^ 52 = significand n.natAbs := by omega
      rw [hdiv, hmod, if_neg (by omega)]
      rfl
    · have hdiv : encodeNat n.natAbs / 2 ^ 52 = Nat.log2 n.natAbs + 1024 := by omega
      have hmod : encodeNat n.natAbs % 2 ^ 52 = 0 := by omega
      have hexponent : Nat.log2 n.natAbs + 1024 - 1 = Nat.log2 n.natAbs + 1022 + 1 := by omega
      rw [hdiv, hmod, if_neg (by omega), hhigh, hexponent,
        pow_succ 2 (Nat.log2 n.natAbs + 1022)]
      generalize 2 ^ (Nat.log2 n.natAbs + 1022) = power
      omega

/-- **The conversion gives the nearest number.** -/
theorem scaled_ofInt {n : ℤ} (hn : n.natAbs ≤ 2 ^ 63) :
    scaled (ofInt n) = nearest n * unit := by
  obtain ⟨hbits, hlt⟩ := fields_ofInt hn
  obtain ⟨hmagnitude, -⟩ := magnitude_ofInt hn
  rw [scaled, hmagnitude, nearest, Nat.cast_mul]
  rcases lt_trichotomy n 0 with hneg | rfl | hpos
  · have hsign : isNegative (ofInt n) = true := by
      rw [isNegative, hbits, if_pos hneg, decide_eq_true_iff]
      omega
    rw [if_pos hsign, Int.sign_eq_neg_one_of_neg hneg]
    ring
  · rw [Int.natAbs_zero, nearestNat_zero, Int.natCast_zero, Int.zero_mul, Int.neg_zero, ite_self,
      Int.mul_zero, Int.zero_mul]
  · have hsign : ¬ isNegative (ofInt n) = true := by
      rw [isNegative, hbits, if_neg hpos.not_gt, decide_eq_true_iff]
      omega
    rw [if_neg hsign, Int.sign_eq_one_of_pos hpos, one_mul]

end Conversion

/-! ## Negation -/

/-- The number with the other sign: adding the sign bit flips it. -/
def neg (bits : UInt64) : UInt64 := bits + UInt64.ofNat (2 ^ 63)

section Negation

variable {bits : UInt64}

theorem toNat_neg (bits : UInt64) : (neg bits).toNat = (bits.toNat + 2 ^ 63) % 2 ^ 64 := by
  rw [neg, UInt64.toNat_add, UInt64.toNat_ofNat']
  rfl

theorem exponent_neg (bits : UInt64) : exponent (neg bits) = exponent bits := by
  rw [exponent, exponent, toNat_neg]
  omega

theorem fraction_neg (bits : UInt64) : fraction (neg bits) = fraction bits := by
  rw [fraction, fraction, toNat_neg]
  omega

theorem isNegative_neg (bits : UInt64) : isNegative (neg bits) = !isNegative bits := by
  have hlt : bits.toNat < 2 ^ 64 := bits.toNat_lt
  rw [isNegative, isNegative, toNat_neg, ← decide_not, decide_eq_decide]
  omega

theorem isFinite_neg (bits : UInt64) : isFinite (neg bits) = isFinite bits := by
  rw [isFinite, isFinite, exponent_neg]

theorem scaled_neg (bits : UInt64) : scaled (neg bits) = -scaled bits := by
  have hmagnitude : magnitude (neg bits) = magnitude bits := by
    rw [magnitude, magnitude, exponent_neg, fraction_neg]
  rw [scaled, scaled, isNegative_neg, hmagnitude]
  cases isNegative bits
  · rfl
  · exact (neg_neg _).symm

end Negation

/-! ## Order -/

section Order

variable {m m' s : ℕ} {n k : ℤ} {bits : UInt64}

theorem roundEven_mono (h : m ≤ m') : roundEven m s ≤ roundEven m' s := by
  have hdiv : m / 2 ^ s ≤ m' / 2 ^ s := Nat.div_le_div_right h
  rcases hdiv.lt_or_eq with hlt | heq
  · exact (roundEven_le m s).trans (hlt.trans_le (le_roundEven m' s))
  · -- Between two neighbours the order is that of the rests.
    have hrest : m % 2 ^ s ≤ m' % 2 ^ s := by
      have hm := Nat.div_add_mod m (2 ^ s)
      have hm' := Nat.div_add_mod m' (2 ^ s)
      rw [heq] at hm
      omega
    unfold roundEven
    rw [heq]
    split <;> split <;> omega

theorem nearestNat_le_log2 (m : ℕ) : nearestNat m ≤ 2 ^ (Nat.log2 m + 1) := by
  by_cases hlog : Nat.log2 m ≤ 52
  · have hexcess : excess m = 0 := by unfold excess; omega
    rw [nearestNat_eq_of_dvd (by rw [hexcess]; exact one_dvd m)]
    exact Nat.lt_log2_self.le
  · calc nearestNat m ≤ 2 ^ 53 * 2 ^ excess m := Nat.mul_le_mul_right _ (roundEven_excess_le m)
      _ = 2 ^ (Nat.log2 m + 1) := by
        rw [← pow_add]
        congr 1
        unfold excess
        omega

theorem log2_le_nearestNat (hm : m ≠ 0) : 2 ^ Nat.log2 m ≤ nearestNat m := by
  by_cases hlog : Nat.log2 m ≤ 52
  · have hexcess : excess m = 0 := by unfold excess; omega
    rw [nearestNat_eq_of_dvd (by rw [hexcess]; exact one_dvd m)]
    exact Nat.log2_self_le hm
  · have hexcess : Nat.log2 m = 52 + excess m := by unfold excess; omega
    have hlow : 2 ^ 52 ≤ m / 2 ^ excess m := by
      rw [Nat.le_div_iff_mul_le (Nat.two_pow_pos _), ← pow_add, ← hexcess]
      exact Nat.log2_self_le hm
    calc 2 ^ Nat.log2 m = 2 ^ 52 * 2 ^ excess m := by rw [← pow_add, ← hexcess]
      _ ≤ nearestNat m := Nat.mul_le_mul_right _ (hlow.trans (le_roundEven m _))

theorem nearestNat_mono (h : m ≤ m') : nearestNat m ≤ nearestNat m' := by
  rcases Nat.eq_zero_or_pos m with rfl | hm
  · rw [nearestNat_zero]
    exact Nat.zero_le _
  have hm' : m' ≠ 0 := by omega
  have hlog : Nat.log2 m ≤ Nat.log2 m' := by
    rw [Nat.le_log2 hm']
    exact (Nat.log2_self_le hm.ne').trans h
  rcases hlog.lt_or_eq with hlt | heq
  · calc nearestNat m ≤ 2 ^ (Nat.log2 m + 1) := nearestNat_le_log2 m
      _ ≤ 2 ^ Nat.log2 m' := Nat.pow_le_pow_right (by decide) hlt
      _ ≤ nearestNat m' := log2_le_nearestNat hm'
  · rw [nearestNat, nearestNat, excess, excess, heq]
    exact Nat.mul_le_mul_right _ (roundEven_mono h)

theorem nearest_neg (n : ℤ) : nearest (-n) = -nearest n := by
  rw [nearest, nearest, Int.sign_neg, Int.natAbs_neg, neg_mul]

/-- **Rounding keeps the order.** -/
theorem nearest_mono (h : n ≤ k) : nearest n ≤ nearest k := by
  have hnonneg : ∀ {n k : ℤ}, 0 ≤ n → n ≤ k → nearest n ≤ nearest k := by
    intro n k hn hk
    have hmono := @nearestNat_mono n.natAbs k.natAbs (by omega)
    rw [← natAbs_nearest, ← natAbs_nearest] at hmono
    have hn' := nearest_nonneg hn
    have hk' := nearest_nonneg (hn.trans hk)
    omega
  rcases le_total 0 n with hn | hn
  · exact hnonneg hn h
  rcases le_total 0 k with hk | hk
  · have hneg := nearest_nonneg (neg_nonneg.mpr hn)
    rw [nearest_neg] at hneg
    exact (neg_nonneg.mp hneg).trans (nearest_nonneg hk)
  · have hneg := hnonneg (neg_nonneg.mpr hk) (neg_le_neg h)
    rw [nearest_neg, nearest_neg] at hneg
    exact neg_le_neg_iff.mp hneg

/-- The integer part of a number of the format is one of the format. -/
theorem isExact_scaled_ediv (bits : UInt64) : IsExact (scaled bits / unit) := by
  obtain ⟨z, e, hz, hscaled⟩ : ∃ (z : ℤ) (e : ℕ), z.natAbs < 2 ^ 53 ∧ scaled bits = z * 2 ^ e := by
    obtain ⟨c, e, hc, hmagnitude⟩ : ∃ c e : ℕ, c < 2 ^ 53 ∧ magnitude bits = c * 2 ^ e := by
      have hfraction : fraction bits < 2 ^ 52 := Nat.mod_lt _ (by decide)
      unfold magnitude
      split
      · exact ⟨fraction bits, 0, by omega, by rw [pow_zero, mul_one]⟩
      · exact ⟨_, _, by omega, rfl⟩
    unfold scaled
    split
    · exact ⟨-c, e, by omega, by rw [hmagnitude]; push_cast; ring⟩
    · exact ⟨c, e, by omega, by rw [hmagnitude]; push_cast; ring⟩
  have hunit : (unit : ℤ) = 2 ^ leastExponent := by
    unfold unit
    push_cast
    rfl
  rcases le_total leastExponent e with he | he
  · refine ⟨z.natAbs, e - leastExponent, hz, ?_⟩
    have hpow : (2 : ℤ) ^ e = 2 ^ (e - leastExponent) * 2 ^ leastExponent := by
      rw [← pow_add, Nat.sub_add_cancel he]
    rw [hscaled, hunit, hpow, ← mul_assoc,
      Int.mul_ediv_cancel _ (pow_ne_zero _ (by decide)), Int.natAbs_mul, Int.natAbs_pow]
    rfl
  · have hpow : (2 : ℤ) ^ leastExponent = 2 ^ (leastExponent - e) * 2 ^ e := by
      rw [← pow_add, Nat.sub_add_cancel he]
    have hquot : scaled bits / unit = z / 2 ^ (leastExponent - e) := by
      rw [hscaled, hunit, hpow]
      exact Int.mul_ediv_mul_of_pos_left _ _ (pow_pos (by decide) e)
    refine ⟨(z / 2 ^ (leastExponent - e)).natAbs, 0, ?_, ?_⟩
    · exact (Int.natAbs_ediv_le_natAbs _ _).trans_lt hz
    · rw [hquot, pow_zero, mul_one]

/-- **Rounding does not pass a number of the format.** -/
theorem nearest_le_scaled (h : n * unit ≤ scaled bits) : nearest n * unit ≤ scaled bits := by
  have hunit : (0 : ℤ) < unit := Int.natCast_pos.mpr unit_pos
  have hfloor : n ≤ scaled bits / unit := (Int.le_ediv_iff_mul_le hunit).mpr h
  have hnearest := nearest_mono hfloor
  rw [nearest_eq_iff.mpr (isExact_scaled_ediv bits)] at hnearest
  exact (Int.le_ediv_iff_mul_le hunit).mp hnearest

theorem scaled_le_nearest (h : scaled bits ≤ n * unit) : scaled bits ≤ nearest n * unit := by
  have hneg : -n * unit ≤ scaled (neg bits) := by
    rw [scaled_neg, neg_mul]
    exact neg_le_neg h
  have hnearest := nearest_le_scaled hneg
  rw [scaled_neg, nearest_neg, neg_mul] at hnearest
  exact neg_le_neg_iff.mp hnearest

end Order

end Limpid.Binary64
