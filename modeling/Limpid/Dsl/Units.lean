import Mathlib.Algebra.GroupWithZero.Nat
import Mathlib.Algebra.Order.Ring.Nat
import Limpid.Decimal

/-!
# Sizes and durations

`parse_size` and `parse_duration` of `dsl/props.rs`.  The number is checked against a `u64`, its
product with the unit is not: in release builds it is what is left of it modulo `2 ^ 64`.  So a
size or a duration is exact or rejected exactly when its number is too large already or its product
is not (`product_exact_iff`).

`upper` are the upper case letters of a character, as Unicode has them; only those of ASCII
characters matter.
-/

namespace Limpid.Dsl.Props

open Decimal

/-! ## Texts -/

/-- `str::parse::<u64>`. -/
def parseU64 (text : List Char) : Option ℕ := (parseUnsigned text).filter (· < 2 ^ 64)

/-- `str::strip_suffix`. -/
def stripSuffix (suffix text : List Char) : Option (List Char) :=
  if suffix <:+ text then some (text.take (text.length - suffix.length)) else none

/-- `str::to_uppercase`. -/
def toUppercase (upper : Char → List Char) (text : List Char) : List Char := text.flatMap upper

/-- `std::time::Duration`. -/
structure Duration where
  secs : ℕ
  nanos : ℕ
deriving DecidableEq

/-- `Duration::from_secs`. -/
def Duration.fromSecs (secs : ℕ) : Duration := ⟨secs, 0⟩

/-- `Duration::from_millis`. -/
def Duration.fromMillis (millis : ℕ) : Duration := ⟨millis / 1000, millis % 1000 * 1000000⟩

/-- `Duration::as_nanos`. -/
def Duration.asNanos (duration : Duration) : ℕ := duration.secs * 1000000000 + duration.nanos

/-! ## The functions -/

/-- `parse_size`: digits and a unit, in capitals or not. -/
def parseSize (upper : Char → List Char) (s : String) : Except String ℕ :=
  let text := toUppercase upper (trim s.toList)
  let shown := String.ofList text
  let parse (num : List Char) (unit : String) (multiplier : ℕ) : Except String ℕ :=
    match parseU64 (trim num) with
    | some n => .ok (n * multiplier % 2 ^ 64)
    | none => .error s!"invalid size '{shown}': expected a number before '{unit}'"
  match stripSuffix ['G', 'B'] text with
  | some num => parse num "GB" (1024 * 1024 * 1024)
  | none =>
      match stripSuffix ['M', 'B'] text with
      | some num => parse num "MB" (1024 * 1024)
      | none =>
          match stripSuffix ['K', 'B'] text with
          | some num => parse num "KB" 1024
          | none =>
              match parseU64 text with
              | some n => .ok n
              | none => .error (s!"invalid size '{shown}': expected a number with optional " ++
                  "KB/MB/GB suffix")

/-- `parse_duration`: digits and a unit. -/
def parseDuration (s : String) : Except String Duration :=
  let text := trim s.toList
  let shown := String.ofList text
  let parse (num : List Char) (unit : String) : Except String ℕ :=
    match parseU64 (trim num) with
    | some n => .ok n
    | none => .error s!"invalid duration '{shown}': expected a number before '{unit}'"
  match stripSuffix ['m', 's'] text with
  | some num => (parse num "ms").map .fromMillis
  | none =>
      match stripSuffix ['s'] text with
      | some num => (parse num "s").map .fromSecs
      | none =>
          match stripSuffix ['m'] text with
          | some num => (parse num "m").map fun n => .fromSecs (n * 60 % 2 ^ 64)
          | none =>
              match parseU64 text with
              | some n => .ok (.fromMillis n)
              | none => .error (s!"invalid duration '{shown}': expected a number with optional " ++
                  "ms/s/m suffix")

/-! ## Units -/

/-- A unit of sizes. -/
inductive SizeUnit where
  | bytes | kb | mb | gb

namespace SizeUnit

/-- How the unit may be written. -/
def spellings : SizeUnit → List (List Char)
  | bytes => [[]]
  | kb => [['K', 'B'], ['K', 'b'], ['k', 'B'], ['k', 'b']]
  | mb => [['M', 'B'], ['M', 'b'], ['m', 'B'], ['m', 'b']]
  | gb => [['G', 'B'], ['G', 'b'], ['g', 'B'], ['g', 'b']]

def suffix : SizeUnit → List Char
  | bytes => []
  | kb => ['K', 'B']
  | mb => ['M', 'B']
  | gb => ['G', 'B']

/-- The bytes of a unit. -/
def multiplier : SizeUnit → ℕ
  | bytes => 1
  | kb => 1024
  | mb => 1024 * 1024
  | gb => 1024 * 1024 * 1024

end SizeUnit

/-- A unit of durations. -/
inductive DurationUnit where
  | none | ms | s | m

namespace DurationUnit

def suffix : DurationUnit → List Char
  | none => []
  | ms => ['m', 's']
  | s => ['s']
  | m => ['m']

/-- The milliseconds of a unit. -/
def millis : DurationUnit → ℕ
  | none => 1
  | ms => 1
  | s => 1000
  | m => 60 * 1000

/-- The unit in nanoseconds. -/
def nanos (unit : DurationUnit) : ℕ := unit.millis * 1000000

end DurationUnit

/-- The number that digits stand for. -/
def valueOf (digits : List Char) : ℕ := Nat.ofDigitChars 10 digits 0

/-- A result is the product, and is an error when there is no room for it. -/
structure ExactOrRejected (result : Except String ℕ) (product limit : ℕ) : Prop where
  exact : ∀ value, result = .ok value → value = product
  rejected : limit ≤ product → ∃ message, result = .error message

/-! ## Digits and units -/

section Digits

variable {digits : List Char}

theorem parseU64_digits (hdigits : ∀ c ∈ digits, c.isDigit) :
    parseU64 digits =
      if digits ≠ [] ∧ valueOf digits < 2 ^ 64 then some (valueOf digits) else none := by
  have hparse : parseUnsigned digits = parseDigits digits := by
    unfold parseUnsigned
    split
    · exact absurd (hdigits '+' List.mem_cons_self) (by decide)
    · rfl
  have hall : digits.all Char.isDigit = true := List.all_eq_true.mpr hdigits
  rw [parseU64, hparse, parseDigits]
  by_cases hne : digits ≠ []
  · rw [if_pos ⟨hne, hall⟩, Option.filter_some]
    simp [hne, valueOf]
  · rw [if_neg fun h => hne h.1, if_neg fun h => hne h.1]
    rfl

theorem stripSuffix_append (text suffix : List Char) :
    stripSuffix suffix (text ++ suffix) = some text := by
  rw [stripSuffix, if_pos (List.suffix_append text suffix), List.length_append,
    Nat.add_sub_cancel, List.take_left]

theorem stripSuffix_eq_none {suffix text : List Char} {c : Char} (hc : c ∈ suffix)
    (hnot : c ∉ text) : stripSuffix suffix text = none :=
  if_neg fun hsuffix => hnot (hsuffix.subset hc)

theorem notMem_of_isDigit {c : Char} (hdigits : ∀ c ∈ digits, c.isDigit)
    (hc : c.isDigit = false) {suffix : List Char} (hsuffix : c ∉ suffix) :
    c ∉ digits ++ suffix := by
  intro hmem
  rcases List.mem_append.mp hmem with hmem | hmem
  · rw [hdigits c hmem] at hc
    exact absurd hc (by decide)
  · exact hsuffix hmem

theorem trim_of_forall {text : List Char} (h : ∀ c ∈ text, isWhiteSpace c = false) :
    trim text = text :=
  trim_eq_self (fun c hc => h c (List.mem_of_mem_head? hc))
    (fun c hc => h c (List.mem_of_mem_getLast? hc))

theorem trim_digits (hdigits : ∀ c ∈ digits, c.isDigit) {suffix : List Char}
    (hsuffix : ∀ c ∈ suffix, isWhiteSpace c = false) : trim (digits ++ suffix) = digits ++ suffix :=
  trim_of_forall fun c hc => (List.mem_append.mp hc).elim
    (fun hc => isWhiteSpace_of_isDigit (hdigits c hc)) (hsuffix c)

end Digits

/-! ## Sizes -/

section Sizes

variable {upper : Char → List Char} {digits : List Char} {unit : SizeUnit} {spelled : List Char}

theorem toUppercase_digits (hupper : ∀ c : Char, c.toNat < 128 → upper c = [c.toUpper])
    (hdigits : ∀ c ∈ digits, c.isDigit) : toUppercase upper digits = digits := by
  induction digits with
  | nil => rfl
  | cons c digits ih =>
      obtain ⟨hc, hrest⟩ := List.forall_mem_cons.mp hdigits
      have hbounds : 48 ≤ c.toNat ∧ c.toNat ≤ 57 := by
        simpa [Char.isDigit, UInt32.le_iff_toNat_le] using hc
      have hupperCase : c.toUpper = c := by
        refine dif_neg fun hlower => ?_
        have hge : 97 ≤ c.toNat := UInt32.le_iff_toNat_le.mp hlower.1
        omega
      have hrest := ih hrest
      rw [toUppercase] at hrest
      rw [toUppercase, List.flatMap_cons, hrest, hupper c (by omega), hupperCase]
      rfl

theorem toUppercase_spelled (hupper : ∀ c : Char, c.toNat < 128 → upper c = [c.toUpper])
    (hspelled : spelled ∈ unit.spellings) : toUppercase upper spelled = unit.suffix := by
  have hall : ∀ spelled ∈ unit.spellings, (∀ c ∈ spelled, c.toNat < 128) ∧
      spelled.map Char.toUpper = unit.suffix := by
    cases unit <;> decide
  obtain ⟨hascii, hsuffix⟩ := hall spelled hspelled
  have hmap : toUppercase upper spelled = spelled.map Char.toUpper := by
    rw [toUppercase, ← List.flatMap_singleton' (spelled.map Char.toUpper), List.flatMap_map]
    exact List.flatMap_congr fun c hc => hupper c (hascii c hc)
  rw [hmap, hsuffix]

theorem parseSize_digits (hupper : ∀ c : Char, c.toNat < 128 → upper c = [c.toUpper])
    (hdigits : ∀ c ∈ digits, c.isDigit) (hspelled : spelled ∈ unit.spellings) :
    ∃ message, parseSize upper (String.ofList (digits ++ spelled)) =
      if digits ≠ [] ∧ valueOf digits < 2 ^ 64 then
        .ok (valueOf digits * unit.multiplier % 2 ^ 64) else .error message := by
  have hspace : ∀ spelled ∈ unit.spellings, ∀ c ∈ spelled, isWhiteSpace c = false := by
    cases unit <;> decide
  have htext : toUppercase upper (trim (String.ofList (digits ++ spelled)).toList) =
      digits ++ unit.suffix := by
    rw [String.toList_ofList, trim_digits hdigits (hspace spelled hspelled), toUppercase,
      List.flatMap_append]
    exact congrArg₂ _ (toUppercase_digits hupper hdigits) (toUppercase_spelled hupper hspelled)
  have htrim : trim digits = digits :=
    trim_of_forall fun c hc => isWhiteSpace_of_isDigit (hdigits c hc)
  -- no spelling of a unit is a suffix of one that is tried before it
  have hnotG : ∀ suffix : List Char, 'G' ∉ suffix →
      stripSuffix ['G', 'B'] (digits ++ suffix) = none := fun suffix hsuffix =>
    stripSuffix_eq_none (List.mem_cons_self ..) (notMem_of_isDigit hdigits rfl hsuffix)
  have hnotM : ∀ suffix : List Char, 'M' ∉ suffix →
      stripSuffix ['M', 'B'] (digits ++ suffix) = none := fun suffix hsuffix =>
    stripSuffix_eq_none (List.mem_cons_self ..) (notMem_of_isDigit hdigits rfl hsuffix)
  have hnotK : ∀ suffix : List Char, 'K' ∉ suffix →
      stripSuffix ['K', 'B'] (digits ++ suffix) = none := fun suffix hsuffix =>
    stripSuffix_eq_none (List.mem_cons_self ..) (notMem_of_isDigit hdigits rfl hsuffix)
  have hread := parseU64_digits hdigits
  unfold parseSize
  rw [htext]
  -- the digits are read as a `u64`, which may fail
  by_cases h : digits ≠ [] ∧ valueOf digits < 2 ^ 64
  · rw [if_pos h] at hread
    refine ⟨"", ?_⟩
    rw [if_pos h]
    cases unit with
    | gb =>
        simp only [SizeUnit.suffix, stripSuffix_append, htrim, hread]
        rfl
    | mb =>
        simp only [SizeUnit.suffix, hnotG ['M', 'B'] (by decide), stripSuffix_append, htrim, hread]
        rfl
    | kb =>
        simp only [SizeUnit.suffix, hnotG ['K', 'B'] (by decide), hnotM ['K', 'B'] (by decide),
          stripSuffix_append, htrim, hread]
        rfl
    | bytes =>
        simp only [SizeUnit.suffix, hnotG [] (by decide), hnotM [] (by decide),
          hnotK [] (by decide), SizeUnit.multiplier, Nat.mul_one, Nat.mod_eq_of_lt h.2]
        rw [List.append_nil, hread]
  · rw [if_neg h] at hread
    simp only [if_neg h]
    cases unit with
    | gb =>
        simp only [SizeUnit.suffix, stripSuffix_append, htrim, hread]
        exact ⟨_, rfl⟩
    | mb =>
        simp only [SizeUnit.suffix, hnotG ['M', 'B'] (by decide), stripSuffix_append, htrim, hread]
        exact ⟨_, rfl⟩
    | kb =>
        simp only [SizeUnit.suffix, hnotG ['K', 'B'] (by decide), hnotM ['K', 'B'] (by decide),
          stripSuffix_append, htrim, hread]
        exact ⟨_, rfl⟩
    | bytes =>
        simp only [SizeUnit.suffix, hnotG [] (by decide), hnotM [] (by decide),
          hnotK [] (by decide)]
        rw [List.append_nil, hread]
        exact ⟨_, rfl⟩

end Sizes

/-! ## Durations -/

section Durations

variable {digits : List Char}

/-- The duration that a number in a unit becomes. -/
def DurationUnit.durationOf (n : ℕ) : DurationUnit → Duration
  | none => .fromMillis n
  | ms => .fromMillis n
  | s => .fromSecs n
  | m => .fromSecs (n * 60 % 2 ^ 64)

theorem parseDuration_digits (hdigits : ∀ c ∈ digits, c.isDigit) (unit : DurationUnit) :
    ∃ message, parseDuration (String.ofList (digits ++ unit.suffix)) =
      if digits ≠ [] ∧ valueOf digits < 2 ^ 64 then .ok (unit.durationOf (valueOf digits))
      else .error message := by
  have hspace : ∀ c ∈ unit.suffix, isWhiteSpace c = false := by cases unit <;> decide
  have htext : trim (String.ofList (digits ++ unit.suffix)).toList = digits ++ unit.suffix := by
    rw [String.toList_ofList, trim_digits hdigits hspace]
  have htrim : trim digits = digits :=
    trim_of_forall fun c hc => isWhiteSpace_of_isDigit (hdigits c hc)
  -- no unit is a suffix of one that is tried before it
  have hnotM : ∀ suffix rest : List Char, 'm' ∈ suffix → 'm' ∉ rest →
      stripSuffix suffix (digits ++ rest) = none := fun suffix rest hm hrest =>
    stripSuffix_eq_none hm (notMem_of_isDigit hdigits rfl hrest)
  have hnotS : ∀ suffix rest : List Char, 's' ∈ suffix → 's' ∉ rest →
      stripSuffix suffix (digits ++ rest) = none := fun suffix rest hs hrest =>
    stripSuffix_eq_none hs (notMem_of_isDigit hdigits rfl hrest)
  have hread := parseU64_digits hdigits
  unfold parseDuration
  rw [htext]
  -- the digits are read as a `u64`, which may fail
  by_cases h : digits ≠ [] ∧ valueOf digits < 2 ^ 64
  · rw [if_pos h] at hread
    refine ⟨"", ?_⟩
    rw [if_pos h]
    cases unit with
    | ms =>
        simp only [DurationUnit.suffix, stripSuffix_append, htrim, hread]
        rfl
    | s =>
        simp only [DurationUnit.suffix, hnotM ['m', 's'] ['s'] (by decide) (by decide),
          stripSuffix_append, htrim, hread]
        rfl
    | m =>
        simp only [DurationUnit.suffix, hnotS ['m', 's'] ['m'] (by decide) (by decide),
          hnotS ['s'] ['m'] (by decide) (by decide), stripSuffix_append, htrim, hread]
        rfl
    | none =>
        simp only [DurationUnit.suffix, hnotS ['m', 's'] [] (by decide) (by decide),
          hnotS ['s'] [] (by decide) (by decide), hnotM ['m'] [] (by decide) (by decide)]
        rw [List.append_nil, hread]
        rfl
  · rw [if_neg h] at hread
    simp only [if_neg h]
    cases unit with
    | ms =>
        simp only [DurationUnit.suffix, stripSuffix_append, htrim, hread]
        exact ⟨_, rfl⟩
    | s =>
        simp only [DurationUnit.suffix, hnotM ['m', 's'] ['s'] (by decide) (by decide),
          stripSuffix_append, htrim, hread]
        exact ⟨_, rfl⟩
    | m =>
        simp only [DurationUnit.suffix, hnotS ['m', 's'] ['m'] (by decide) (by decide),
          hnotS ['s'] ['m'] (by decide) (by decide), stripSuffix_append, htrim, hread]
        exact ⟨_, rfl⟩
    | none =>
        simp only [DurationUnit.suffix, hnotS ['m', 's'] [] (by decide) (by decide),
          hnotS ['s'] [] (by decide) (by decide), hnotM ['m'] [] (by decide) (by decide)]
        rw [List.append_nil, hread]
        exact ⟨_, rfl⟩

theorem asNanos_fromMillis (millis : ℕ) :
    (Duration.fromMillis millis).asNanos = millis * 1000000 := by
  rw [Duration.fromMillis, Duration.asNanos]
  dsimp only
  omega

theorem asNanos_fromSecs (secs : ℕ) : (Duration.fromSecs secs).asNanos = secs * 1000000000 := by
  rw [Duration.fromSecs, Duration.asNanos, Nat.add_zero]

/-- Only minutes can be too many. -/
theorem DurationUnit.asNanos_durationOf {n : ℕ} (hn : n < 2 ^ 64) (unit : DurationUnit) :
    (unit.durationOf n).asNanos = n * unit.nanos ↔ n * unit.nanos < 2 ^ 64 * 1000000000 := by
  cases unit with
  | none | ms =>
      simp only [durationOf, nanos, millis, asNanos_fromMillis]
      exact iff_of_true trivial (by omega)
  | s =>
      simp only [durationOf, nanos, millis, asNanos_fromSecs]
      exact iff_of_true trivial (by omega)
  | m =>
      simp only [durationOf, nanos, millis, asNanos_fromSecs]
      omega

end Durations

/-! ## Exact or rejected -/

section Exact

/-- The function reads the number and computes something of it. -/
theorem exactOrRejected_iff {result : Except String ℕ} {message : String} {readable : Prop}
    [Decidable readable] {n computed product limit : ℕ}
    (hresult : result =
      if readable ∧ n < 2 ^ 64 then .ok computed else .error message)
    (hcomputed : n < 2 ^ 64 → (computed = product ↔ product < limit))
    (hreadable : ¬readable → product < limit) :
    ExactOrRejected result product limit ↔ (n < 2 ^ 64 → product < limit) := by
  subst hresult
  constructor
  · intro h hn
    by_cases hr : readable
    · exact (hcomputed hn).mp (h.exact computed (if_pos ⟨hr, hn⟩))
    · exact hreadable hr
  · intro h
    by_cases hn : readable ∧ n < 2 ^ 64
    · rw [if_pos hn]
      refine ⟨fun value hvalue => ?_, fun hle => absurd (h hn.2) (Nat.not_lt.mpr hle)⟩
      rw [← Except.ok.inj hvalue]
      exact (hcomputed hn.2).mpr (h hn.2)
    · rw [if_neg hn]
      exact ⟨fun value hvalue => (nomatch hvalue), fun _ => ⟨message, rfl⟩⟩

theorem valueOf_of_not_ne_nil {digits : List Char} (h : ¬digits ≠ []) : valueOf digits = 0 := by
  rw [not_not.mp h]
  rfl

/-- **A size or a duration is exact or rejected exactly when its number is no `u64`, or its product
with the unit has room in the result.** -/
theorem product_exact_iff {upper : Char → List Char}
    (hupper : ∀ c : Char, c.toNat < 128 → upper c = [c.toUpper]) :
    (∀ digits : List Char, (∀ c ∈ digits, c.isDigit) → ∀ unit : SizeUnit,
      ∀ spelled ∈ unit.spellings,
        (ExactOrRejected (parseSize upper (String.ofList (digits ++ spelled)))
            (valueOf digits * unit.multiplier) (2 ^ 64) ↔
          (valueOf digits < 2 ^ 64 → valueOf digits * unit.multiplier < 2 ^ 64))) ∧
    ∀ digits : List Char, (∀ c ∈ digits, c.isDigit) → ∀ unit : DurationUnit,
      (ExactOrRejected
          ((parseDuration (String.ofList (digits ++ unit.suffix))).map Duration.asNanos)
          (valueOf digits * unit.nanos) (2 ^ 64 * 1000000000) ↔
        (valueOf digits < 2 ^ 64 → valueOf digits * unit.nanos < 2 ^ 64 * 1000000000)) := by
  refine ⟨fun digits hdigits unit spelled hspelled => ?_, fun digits hdigits unit => ?_⟩
  · obtain ⟨message, hresult⟩ := parseSize_digits hupper hdigits hspelled
    refine exactOrRejected_iff hresult (fun _ => ⟨fun hmod => ?_, Nat.mod_eq_of_lt⟩) fun hnil => ?_
    · rw [← hmod]
      exact Nat.mod_lt _ (Nat.two_pow_pos 64)
    · rw [valueOf_of_not_ne_nil hnil, Nat.zero_mul]
      exact Nat.two_pow_pos 64
  · obtain ⟨message, hparse⟩ := parseDuration_digits hdigits unit
    have hresult : (parseDuration (String.ofList (digits ++ unit.suffix))).map Duration.asNanos =
        if digits ≠ [] ∧ valueOf digits < 2 ^ 64 then
          .ok (unit.durationOf (valueOf digits)).asNanos else .error message := by
      rw [hparse]
      split
      · rfl
      · rfl
    refine exactOrRejected_iff hresult (fun hn => unit.asNanos_durationOf hn) fun hnil => ?_
    rw [valueOf_of_not_ne_nil hnil, Nat.zero_mul]
    decide

/-- The largest size in gigabytes, and one less than the least that wraps. -/
theorem product_exact_iff_largest :
    ExactOrRejected (parseSize (fun c => [c.toUpper]) "17179869183gb")
      (valueOf "17179869183".toList * SizeUnit.gb.multiplier) (2 ^ 64) := by
  have hdigits : ∀ c ∈ "17179869183".toList, c.isDigit := by decide
  have hspelled : ['g', 'b'] ∈ SizeUnit.gb.spellings := by decide
  have hupper : ∀ c : Char, c.toNat < 128 → [c.toUpper] = [c.toUpper] := fun _ _ => rfl
  exact ((product_exact_iff hupper).1 _ hdigits .gb _ hspelled).mpr fun _ => by decide

/-- A size of `2 ^ 34` gigabytes is no bytes at all. -/
theorem size_wraps : parseSize (fun c => [c.toUpper]) "17179869184GB" = .ok 0 ∧
    ¬ExactOrRejected (parseSize (fun c => [c.toUpper]) "17179869184GB")
      (valueOf "17179869184".toList * SizeUnit.gb.multiplier) (2 ^ 64) := by
  have hparse : parseSize (fun c => [c.toUpper]) "17179869184GB" = .ok 0 := by
    have hdigits : ∀ c ∈ "17179869184".toList, c.isDigit := by decide
    have hspelled : ['G', 'B'] ∈ SizeUnit.gb.spellings := List.mem_cons_self
    have hupper : ∀ c : Char, c.toNat < 128 → [c.toUpper] = [c.toUpper] := fun _ _ => rfl
    obtain ⟨message, hsize⟩ := parseSize_digits hupper hdigits hspelled
    exact hsize
  refine ⟨hparse, fun h => ?_⟩
  have hexact := h.exact 0 hparse
  exact absurd hexact (by decide)

end Exact

end Limpid.Dsl.Props
