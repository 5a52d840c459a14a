import Mathlib.Algebra.Order.Group.Unbundled.Int
import Limpid.Decimal
import Limpid.Utf8

/-!
# Offsets of time zones

`parse_fixed_offset` of `functions/primitives/mod.rs`, which reads the zone argument of `strftime`
and `strptime`.  The function is to read `±HH:MM` and `±HHMM`.  It cuts the text at a byte, reads
both parts as an `i32` and multiplies without a check, so it panics on four bytes whose middle is
inside a character, overflows on large numbers, and reads signs, single digits and sixty minutes
and more.  `totalAndExact_iff` says that nothing else goes wrong.

## Strategy

* The text after the sign is cut at the first colon, or at the second of four bytes.  `Cut` says so
  without the two functions of the source, and a text has one cut at most (`Cut.unique`).
* Both parts are read as numbers.  When they are `ClockTime`, nothing overflows and the offset is
  the one that is meant; when they are other numbers, the function goes wrong unless their seconds
  are a day or more, which chrono refuses.
* So the condition is about the text alone (`Readable`), and the theorem is an equivalence.
-/

namespace Limpid.Functions

open Decimal

/-! ## The function -/

/-- How a function ends that does not return. -/
inductive Fault where
  | panic
  | overflow
deriving DecidableEq

/-- The values of an `i32`. -/
def FitsInt32 (n : ℤ) : Prop := -2 ^ 31 ≤ n ∧ n < 2 ^ 31

instance (n : ℤ) : Decidable (FitsInt32 n) := inferInstanceAs (Decidable (_ ∧ _))

/-- The result of an operation on `i32`. -/
def int32 (n : ℤ) : Except Fault ℤ := if FitsInt32 n then .ok n else .error .overflow

/-- `str::parse` on an `i32`. -/
def parseInt32 (text : List Char) : Option ℤ :=
  let number : Option ℤ := match text with
    | '-' :: digits => (parseDigits digits).map fun n : ℕ => -(n : ℤ)
    | text => (parseUnsigned text).map Int.ofNat
  number.filter fun n => decide (FitsInt32 n)

/-- `str::split_once`. -/
def splitOnce (c : Char) : List Char → Option (List Char × List Char)
  | [] => none
  | first :: text =>
    if first = c then some ([], text)
    else (splitOnce c text).map fun parts => (first :: parts.1, parts.2)

/-- What the function relies on in chrono: `FixedOffset::east_opt` makes an offset, here the seconds
it stands for, of less than a day to the east or to the west. -/
structure Chrono where
  eastOpt : ℤ → Option ℤ
  eastOpt_eq : ∀ secs, eastOpt secs = if -86400 < secs ∧ secs < 86400 then some secs else none

/-- `east_opt` as it is documented. -/
def documentedChrono : Chrono where
  eastOpt secs := if -86400 < secs ∧ secs < 86400 then some secs else none
  eastOpt_eq _ := rfl

/-- The factor that a sign stands for. -/
def signOf : Char → Option ℤ
  | '+' => some 1
  | '-' => some (-1)
  | _ => none

/-- `(h_str, m_str)`. -/
def hoursAndMinutes (rest : List Char) : Except Fault (Option (List Char × List Char)) :=
  match splitOnce ':' rest with
  | some parts => .ok (some parts)
  | none =>
    if (utf8 rest).length = 4 then
      match splitAtByte 2 rest with
      | some parts => .ok (some parts)
      | none => .error .panic
    else .ok none

/-- `sign * (h * 3600 + m * 60)`. -/
def secondsOf (sign h m : ℤ) : Except Fault ℤ := do
  let hours ← int32 (h * 3600)
  let minutes ← int32 (m * 60)
  let secs ← int32 (hours + minutes)
  int32 (sign * secs)

/-- `parse_fixed_offset`. -/
def parseFixedOffset (chrono : Chrono) : List Char → Except Fault (Option ℤ)
  | [] => .ok none
  | first :: rest =>
    match signOf first with
    | none => .ok none
    | some sign => do
      match ← hoursAndMinutes rest with
      | none => return none
      | some (hours, minutes) =>
        match parseInt32 hours, parseInt32 minutes with
        | some h, some m => return chrono.eastOpt (← secondsOf sign h m)
        | _, _ => return none

/-- `str::eq_ignore_ascii_case`. -/
def eqIgnoreAsciiCase (text other : List Char) : Bool :=
  text.map Char.toLower == other.map Char.toLower

/-- The zones that `strftime` and `strptime` know; `Tz` are those of `chrono_tz`. -/
inductive Zone (Tz : Type) where
  | localTime
  | utc
  | fixed (offset : ℤ)
  | named (zone : Tz)

/-- The zone argument of `strftime` and `strptime`. -/
def zoneOf {Tz : Type} (chrono : Chrono) (parseTz : List Char → Option Tz) (name : String) (timezone : List Char) :
    Except Fault (Except String (Zone Tz)) :=
  if eqIgnoreAsciiCase timezone "local".toList then .ok (.ok .localTime)
  else if eqIgnoreAsciiCase timezone "UTC".toList then .ok (.ok .utc)
  else do
    match ← parseFixedOffset chrono timezone with
    | some fixed => return .ok (.fixed fixed)
    | none =>
      match parseTz timezone with
      | some zone => return .ok (.named zone)
      | none => return .error (name ++ "(): invalid timezone '" ++ String.ofList timezone ++
          "' (expected 'local', 'UTC', an IANA name, or ±HH:MM)")

/-! ## What it is for -/

/-- Two ASCII digits and the number they spell. -/
def TwoDigits (text : List Char) (n : ℤ) : Prop :=
  ∃ a b : Char, text = [a, b] ∧ a.isDigit ∧ b.isDigit ∧
    n = 10 * (a.toNat - 48) + (b.toNat - 48)

/-- The hours and the minutes of a day. -/
def ClockTime (hours minutes : List Char) (h m : ℤ) : Prop :=
  TwoDigits hours h ∧ TwoDigits minutes m ∧ h < 24 ∧ m < 60

/-- `±HH:MM` or `±HHMM`, and the seconds it stands for. -/
def WellFormed (s : List Char) (offset : ℤ) : Prop :=
  ∃ first sign hours minutes h m, signOf first = some sign ∧ ClockTime hours minutes h m ∧
    (s = first :: (hours ++ ':' :: minutes) ∨ s = first :: (hours ++ minutes)) ∧
    offset = sign * (3600 * h + 60 * m)

/-- The function returns, and an offset exactly where the text is well formed. -/
def TotalAndExact (chrono : Chrono) (s : List Char) : Prop :=
  ∃ result, parseFixedOffset chrono s = .ok result ∧ ∀ offset, result = some offset ↔ WellFormed s offset

/-- The two texts that are read of what follows the sign. -/
def Cut (rest hours minutes : List Char) : Prop :=
  ':' ∉ hours ∧ rest = hours ++ ':' :: minutes ∨
    ':' ∉ rest ∧ rest = hours ++ minutes ∧ (utf8 hours).length = 2 ∧ (utf8 minutes).length = 2

/-- The products and the sum are `i32`. -/
def InRange (h m : ℤ) : Prop :=
  FitsInt32 (h * 3600) ∧ FitsInt32 (m * 60) ∧ FitsInt32 (h * 3600 + m * 60)

/-- What follows the sign can be cut where four bytes are, and the two texts are not numbers, a
time of the day as it should be written, or a day or more. -/
structure Readable (rest : List Char) : Prop where
  cut : ':' ∉ rest → (utf8 rest).length = 4 → ∃ hours minutes, Cut rest hours minutes
  numbers : ∀ hours minutes h m, Cut rest hours minutes → parseInt32 hours = some h →
    parseInt32 minutes = some m →
      ClockTime hours minutes h m ∨ InRange h m ∧ 86400 ≤ |h * 3600 + m * 60|

/-! ## Texts -/

section Texts

variable {c : Char} {text before after rest hours minutes : List Char} {h m n offset : ℤ}

theorem splitOnce_append (hbefore : c ∉ before) :
    splitOnce c (before ++ c :: after) = some (before, after) := by
  induction before with
  | nil => simp [splitOnce]
  | cons a before ih =>
      obtain ⟨hne, hbefore⟩ := List.ne_and_not_mem_of_not_mem_cons hbefore
      rw [List.cons_append, splitOnce, if_neg hne.symm, ih hbefore]
      rfl

theorem splitOnce_eq_some (h : splitOnce c text = some (before, after)) :
    c ∉ before ∧ text = before ++ c :: after := by
  induction text generalizing before with
  | nil => exact nomatch h
  | cons a text ih =>
      rw [splitOnce] at h
      split_ifs at h with ha
      · cases h
        exact ⟨List.not_mem_nil, by rw [ha, List.nil_append]⟩
      · obtain ⟨parts, hparts, heq⟩ := Option.map_eq_some_iff.mp h
        cases heq
        obtain ⟨hbefore, rfl⟩ := ih hparts
        exact ⟨List.not_mem_cons_of_ne_of_not_mem (Ne.symm ha) hbefore, rfl⟩

theorem splitOnce_eq_none_iff : splitOnce c text = none ↔ c ∉ text := by
  induction text with
  | nil => simp [splitOnce]
  | cons a text ih =>
      rw [splitOnce, List.mem_cons, not_or]
      split_ifs with ha
      · simp [ha]
      · rw [Option.map_eq_none_iff, ih]
        exact (and_iff_right (Ne.symm ha)).symm

/-- The function finds the two texts where there are any. -/
theorem hoursAndMinutes_eq_some_iff :
    hoursAndMinutes rest = .ok (some (hours, minutes)) ↔ Cut rest hours minutes := by
  unfold hoursAndMinutes
  constructor
  · intro h
    cases hsplit : splitOnce ':' rest with
    | some parts =>
        rw [hsplit] at h
        cases h
        exact .inl (splitOnce_eq_some hsplit)
    | none =>
        simp only [hsplit] at h
        split_ifs at h with hlength
        · cases hcut : splitAtByte 2 rest with
          | none => simp only [hcut, reduceCtorEq] at h
          | some parts =>
              rw [hcut] at h
              cases h
              obtain ⟨rfl, hhours⟩ := splitAtByte_eq_some hcut
              rw [utf8_length_append, ← hhours] at hlength
              exact .inr ⟨splitOnce_eq_none_iff.mp hsplit, rfl, hhours.symm, by omega⟩
        · exact nomatch Except.ok.inj h
  · rintro (⟨hhours, rfl⟩ | ⟨hcolon, rfl, hhours, hminutes⟩)
    · rw [splitOnce_append hhours]
    · have hlength : (utf8 (hours ++ minutes)).length = 4 := by
        rw [utf8_length_append, hhours, hminutes]
      have hcut := splitAtByte_utf8 hours minutes
      rw [hhours] at hcut
      simp only [splitOnce_eq_none_iff.mpr hcolon, if_pos hlength, hcut]

/-- The function panics where four bytes cannot be cut in the middle. -/
theorem hoursAndMinutes_eq_error {fault : Fault} (h : hoursAndMinutes rest = .error fault) :
    ':' ∉ rest ∧ (utf8 rest).length = 4 := by
  unfold hoursAndMinutes at h
  cases hsplit : splitOnce ':' rest with
  | some parts => rw [hsplit] at h; exact nomatch h
  | none =>
      simp only [hsplit] at h
      split_ifs at h with hlength
      · exact ⟨splitOnce_eq_none_iff.mp hsplit, hlength⟩

end Texts

/-! ## Digits -/

section Digits

variable {text rest hours minutes : List Char} {h m n offset : ℤ}

theorem isDigit_bounds {c : Char} (hc : c.isDigit) : 48 ≤ c.toNat ∧ c.toNat ≤ 57 := by
  simpa [Char.isDigit, UInt32.le_iff_toNat_le] using hc

theorem TwoDigits.bounds (htext : TwoDigits text n) : 0 ≤ n ∧ n ≤ 99 := by
  obtain ⟨a, b, -, ha, hb, rfl⟩ := htext
  have ha := isDigit_bounds ha
  have hb := isDigit_bounds hb
  omega

theorem TwoDigits.utf8_length (htext : TwoDigits text n) : (utf8 text).length = 2 := by
  obtain ⟨a, b, rfl, ha, hb, -⟩ := htext
  have ha := isDigit_bounds ha
  have hb := isDigit_bounds hb
  rw [utf8_of_ascii, List.length_map]
  · rfl
  · simp only [List.forall_mem_cons]
    exact ⟨by omega, by omega, List.forall_mem_nil _⟩

theorem TwoDigits.colon_notMem (htext : TwoDigits text n) : ':' ∉ text := by
  obtain ⟨a, b, rfl, ha, hb, -⟩ := htext
  have hcolon : ∀ c : Char, c.isDigit → ':' ≠ c := by
    rintro c hc rfl
    exact absurd hc (by decide)
  simp [hcolon a ha, hcolon b hb]

theorem TwoDigits.parseInt32_eq (htext : TwoDigits text n) : parseInt32 text = some n := by
  have hbounds := htext.bounds
  obtain ⟨a, b, rfl, ha, hb, rfl⟩ := htext
  have hsign : ∀ c : Char, c.isDigit → c ≠ '-' ∧ c ≠ '+' := by
    rintro c hc
    constructor <;> rintro rfl <;> exact absurd hc (by decide)
  have hread : parseUnsigned [a, b] = some (10 * (a.toNat - 48) + (b.toNat - 48)) := by
    unfold parseUnsigned
    split
    · next heq => exact absurd (List.cons.inj heq).1 (hsign a ha).2
    · rw [parseDigits, if_pos ⟨List.cons_ne_nil a [b], by simp [ha, hb]⟩]
      simp [Nat.ofDigitChars]
  have hvalue : ((10 * (a.toNat - 48) + (b.toNat - 48) : ℕ) : ℤ) =
      10 * ((a.toNat : ℤ) - 48) + ((b.toNat : ℤ) - 48) := by
    have ha := isDigit_bounds ha
    have hb := isDigit_bounds hb
    omega
  unfold parseInt32
  split
  · next heq => exact absurd (List.cons.inj heq).1 (hsign a ha).1
  · rw [hread, Option.map_some, Int.ofNat_eq_natCast, hvalue]
    dsimp only
    rw [Option.filter_some]
    refine if_pos (decide_eq_true ⟨?_, ?_⟩) <;> omega

/-- The texts of a time of the day are the ones that are read. -/
theorem ClockTime.cut (htime : ClockTime hours minutes h m)
    (hrest : rest = hours ++ ':' :: minutes ∨ rest = hours ++ minutes) :
    Cut rest hours minutes := by
  obtain ⟨hhours, hminutes, -, -⟩ := htime
  rcases hrest with rfl | rfl
  · exact .inl ⟨hhours.colon_notMem, rfl⟩
  · refine .inr ⟨?_, rfl, hhours.utf8_length, hminutes.utf8_length⟩
    rw [List.mem_append, not_or]
    exact ⟨hhours.colon_notMem, hminutes.colon_notMem⟩

theorem ClockTime.lt_day (htime : ClockTime hours minutes h m) :
    |h * 3600 + m * 60| < 86400 := by
  obtain ⟨hhours, hminutes, hh, hm⟩ := htime
  have hhours := hhours.bounds
  have hminutes := hminutes.bounds
  rw [abs_lt]
  constructor <;> omega

end Digits

/-! ## Seconds -/

section Seconds

variable {first : Char} {sign h m : ℤ}

theorem isSign_iff : first = '+' ∨ first = '-' ↔ ∃ sign, signOf first = some sign := by
  unfold signOf
  constructor
  · rintro (rfl | rfl)
    · exact ⟨1, rfl⟩
    · exact ⟨-1, rfl⟩
  · rintro ⟨sign, hsign⟩
    split at hsign
    · exact .inl rfl
    · exact .inr rfl
    · exact nomatch hsign

theorem signOf_eq_some (hsign : signOf first = some sign) : sign = 1 ∨ sign = -1 := by
  unfold signOf at hsign
  split at hsign <;> simp_all

theorem secondsOf_eq (hsign : sign = 1 ∨ sign = -1) (hrange : InRange h m) :
    secondsOf sign h m = .ok (sign * (h * 3600 + m * 60)) := by
  obtain ⟨hhours, hminutes, hsum⟩ := hrange
  have hproduct : FitsInt32 (sign * (h * 3600 + m * 60)) := by
    unfold FitsInt32 at hsum ⊢
    rcases hsign with rfl | rfl <;> omega
  simp only [secondsOf, int32, if_pos hhours, if_pos hminutes, bind, Except.bind, if_pos hsum,
    if_pos hproduct]

theorem secondsOf_eq_error (hrange : ¬InRange h m) : secondsOf sign h m = .error .overflow := by
  unfold secondsOf int32
  by_cases hhours : FitsInt32 (h * 3600)
  · by_cases hminutes : FitsInt32 (m * 60)
    · have hsum : ¬FitsInt32 (h * 3600 + m * 60) := fun hsum => hrange ⟨hhours, hminutes, hsum⟩
      simp only [if_pos hhours, if_pos hminutes, bind, Except.bind, if_neg hsum]
    · simp only [if_pos hhours, bind, Except.bind, if_neg hminutes]
  · simp only [if_neg hhours, bind, Except.bind]

theorem eastOpt_sign (chrono : Chrono) (hsign : sign = 1 ∨ sign = -1) (n : ℤ) :
    chrono.eastOpt (sign * n) = if |n| < 86400 then some (sign * n) else none := by
  rw [chrono.eastOpt_eq]
  refine if_congr ?_ rfl rfl
  rw [abs_lt]
  rcases hsign with rfl | rfl <;> omega

end Seconds

/-! ## Total and exact -/

section Exact

variable {chrono : Chrono} {first : Char} {rest hours minutes s : List Char} {sign h m : ℤ}

theorem wellFormed_cons_iff {offset : ℤ} (hsign : signOf first = some sign) :
    WellFormed (first :: rest) offset ↔ ∃ hours minutes h m, Cut rest hours minutes ∧
      ClockTime hours minutes h m ∧ offset = sign * (h * 3600 + m * 60) := by
  constructor
  · rintro ⟨other, sign', hours, minutes, h, m, hsign', htime, hs, rfl⟩
    have hrest : first = other ∧ (rest = hours ++ ':' :: minutes ∨ rest = hours ++ minutes) := by
      rcases hs with hs | hs <;> obtain ⟨rfl, rfl⟩ := List.cons.inj hs <;> simp
    obtain ⟨rfl, hrest⟩ := hrest
    rw [hsign] at hsign'
    cases hsign'
    exact ⟨hours, minutes, h, m, htime.cut hrest, htime,
      congrArg (sign * ·) (by omega)⟩
  · rintro ⟨hours, minutes, h, m, hcut, htime, rfl⟩
    refine ⟨first, sign, hours, minutes, h, m, hsign, htime, ?_, congrArg (sign * ·) (by omega)⟩
    rcases hcut with ⟨-, rfl⟩ | ⟨-, rfl, -⟩
    · exact .inl rfl
    · exact .inr rfl

theorem not_wellFormed_of_signOf {offset : ℤ} (hsign : signOf first = none) :
    ¬WellFormed (first :: rest) offset := by
  rintro ⟨other, sign', hours, minutes, h, m, hsign', -, hs, -⟩
  rcases hs with hs | hs <;> rw [(List.cons.inj hs).1, hsign'] at hsign <;> exact nomatch hsign

/-- What the two texts are read as. -/
theorem parseFixedOffset_cut (chrono : Chrono) (hsign : signOf first = some sign) (hcut : Cut rest hours minutes) :
    parseFixedOffset chrono (first :: rest) =
      match parseInt32 hours, parseInt32 minutes with
      | some h, some m => (secondsOf sign h m).map chrono.eastOpt
      | _, _ => .ok none := by
  rw [parseFixedOffset]
  simp only [hsign, hoursAndMinutes_eq_some_iff.mpr hcut, bind, Except.bind]
  cases parseInt32 hours with
  | none => rfl
  | some h =>
      cases parseInt32 minutes with
      | none => rfl
      | some m => cases secondsOf sign h m <;> rfl

theorem Cut.unique {hours' minutes' : List Char} (hcut : Cut rest hours minutes)
    (hcut' : Cut rest hours' minutes') : hours = hours' ∧ minutes = minutes' := by
  have hread := hoursAndMinutes_eq_some_iff.mpr hcut
  rw [hoursAndMinutes_eq_some_iff.mpr hcut'] at hread
  cases hread
  exact ⟨rfl, rfl⟩

theorem wellFormed_cut_iff {offset : ℤ} (hsign : signOf first = some sign)
    (hcut : Cut rest hours minutes) : WellFormed (first :: rest) offset ↔
      ∃ h m, ClockTime hours minutes h m ∧ offset = sign * (h * 3600 + m * 60) := by
  rw [wellFormed_cons_iff hsign]
  constructor
  · rintro ⟨hours', minutes', h, m, hcut', htime, rfl⟩
    obtain ⟨rfl, rfl⟩ := hcut.unique hcut'
    exact ⟨h, m, htime, rfl⟩
  · rintro ⟨h, m, htime, rfl⟩
    exact ⟨hours, minutes, h, m, hcut, htime, rfl⟩

/-- The numbers of a time of the day are the ones that are read. -/
theorem ClockTime.numbers (htime : ClockTime hours minutes h m) :
    parseInt32 hours = some h ∧ parseInt32 minutes = some m ∧ InRange h m := by
  obtain ⟨hhours, hminutes, -, -⟩ := htime
  refine ⟨hhours.parseInt32_eq, hminutes.parseInt32_eq, ?_⟩
  have hhours := hhours.bounds
  have hminutes := hminutes.bounds
  unfold InRange FitsInt32
  omega

theorem readable_of_totalAndExact (hsign : signOf first = some sign)
    (htotal : TotalAndExact chrono (first :: rest)) : Readable rest := by
  obtain ⟨result, hrun, hexact⟩ := htotal
  refine ⟨fun hcolon hlength => ?_, fun hours minutes h m hcut hh hm => ?_⟩
  · rw [parseFixedOffset] at hrun
    have hfour : splitOnce ':' rest = none := splitOnce_eq_none_iff.mpr hcolon
    cases hcut : splitAtByte 2 rest with
    | none =>
        simp only [hsign, hoursAndMinutes, hfour, if_pos hlength, hcut, bind, Except.bind,
          reduceCtorEq] at hrun
    | some parts =>
        refine ⟨parts.1, parts.2, hoursAndMinutes_eq_some_iff.mp ?_⟩
        simp only [hoursAndMinutes, hfour, if_pos hlength, hcut]
  · rw [parseFixedOffset_cut chrono hsign hcut, hh, hm] at hrun
    dsimp only at hrun
    by_cases hrange : InRange h m
    · rw [secondsOf_eq (signOf_eq_some hsign) hrange] at hrun
      cases hrun
      rw [eastOpt_sign chrono (signOf_eq_some hsign)] at hexact
      by_cases hday : |h * 3600 + m * 60| < 86400
      · obtain ⟨h', m', htime, -⟩ :=
          (wellFormed_cut_iff hsign hcut).mp ((hexact _).mp (if_pos hday))
        obtain ⟨hh', hm', -⟩ := htime.numbers
        cases hh.symm.trans hh'
        cases hm.symm.trans hm'
        exact .inl htime
      · exact .inr ⟨hrange, not_lt.mp hday⟩
    · rw [secondsOf_eq_error hrange] at hrun
      exact nomatch hrun

theorem totalAndExact_of_readable (hsign : signOf first = some sign) (hread : Readable rest) :
    TotalAndExact chrono (first :: rest) := by
  cases hparts : hoursAndMinutes rest with
  | error fault =>
      obtain ⟨hcolon, hlength⟩ := hoursAndMinutes_eq_error hparts
      obtain ⟨hours, minutes, hcut⟩ := hread.cut hcolon hlength
      rw [hoursAndMinutes_eq_some_iff.mpr hcut] at hparts
      exact nomatch hparts
  | ok parts =>
    cases parts with
    | none =>
        refine ⟨none, by simp only [parseFixedOffset, hsign, hparts, bind, Except.bind]; rfl,
          fun offset => iff_of_false (nomatch ·) fun hwell => ?_⟩
        obtain ⟨hours, minutes, h, m, hcut, -⟩ := (wellFormed_cons_iff hsign).mp hwell
        rw [hoursAndMinutes_eq_some_iff.mpr hcut] at hparts
        exact nomatch Except.ok.inj hparts
    | some parts =>
        obtain ⟨hours, minutes⟩ := parts
        have hcut := hoursAndMinutes_eq_some_iff.mp hparts
        have hrun := parseFixedOffset_cut chrono hsign hcut
        -- Where one of the texts is not a number, nothing is read and nothing is well formed.
        have hnone : (∀ h m, parseInt32 hours = some h → parseInt32 minutes = some m → False) →
            TotalAndExact chrono (first :: rest) := by
          intro hnot
          refine ⟨none, ?_, fun offset => iff_of_false (nomatch ·) fun hwell => ?_⟩
          · rw [hrun]
            split
            · next h m hh hm => exact (hnot h m hh hm).elim
            · rfl
          · obtain ⟨h, m, htime, -⟩ := (wellFormed_cut_iff hsign hcut).mp hwell
            exact hnot h m htime.numbers.1 htime.numbers.2.1
        cases hh : parseInt32 hours with
        | none => exact hnone fun h m hh' => by rw [hh] at hh'; exact nomatch hh'
        | some h =>
          cases hm : parseInt32 minutes with
          | none => exact hnone fun h m _ hm' => by rw [hm] at hm'; exact nomatch hm'
          | some m =>
              simp only [hh, hm] at hrun
              rcases hread.numbers hours minutes h m hcut hh hm with htime | ⟨hrange, hday⟩
              · rw [secondsOf_eq (signOf_eq_some hsign) htime.numbers.2.2] at hrun
                refine ⟨_, hrun, fun offset => ?_⟩
                rw [eastOpt_sign chrono (signOf_eq_some hsign), if_pos htime.lt_day,
                  wellFormed_cut_iff hsign hcut, Option.some.injEq]
                constructor
                · rintro rfl
                  exact ⟨h, m, htime, rfl⟩
                · rintro ⟨h', m', htime', rfl⟩
                  cases hh.symm.trans htime'.numbers.1
                  cases hm.symm.trans htime'.numbers.2.1
                  rfl
              · rw [secondsOf_eq (signOf_eq_some hsign) hrange] at hrun
                refine ⟨_, hrun, fun offset => ?_⟩
                rw [eastOpt_sign chrono (signOf_eq_some hsign), if_neg (not_lt.mpr hday),
                  wellFormed_cut_iff hsign hcut]
                refine iff_of_false (nomatch ·) ?_
                rintro ⟨h', m', htime', -⟩
                cases hh.symm.trans htime'.numbers.1
                cases hm.symm.trans htime'.numbers.2.1
                exact absurd htime'.lt_day (not_lt.mpr hday)

end Exact

/-- **The offset of a zone is total and exact** where what follows a sign is readable, and
nowhere else. -/
theorem totalAndExact_iff (chrono : Chrono) (s : List Char) : TotalAndExact chrono s ↔
    ∀ first rest, s = first :: rest → first = '+' ∨ first = '-' → Readable rest := by
  cases s with
  | nil =>
      refine iff_of_true ⟨none, rfl, fun offset => iff_of_false (nomatch ·) ?_⟩
        fun _ _ h => nomatch h
      rintro ⟨first, sign, hours, minutes, h, m, -, -, hs | hs, -⟩ <;> exact nomatch hs
  | cons first rest =>
      constructor
      · rintro htotal _ _ ⟨rfl, rfl⟩ hfirst
        obtain ⟨sign, hsign⟩ := isSign_iff.mp hfirst
        exact readable_of_totalAndExact hsign htotal
      · intro hread
        cases hsign : signOf first with
        | none =>
            refine ⟨none, by rw [parseFixedOffset, hsign], fun offset => ?_⟩
            exact iff_of_false (nomatch ·) (not_wellFormed_of_signOf hsign)
        | some sign =>
            exact totalAndExact_of_readable hsign
              (hread first rest rfl (isSign_iff.mpr ⟨sign, hsign⟩))

/-- Sixty minutes and more are read as minutes, and signs and single digits as hours. -/
example : parseFixedOffset documentedChrono "+00:99".toList = .ok (some 5940) := by decide
example : parseFixedOffset documentedChrono "+-1:2".toList = .ok (some (-3480)) := by decide

/-- A zone of four bytes with a two-byte letter in the middle. -/
theorem parseFixedOffset_panics :
    parseFixedOffset documentedChrono "+aé1".toList = .error .panic ∧
      ¬TotalAndExact documentedChrono "+aé1".toList := by
  have hpanic : parseFixedOffset documentedChrono "+aé1".toList = .error .panic := by decide
  refine ⟨hpanic, ?_⟩
  rintro ⟨result, hrun, -⟩
  rw [hpanic] at hrun
  exact nomatch hrun

/-! ## Zones -/

section Zones

variable {Tz : Type} {chrono : Chrono} {parseTz : List Char → Option Tz} {name : String} {first : Char}
  {rest : List Char} {sign : ℤ}

/-- A text with a sign is no name of a zone. -/
theorem zoneOf_signed (hsign : signOf first = some sign) :
    zoneOf chrono parseTz name (first :: rest) = do
      match ← parseFixedOffset chrono (first :: rest) with
      | some fixed => return .ok (.fixed fixed)
      | none =>
        match parseTz (first :: rest) with
        | some zone => return .ok (.named zone)
        | none => return .error (name ++ "(): invalid timezone '" ++
            String.ofList (first :: rest) ++
            "' (expected 'local', 'UTC', an IANA name, or ±HH:MM)") := by
  have hcase : ∀ other text, eqIgnoreAsciiCase (first :: rest) (other :: text) →
      first.toLower = other.toLower := by
    intro other text heq
    exact (List.cons.inj (beq_iff_eq.mp heq)).1
  have hfirst : first = '+' ∨ first = '-' := isSign_iff.mpr ⟨sign, hsign⟩
  rw [zoneOf, if_neg, if_neg]
  · intro heq
    have heq := hcase _ _ heq
    rcases hfirst with rfl | rfl <;> exact absurd heq (by decide)
  · intro heq
    have heq := hcase _ _ heq
    rcases hfirst with rfl | rfl <;> exact absurd heq (by decide)

/-- **A well-formed offset is the zone it stands for.** -/
theorem zoneOf_wellFormed {s : List Char} {offset : ℤ} (hwell : WellFormed s offset) :
    zoneOf chrono parseTz name s = .ok (.ok (.fixed offset)) := by
  obtain ⟨first, sign, hours, minutes, h, m, hsign, htime, hs, hoffset⟩ := id hwell
  obtain ⟨rest, rfl⟩ : ∃ rest, s = first :: rest := hs.elim (⟨_, ·⟩) (⟨_, ·⟩)
  rw [zoneOf_signed hsign]
  have hcut : Cut rest hours minutes :=
    htime.cut (hs.imp (fun hs => (List.cons.inj hs).2) (fun hs => (List.cons.inj hs).2))
  have hsecs := signOf_eq_some hsign
  have hrun : parseFixedOffset chrono (first :: rest) = .ok (some offset) := by
    rw [parseFixedOffset_cut chrono hsign hcut, htime.numbers.1, htime.numbers.2.1]
    dsimp only
    rw [secondsOf_eq hsecs htime.numbers.2.2, Except.map, eastOpt_sign chrono hsecs,
      if_pos htime.lt_day, hoffset]
    exact congrArg _ (congrArg _ (congrArg (sign * ·) (by omega)))
  rw [hrun]
  rfl

end Zones

end Limpid.Functions
