import Limpid.Functions.Primitives

/-!
# The priority of a message

`functions/syslog/pri.rs` and the functions over it (`extract_pri.rs`, `strip_pri.rs`,
`set_pri.rs`), and the check of the inputs, `modules/input/validate.rs`.

Both recognisers look for the `>`, at different places.  The inputs take it at the index 2, 3 or 4,
behind one to three digits; `parse_leading_pri` looks at the first six bytes, and so takes four
digits also, when the first is a zero (`parseLeadingPri_eq_some_iff`, `validatePri_eq_ok_iff`).
-/

namespace Limpid.Functions.Syslog

open Decimal
open Dsl (Runtime Value)

/-! ## The functions -/

section Functions

variable (rt : Runtime)

/-- `syslog.extract_pri`. -/
def extractPri (value : Value) : Except String Value := do
  let input ← valToStr rt value
  match parseLeadingPri input.toList with
  | some (n, _) => return .int (Int64.ofNat n)
  | none => return .null

/-- `&text[offset..]` behind a header, the text where there is none. -/
def bodyOf (text : List Char) : Option (List Char) :=
  match parseLeadingPri text with
  | some (_, offset) => (splitAtByte offset text).map Prod.snd
  | none => some text

/-- `syslog.strip_pri`: none when the slice panics. -/
def stripPri (value : Value) : Option (Except String Value) :=
  match valToStr rt value with
  | .error message => some (.error message)
  | .ok input => (bodyOf input.toList).map fun stripped => .ok (.string (String.ofList stripped))

/-- `arg_as_u8`; `asUInt` is the cast of a `f64`. -/
def argAsU8 (asUInt : Dsl.F64 → UInt64) (value : Value) (name : String) (max : ℕ) :
    Except String ℕ :=
  let bounded := fun n : ℕ =>
    if n > max then .error s!"syslog.set_pri(): {name} must be 0-{max}, got {n}" else .ok n
  let refused := .error s!"syslog.set_pri(): {name} must be a non-negative integer"
  match value with
  | .int n => if 0 ≤ n then bounded n.toInt.toNat else refused
  | .float f =>
    if rt.isFinite f ∧ (rt.partialCmp f .zero = some .gt ∨ rt.partialCmp f .zero = some .eq) ∧
        rt.eq (rt.fract f) .zero then
      bounded (asUInt f).toNat
    else refused
  | _ => refused

def setPriArgs (asUInt : Dsl.F64 → UInt64) (text facility severity : Value) :
    Except String (String × ℕ) := do
  let text ← valToStr rt text
  let facility ← argAsU8 rt asUInt facility "facility" 23
  let severity ← argAsU8 rt asUInt severity "severity" 7
  return (text, facility * 8 + severity)

/-- `syslog.set_pri`: none when the slice panics. -/
def setPri (asUInt : Dsl.F64 → UInt64) (text facility severity : Value) :
    Option (Except String Value) :=
  match setPriArgs rt asUInt text facility severity with
  | .error message => some (.error message)
  | .ok (text, pri) =>
    (bodyOf text.toList).map fun body =>
      .ok (.string (String.ofList ('<' :: (formatNat pri ++ '>' :: body))))

end Functions

/-! ## The check of the inputs -/

/-- Two hexadecimal digits. -/
def hexByte (b : UInt8) : String :=
  String.ofList ((Nat.toDigits 16 b.toNat).leftpad 2 '0')

/-- `validate_pri`; `debugUtf8` is the debug form of `from_utf8`. -/
def validatePri (debugUtf8 : Bytes → String) (msg : Bytes) : Except String Unit :=
  match msg with
  | [] => .error "empty message"
  | first :: _ =>
    if first ≠ 60 then
      .error s!"message does not start with '<' (got 0x{hexByte first})"
    else
      match msg.findIdx? (· = 62) with
      | some pos =>
        if 2 ≤ pos ∧ pos ≤ 4 then
          let prival := (msg.take pos).drop 1
          match if prival.all isAsciiDigit then
              parseUnsigned (prival.map fun b => Char.ofNat b.toNat) else none with
          | some n => if n ≤ 191 then .ok () else .error s!"PRI value {n} out of range (0–191)"
          | none => .error s!"invalid PRI content: {debugUtf8 prival}"
        else .error s!"'>' at unexpected position {pos}"
      | none => .error "no closing '>' in PRI"

/-! ## Headers -/

/-- **The inputs take the headers of one to three digits.** -/
theorem validatePri_eq_ok_iff {debugUtf8 : Bytes → String} {msg : Bytes} :
    validatePri debugUtf8 msg = .ok () ↔ ∃ digits body, IsHeader 3 msg digits body := by
  constructor
  · intro h
    unfold validatePri at h
    split at h
    · cases h
    · rename_i first rest
      split_ifs at h with hfirst
      obtain rfl : first = 60 := not_not.mp hfirst
      split at h
      · rename_i pos hfind
        split_ifs at h with hpos
        dsimp only at h
        split at h
        · rename_i n hn
          split_ifs at h with hle
          split_ifs at hn with hall
          have hne : ((60 :: rest).take pos).drop 1 ≠ [] := by
            intro hnil
            rw [hnil] at hn
            cases hn
          have hvalue := parseUnsigned_digits hne (List.all_eq_true.mp hall)
          rw [hn, Option.some.injEq] at hvalue
          obtain ⟨digits, body, hheader, -⟩ := @isHeader_of_findIdx 3 _ _ hfind hpos.1
            (by omega) hall (by omega)
          exact ⟨digits, body, hheader⟩
        · cases h
      · cases h
  · rintro ⟨digits, body, h⟩
    have hlength := h.length_le
    have hpos : 0 < digits.length := List.length_pos_of_ne_nil h.nonempty
    have hdigits : (msg.take (digits.length + 1)).drop 1 = digits := by simp [h.bytes_eq]
    have hfind := h.findIdx
    obtain rfl := h.bytes_eq
    simp only [validatePri, ne_eq, not_true_eq_false, if_false, hfind, hdigits,
      List.all_eq_true.mpr h.all_digits, if_true, parseUnsigned_digits h.nonempty h.all_digits]
    rw [if_pos (by omega), if_pos h.value_le]

/-- The parts of a header are determined. -/
theorem IsHeader.unique {max max' : ℕ} {bytes digits digits' body body' : Bytes}
    (h : IsHeader max bytes digits body) (h' : IsHeader max' bytes digits' body') :
    digits = digits' ∧ body = body' := by
  have hlength : digits.length = digits'.length := by
    have hfind := h.findIdx
    rw [h'.findIdx] at hfind
    exact (Nat.add_right_cancel (Option.some.inj hfind)).symm
  have heq : digits ++ 62 :: body = digits' ++ 62 :: body' := by
    have hbytes := h.bytes_eq
    rw [h'.bytes_eq] at hbytes
    exact (List.cons.inj hbytes).2.symm
  obtain ⟨hdigits, hbody⟩ := List.append_inj heq hlength
  exact ⟨hdigits, (List.cons.inj hbody).2⟩

/-- A zero stands before a priority of three digits. -/
def IsZeroPadded (bytes : Bytes) : Prop :=
  ∃ digits body, bytes = 60 :: 48 :: (digits ++ 62 :: body) ∧ digits.length = 3 ∧
    (∀ b ∈ digits, isAsciiDigit b) ∧ priValue digits ≤ 191

/-- Four digits up to 191 begin with a zero. -/
theorem isZeroPadded_iff {bytes : Bytes} :
    IsZeroPadded bytes ↔ ∃ digits body, IsHeader 4 bytes digits body ∧ digits.length = 4 := by
  constructor
  · rintro ⟨digits, body, rfl, hlength, hall, hvalue⟩
    refine ⟨48 :: digits, body, ⟨rfl, List.cons_ne_nil _ _, ?_, ?_, hvalue⟩, ?_⟩
    · simp [hlength]
    · exact List.forall_mem_cons.mpr ⟨by decide, hall⟩
    · simp [hlength]
  · rintro ⟨digits, body, h, hlength⟩
    obtain ⟨b, rest, rfl⟩ : ∃ b rest, digits = b :: rest :=
      List.exists_cons_of_length_pos (by omega)
    obtain ⟨hb, hrest⟩ := List.forall_mem_cons.mp h.all_digits
    obtain ⟨b₁, b₂, b₃, rfl⟩ : ∃ b₁ b₂ b₃, rest = [b₁, b₂, b₃] :=
      List.length_eq_three.mp (by simpa using hlength)
    have hvalue := h.value_le
    have hge : 48 ≤ b.toNat := by
      have hbounds : 48 ≤ b ∧ b ≤ 57 := by simpa [isAsciiDigit] using hb
      exact UInt8.le_iff_toNat_le.mp hbounds.1
    -- the first of four digits counts a thousand
    obtain rfl : b = 48 := by
      simp only [priValue, List.foldl_cons, List.foldl_nil] at hvalue
      apply UInt8.toNat_inj.mp
      show b.toNat = 48
      omega
    exact ⟨[b₁, b₂, b₃], body, h.bytes_eq, rfl, hrest, hvalue⟩

/-- `<`, one to three digits with a value up to 191, and `>`. -/
def HasPri (bytes : Bytes) : Prop := ∃ digits body, IsHeader 3 bytes digits body

theorem isSome_parseLeadingPri_iff {text : List Char} :
    (parseLeadingPri text).isSome ↔ HasPri (utf8 text) ∨ IsZeroPadded (utf8 text) := by
  rw [isZeroPadded_iff, Option.isSome_iff_exists]
  constructor
  · rintro ⟨⟨n, offset⟩, h⟩
    obtain ⟨digits, body, hheader, -⟩ := parseLeadingPri_eq_some_iff.mp h
    rcases Nat.lt_or_ge digits.length 4 with hlt | hge
    · have hle : digits.length ≤ 3 := Nat.le_of_lt_succ hlt
      exact .inl ⟨digits, body, { hheader with length_le := hle }⟩
    · exact .inr ⟨digits, body, hheader, hheader.length_le.antisymm hge⟩
  · intro h
    obtain ⟨digits, body, hheader⟩ : ∃ digits body, IsHeader 4 (utf8 text) digits body := by
      rcases h with ⟨digits, body, hheader⟩ | ⟨digits, body, hheader, -⟩
      · exact ⟨digits, body, hheader.mono (by decide)⟩
      · exact ⟨digits, body, hheader⟩
    exact ⟨_, parseLeadingPri_eq_some_iff.mpr ⟨digits, body, hheader, rfl, rfl⟩⟩

/-- Three digits are not four. -/
theorem not_isZeroPadded_of_hasPri {bytes : Bytes} (h : HasPri bytes) : ¬ IsZeroPadded bytes := by
  intro hpadded
  obtain ⟨digits, body, hheader, hlength⟩ := isZeroPadded_iff.mp hpadded
  obtain ⟨digits', body', hheader'⟩ := h
  have hle := hheader'.length_le
  rw [← (hheader.unique hheader').1] at hle
  omega

/-! ## Rewriting -/

/-- The priority of a facility and a severity. -/
def priority (facility : Fin 24) (severity : Fin 8) : ℕ := facility * 8 + severity

theorem priority_le (facility : Fin 24) (severity : Fin 8) : priority facility severity ≤ 191 := by
  unfold priority
  omega

theorem parseLeadingPri_header {n : ℕ} (hn : n ≤ 191) (body : List Char) :
    parseLeadingPri ('<' :: (formatNat n ++ '>' :: body)) =
      some (n, (formatNat n).length + 2) := by
  obtain ⟨hheader, hvalue, hlength⟩ := isHeader_formatNat hn body
  exact parseLeadingPri_eq_some_iff.mpr
    ⟨_, _, hheader.mono (by decide), hvalue.symm, by rw [hlength]⟩

theorem bodyOf_header {n : ℕ} (hn : n ≤ 191) (body : List Char) :
    bodyOf ('<' :: (formatNat n ++ '>' :: body)) = some body := by
  have hlength : (formatNat n).length + 2 = (utf8 ('<' :: (formatNat n ++ ['>']))).length := by
    obtain ⟨-, -, hlength⟩ := isHeader_formatNat hn body
    have hopen : String.utf8EncodeChar '<' = [60] := rfl
    have hclose : String.utf8EncodeChar '>' = [62] := rfl
    simp [hopen, hclose, ← hlength]
  have hsplit := splitAtByte_utf8 ('<' :: (formatNat n ++ ['>'])) body
  rw [← hlength] at hsplit
  rw [bodyOf, parseLeadingPri_header hn]
  dsimp only
  rw [show '<' :: (formatNat n ++ '>' :: body) = '<' :: (formatNat n ++ ['>']) ++ body by simp,
    hsplit]
  rfl

theorem isSome_bodyOf (text : List Char) : (bodyOf text).isSome := by
  rw [bodyOf]
  split
  · rename_i h
    rw [Option.isSome_map]
    exact isSome_splitAtByte_of_parseLeadingPri h
  · rfl

section Rewriting

variable (rt : Runtime) (asUInt : Dsl.F64 → UInt64)

theorem argAsU8_int {n max : ℕ} (name : String) (hmax : max < 256) (hn : n ≤ max) :
    argAsU8 rt asUInt (.int (Int64.ofNat n)) name max = .ok n := by
  have hint : (Int64.ofNat n).toInt = n := Int64.toInt_ofNat_of_lt (by omega)
  have hnonneg : 0 ≤ Int64.ofNat n := by
    rw [Int64.le_iff_toInt_le, hint]
    exact Int.natCast_nonneg n
  unfold argAsU8
  dsimp only
  rw [if_pos hnonneg, if_neg (by rw [hint, Int.toNat_natCast]; omega), hint, Int.toNat_natCast]

/-- A header with the priority, and the body. -/
theorem setPri_string (s : String) (facility : Fin 24) (severity : Fin 8) :
    setPri rt asUInt (.string s) (.int (Int64.ofNat facility)) (.int (Int64.ofNat severity)) =
      (bodyOf s.toList).map fun body =>
        .ok (.string (String.ofList
          ('<' :: (formatNat (priority facility severity) ++ '>' :: body)))) := by
  have hfacility := argAsU8_int rt asUInt "facility" (by decide : 23 < 256)
    (Nat.le_of_lt_succ facility.isLt)
  have hseverity := argAsU8_int rt asUInt "severity" (by decide : 7 < 256)
    (Nat.le_of_lt_succ severity.isLt)
  have hargs : setPriArgs rt asUInt (.string s) (.int (Int64.ofNat facility))
      (.int (Int64.ofNat severity)) = .ok (s, priority facility severity) := by
    rw [setPriArgs, valToStr_string, hfacility, hseverity]
    rfl
  rw [setPri, hargs]

/-- **The recognisers disagree exactly at zero-padded priorities, and the functions over the
priority agree with one another on every text.** -/
theorem pri_agreement (debugUtf8 : Bytes → String) :
    (∀ text : List Char,
      (((parseLeadingPri text).isSome ↔ HasPri (utf8 text)) ∧
        ((parseLeadingPri text).isSome ↔ validatePri debugUtf8 (utf8 text) = .ok ())) ↔
          ¬ IsZeroPadded (utf8 text)) ∧
    (∀ msg : Bytes, validatePri debugUtf8 msg = .ok () ↔ HasPri msg) ∧
    ∀ (s : String) (facility : Fin 24) (severity : Fin 8), ∃ out : String,
      setPri rt asUInt (.string s) (.int (Int64.ofNat facility)) (.int (Int64.ofNat severity)) =
        some (.ok (.string out)) ∧
      extractPri rt (.string out) = .ok (.int (Int64.ofNat (8 * facility + severity))) ∧
      stripPri rt (.string out) = stripPri rt (.string s) ∧
      setPri rt asUInt (.string out) (.int (Int64.ofNat facility))
        (.int (Int64.ofNat severity)) = some (.ok (.string out)) := by
  refine ⟨fun text => ?_, fun _ => validatePri_eq_ok_iff, fun s facility severity => ?_⟩
  · rw [validatePri_eq_ok_iff, isSome_parseLeadingPri_iff]
    change (_ ∧ (_ ↔ HasPri (utf8 text))) ↔ _
    rw [and_self_iff]
    constructor
    · intro h hpadded
      exact not_isZeroPadded_of_hasPri (h.mp (.inr hpadded)) hpadded
    · intro h
      exact or_iff_left h
  · obtain ⟨body, hbody⟩ := Option.isSome_iff_exists.mp (isSome_bodyOf s.toList)
    have hle := priority_le facility severity
    refine ⟨String.ofList ('<' :: (formatNat (priority facility severity) ++ '>' :: body)),
      ?_, ?_, ?_, ?_⟩
    · rw [setPri_string, hbody]
      rfl
    · rw [extractPri, valToStr_string]
      simp only [bind, Except.bind, String.toList_ofList, parseLeadingPri_header hle]
      rw [priority, Nat.mul_comm]
      rfl
    · rw [stripPri, stripPri, valToStr_string, valToStr_string]
      simp only [String.toList_ofList, bodyOf_header hle, hbody]
    · rw [setPri_string, String.toList_ofList, bodyOf_header hle]
      rfl

end Rewriting

/-- A priority with a zero before it is recognised behind the inputs' back. -/
theorem pri_disagreement :
    (parseLeadingPri "<0013>x".toList).isSome ∧ ¬ HasPri (utf8 "<0013>x".toList) ∧
      ∀ debugUtf8, validatePri debugUtf8 (utf8 "<0013>x".toList) ≠ .ok () := by
  have hpadded : IsZeroPadded (utf8 "<0013>x".toList) :=
    ⟨[48, 49, 51], [120], rfl, rfl, by decide, by decide⟩
  have hnot : ¬ HasPri (utf8 "<0013>x".toList) := fun h => not_isZeroPadded_of_hasPri h hpadded
  exact ⟨isSome_parseLeadingPri_iff.mpr (.inr hpadded), hnot, fun debugUtf8 h =>
    hnot (validatePri_eq_ok_iff.mp h)⟩

end Limpid.Functions.Syslog
