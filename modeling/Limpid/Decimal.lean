import Mathlib.Data.List.DropRight
import Limpid.Bytes

/-!
# Decimal text

Numbers as the program's state files and addresses spell them.  `formatNat` is the `Display`
form of an unsigned integer and `parseUnsigned` is `str::parse` on an unsigned type: an
optional `+`, then one or more digits.  The round trip is `parseUnsigned_formatNat`; around
it, `trim` is `str::trim`, which leaves the digits alone.

Widths are left out here: a caller whose type is narrower checks the bound itself.
-/

namespace Limpid.Decimal

/-- The characters `str::trim` removes: Unicode `White_Space`. -/
def isWhiteSpace (c : Char) : Bool :=
  (9 ≤ c.toNat && c.toNat ≤ 13) || c.toNat = 0x20 || c.toNat = 0x85 || c.toNat = 0xA0 ||
    c.toNat = 0x1680 || (0x2000 ≤ c.toNat && c.toNat ≤ 0x200A) || c.toNat = 0x2028 ||
    c.toNat = 0x2029 || c.toNat = 0x202F || c.toNat = 0x205F || c.toNat = 0x3000

/-- `str::trim`. -/
def trim (text : List Char) : List Char :=
  (text.dropWhile isWhiteSpace).rdropWhile isWhiteSpace

/-- The decimal digits of a number. -/
def formatNat (n : ℕ) : List Char :=
  Nat.toDigits 10 n

/-- A non-empty run of digits and nothing else. -/
def parseDigits (digits : List Char) : Option ℕ :=
  if digits ≠ [] ∧ digits.all Char.isDigit then some (Nat.ofDigitChars 10 digits 0) else none

/-- `str::parse` on an unsigned integer type. -/
def parseUnsigned : List Char → Option ℕ
  | '+' :: digits => parseDigits digits
  | digits => parseDigits digits

theorem isDigit_of_mem_formatNat {n : ℕ} {c : Char} (h : c ∈ formatNat n) : c.isDigit :=
  Nat.isDigit_of_mem_toDigits (by decide) (by decide) h

theorem formatNat_ne_nil (n : ℕ) : formatNat n ≠ [] := Nat.toDigits_ne_nil

theorem notMem_formatNat {n : ℕ} {c : Char} (h : c.isDigit = false) : c ∉ formatNat n := by
  intro hmem
  rw [isDigit_of_mem_formatNat hmem] at h
  exact absurd h (by decide)

theorem parseDigits_formatNat (n : ℕ) : parseDigits (formatNat n) = some n := by
  have hdigits : (formatNat n).all Char.isDigit :=
    List.all_eq_true.mpr fun c hc => isDigit_of_mem_formatNat hc
  rw [parseDigits, if_pos ⟨formatNat_ne_nil n, hdigits⟩]
  exact congrArg some Nat.ofDigitChars_ten_toDigits

/-- **Reading a number back.** -/
theorem parseUnsigned_formatNat (n : ℕ) : parseUnsigned (formatNat n) = some n := by
  rw [← parseDigits_formatNat n]
  unfold parseUnsigned
  split
  · rename_i digits heq
    exact absurd (heq ▸ List.mem_cons_self) (notMem_formatNat (by decide))
  · rfl

theorem isWhiteSpace_of_isDigit {c : Char} (h : c.isDigit) : isWhiteSpace c = false := by
  have hbounds : 48 ≤ c.toNat ∧ c.toNat ≤ 57 := by
    simpa [Char.isDigit, UInt32.le_iff_toNat_le] using h
  simp only [isWhiteSpace, Bool.or_eq_false_iff, Bool.and_eq_false_iff, decide_eq_false_iff_not]
  omega

/-- Text whose two ends are not white space is not trimmed. -/
theorem trim_eq_self {text : List Char} (hhead : ∀ c ∈ text.head?, isWhiteSpace c = false)
    (hlast : ∀ c ∈ text.getLast?, isWhiteSpace c = false) : trim text = text := by
  have hdrop : text.dropWhile isWhiteSpace = text := by
    cases text with
    | nil => rfl
    | cons c rest => simp [hhead c (by simp)]
  rw [trim, hdrop, List.rdropWhile_eq_self_iff]
  intro hne
  simp [hlast _ (List.getLast?_eq_some_getLast hne)]

end Limpid.Decimal
