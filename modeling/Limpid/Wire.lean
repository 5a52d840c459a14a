import Mathlib.Data.List.Basic
import Mathlib.Tactic.Positivity
import Mathlib.Tactic.Ring
import Limpid.Bytes

/-!
# Bytes on the wire

Big-endian numbers of a fixed width (`toBe`, `ofBe`), and a byte source that delivers its stream
in pieces (`Reader`).

A `Reader` is the list of the pieces the transport will deliver, in order; an empty piece
delivers nothing and is waited out.  One `read` returns at most one piece.  `readExact` repeats
reads until it has as many bytes as it was asked for, and what it returns depends on the stream
only, not on where it was cut: `readExact_append`, `readExact_eq_some`, `readExact_eq_none`.
-/

namespace Limpid.Wire

/-! ## Big-endian numbers -/

/-- The last `width` bytes of `n`. -/
def toBe : ℕ → ℕ → Bytes
  | 0, _ => []
  | width + 1, n => UInt8.ofNat (n / 256 ^ width) :: toBe width n

/-- The number that big-endian bytes stand for. -/
def ofBe : Bytes → ℕ
  | [] => 0
  | b :: rest => b.toNat * 256 ^ rest.length + ofBe rest

@[simp] theorem length_toBe (width n : ℕ) : (toBe width n).length = width := by
  induction width with
  | zero => rfl
  | succ width ih => simp [toBe, ih]

theorem ofBe_lt (bytes : Bytes) : ofBe bytes < 256 ^ bytes.length := by
  induction bytes with
  | nil => simp [ofBe]
  | cons b rest ih =>
      have hb : b.toNat + 1 ≤ 256 := b.toNat_lt
      calc b.toNat * 256 ^ rest.length + ofBe rest
          < b.toNat * 256 ^ rest.length + 256 ^ rest.length := by omega
        _ = (b.toNat + 1) * 256 ^ rest.length := by ring
        _ ≤ 256 * 256 ^ rest.length := Nat.mul_le_mul_right _ hb
        _ = 256 ^ (rest.length + 1) := by ring

/-- Only the last `width` bytes of a number are written. -/
theorem toBe_add_mul (width n k : ℕ) : toBe width (n + k * 256 ^ width) = toBe width n := by
  induction width generalizing k with
  | zero => rfl
  | succ width ih =>
      have hsplit : n + k * 256 ^ (width + 1) = n + k * 256 * 256 ^ width := by ring
      have hhead : (n + k * 256 * 256 ^ width) / 256 ^ width = n / 256 ^ width + k * 256 :=
        Nat.add_mul_div_right _ _ (by positivity)
      have hbyte : UInt8.ofNat (n / 256 ^ width + k * 256) = UInt8.ofNat (n / 256 ^ width) := by
        apply UInt8.toNat_inj.mp
        simp [UInt8.toNat_ofNat']
      rw [toBe, toBe, hsplit, hhead, hbyte, ih (k * 256)]

theorem ofBe_toBe {width n : ℕ} (h : n < 256 ^ width) : ofBe (toBe width n) = n := by
  induction width generalizing n with
  | zero =>
      rw [pow_zero, Nat.lt_one_iff] at h
      rw [h]
      rfl
  | succ width ih =>
      have hpos : 0 < 256 ^ width := by positivity
      have hdiv : n / 256 ^ width < 256 := by
        rw [Nat.div_lt_iff_lt_mul hpos]
        calc n < 256 ^ (width + 1) := h
          _ = 256 * 256 ^ width := by ring
      have htail : toBe width n = toBe width (n % 256 ^ width) := by
        conv_lhs => rw [← Nat.mod_add_div n (256 ^ width), Nat.mul_comm]
        exact toBe_add_mul width _ _
      have hhead : (UInt8.ofNat (n / 256 ^ width)).toNat = n / 256 ^ width := by
        rw [UInt8.toNat_ofNat', Nat.mod_eq_of_lt hdiv]
      rw [toBe, ofBe, length_toBe, htail, ih (Nat.mod_lt n hpos), hhead, Nat.mul_comm]
      exact Nat.div_add_mod n (256 ^ width)

theorem toBe_ofBe (bytes : Bytes) : toBe bytes.length (ofBe bytes) = bytes := by
  induction bytes with
  | nil => rfl
  | cons b rest ih =>
      have hdiv : ofBe (b :: rest) / 256 ^ rest.length = b.toNat := by
        rw [ofBe, Nat.mul_comm, Nat.mul_add_div (by positivity),
          Nat.div_eq_of_lt (ofBe_lt rest), Nat.add_zero]
      have htail : toBe rest.length (ofBe (b :: rest)) = rest := by
        rw [ofBe, Nat.add_comm, toBe_add_mul, ih]
      rw [List.length_cons, toBe, hdiv, htail, UInt8.ofNat_toNat]

/-! ## A stream in pieces -/

/-- A stream, as the pieces in which it arrives. -/
abbrev Reader := List Bytes

/-- One read into a buffer of `n` bytes; no bytes at the end of the stream. -/
def read (n : ℕ) : Reader → Bytes × Reader
  | [] => ([], [])
  | [] :: rest => read n rest
  | (b :: chunk) :: rest =>
      if (b :: chunk).length ≤ n then (b :: chunk, rest)
      else ((b :: chunk).take n, (b :: chunk).drop n :: rest)

/-- Read until the buffer of `n` bytes is full; `none` if the stream ends before. -/
def readExact : ℕ → Reader → Option (Bytes × Reader)
  | 0, reader => some ([], reader)
  | _ + 1, [] => none
  | n + 1, chunk :: rest =>
      if chunk.length ≤ n + 1 then
        (readExact (n + 1 - chunk.length) rest).map fun (bytes, reader) =>
          (chunk ++ bytes, reader)
      else some (chunk.take (n + 1), chunk.drop (n + 1) :: rest)

theorem readExact_eq_some {n : ℕ} {reader reader' : Reader} {bytes : Bytes}
    (h : readExact n reader = some (bytes, reader')) :
    bytes.length = n ∧ reader.flatten = bytes ++ reader'.flatten := by
  induction reader generalizing n bytes with
  | nil =>
      cases n with
      | zero =>
          obtain ⟨rfl, rfl⟩ := Prod.mk.inj (Option.some.inj h)
          exact ⟨rfl, rfl⟩
      | succ n => exact absurd h (by simp [readExact])
  | cons chunk rest ih =>
      cases n with
      | zero =>
          obtain ⟨rfl, rfl⟩ := Prod.mk.inj (Option.some.inj h)
          exact ⟨rfl, rfl⟩
      | succ n =>
          rw [readExact] at h
          split at h
          · next hlen =>
              obtain ⟨⟨more, reader''⟩, hmore, heq⟩ := Option.map_eq_some_iff.mp h
              obtain ⟨rfl, rfl⟩ := Prod.mk.inj heq
              obtain ⟨hlength, hflatten⟩ := ih hmore
              refine ⟨by rw [List.length_append]; omega, ?_⟩
              rw [List.flatten_cons, hflatten, List.append_assoc]
          · next hlen =>
              obtain ⟨rfl, rfl⟩ := Prod.mk.inj (Option.some.inj h)
              refine ⟨by rw [List.length_take]; omega, ?_⟩
              rw [List.flatten_cons, List.flatten_cons, ← List.append_assoc,
                List.take_append_drop]

theorem readExact_eq_none {n : ℕ} {reader : Reader} :
    readExact n reader = none ↔ reader.flatten.length < n := by
  induction reader generalizing n with
  | nil => cases n <;> simp [readExact]
  | cons chunk rest ih =>
      cases n with
      | zero => simp [readExact]
      | succ n =>
          rw [readExact, List.flatten_cons, List.length_append]
          split
          · next hlen =>
              rw [Option.map_eq_none_iff, ih]
              omega
          · next hlen => simp; omega

/-- **Where the stream is cut does not matter**: the bytes asked for are those that come next. -/
theorem readExact_append {n : ℕ} {reader : Reader} {bytes rest : Bytes}
    (h : reader.flatten = bytes ++ rest) (hlength : bytes.length = n) :
    ∃ reader', readExact n reader = some (bytes, reader') ∧ reader'.flatten = rest := by
  cases hread : readExact n reader with
  | none =>
      rw [readExact_eq_none, h, List.length_append] at hread
      omega
  | some result =>
      obtain ⟨got, reader'⟩ := result
      obtain ⟨hgot, hflatten⟩ := readExact_eq_some hread
      obtain ⟨rfl, hrest⟩ := List.append_inj (h.symm.trans hflatten) (hlength.trans hgot.symm)
      exact ⟨reader', rfl, hrest.symm⟩

end Limpid.Wire
