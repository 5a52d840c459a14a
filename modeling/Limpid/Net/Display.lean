import Limpid.Net

/-!
# Reading displayed addresses

`ip:port`, with the address as it is displayed, is a socket address for every IPv4 address
(`parse_display_v4`) and for no IPv6 address (`parse_display_v6`): a socket address with an IPv6
address begins with a bracket, and what an IPv6 address displays as begins with hexadecimal
digits and a colon, where the parser of IPv4 addresses wants a dot.
-/

namespace Limpid.Net

open Limpid.Decimal

/-! ## Decimal numbers -/

theorem toDigit_of_isDigit {c : Char} (h : c.isDigit) :
    toDigit 10 c = some (c.toNat - '0'.toNat) := by
  have hbounds : 48 ≤ c.toNat ∧ c.toNat ≤ 57 := by
    simpa [Char.isDigit, UInt32.le_iff_toNat_le] using h
  have hlt : c.toNat - '0'.toNat < 10 := by
    show c.toNat - 48 < 10
    omega
  unfold toDigit
  dsimp only
  rw [if_pos h]
  simp only [Option.filter_some, decide_eq_true_eq, if_pos hlt]

/-- Digits are read up to a character that is none. -/
theorem readDigits_append {digits rest : List Char} (hdigits : ∀ c ∈ digits, c.isDigit)
    (hrest : readDigits 10 rest = ([], rest)) :
    readDigits 10 (digits ++ rest) = (digits.map fun c => c.toNat - '0'.toNat, rest) := by
  induction digits with
  | nil => exact hrest
  | cons c digits ih =>
      have htail := ih fun d hd => hdigits d (List.mem_cons_of_mem _ hd)
      rw [List.cons_append, readDigits, toDigit_of_isDigit (hdigits c List.mem_cons_self)]
      dsimp only
      rw [htail, List.map_cons]

theorem value_formatNat (n : ℕ) :
    ((formatNat n).map fun c => c.toNat - '0'.toNat).foldl (fun n digit => n * 10 + digit) 0 =
    n := by
  have h : Nat.ofDigitChars 10 (formatNat n) 0 = n := Nat.ofDigitChars_ten_toDigits
  rw [List.foldl_map]
  simpa only [Nat.ofDigitChars, Nat.mul_comm] using h

/-- Only zero begins with a zero. -/
theorem head_formatNat_ne_zero (n : ℕ) (hn : 0 < n) : (formatNat n).head? ≠ some '0' := by
  induction n using Nat.strong_induction_on with
  | _ n ih =>
      by_cases hlt : n < 10
      · rw [formatNat, Nat.toDigits_of_lt_base hlt, List.head?_cons]
        have hchar : ∀ d < 10, 0 < d → some (Nat.digitChar d) ≠ some '0' := by decide
        exact hchar n hlt hn
      · have hsplit : formatNat n = formatNat (n / 10) ++ [Nat.digitChar (n % 10)] :=
          Nat.toDigits_of_base_le (by decide) (by omega)
        rw [hsplit, List.head?_append_of_ne_nil _ (formatNat_ne_nil (n / 10))]
        exact ih (n / 10) (by omega) (by omega)

/-- A displayed number below the bound is read, with or without leading zeros allowed. -/
theorem readNumber_formatNat {n bound : ℕ} {maxDigits : Option ℕ} {rest : List Char}
    (hbound : n < bound) (hdigits : ∀ k ∈ maxDigits, 0 < k ∧ n < 10 ^ k)
    (hrest : readDigits 10 rest = ([], rest)) (allowZeroPrefix : Bool) :
    readNumber 10 maxDigits allowZeroPrefix bound (formatNat n ++ rest) = some (n, rest) := by
  have hall : ∀ c ∈ formatNat n, c.isDigit := fun c hc => isDigit_of_mem_formatNat hc
  have hread := readDigits_append hall hrest
  have hlength : maxDigits.any (· < (formatNat n).length) = false := by
    cases maxDigits with
    | none => rfl
    | some k =>
        obtain ⟨hk, hlt⟩ := hdigits k rfl
        have hle := (Nat.length_toDigits_le_iff (by decide) hk).mpr hlt
        exact decide_eq_false (Nat.not_lt.mpr hle)
  have hprefix : ¬ (allowZeroPrefix = false ∧ (formatNat n ++ rest).head? = some '0' ∧
      1 < (formatNat n).length) := by
    rintro ⟨-, hhead, hlong⟩
    rw [List.head?_append_of_ne_nil _ (formatNat_ne_nil n)] at hhead
    by_cases hn : 0 < n
    · exact head_formatNat_ne_zero n hn hhead
    · obtain rfl : n = 0 := by omega
      exact absurd hlong (by decide)
  unfold readNumber
  rw [hread]
  dsimp only
  rw [value_formatNat, List.length_map, if_neg (by rw [hlength]; exact Bool.false_ne_true),
    if_neg (by simpa using formatNat_ne_nil n), if_neg hprefix, if_neg (by omega)]

/-! ## IPv4 -/

theorem readDigits_dot (rest : List Char) : readDigits 10 ('.' :: rest) = ([], '.' :: rest) := rfl

theorem readDigits_colon (rest : List Char) : readDigits 10 (':' :: rest) = ([], ':' :: rest) := rfl

theorem readOctet_display (octet : UInt8) {rest : List Char}
    (hrest : readDigits 10 rest = ([], rest)) :
    readOctet (formatNat octet.toNat ++ rest) = some (octet, rest) := by
  have hlt : octet.toNat < 256 := octet.toNat_lt
  have hdigits : ∀ k ∈ some 3, 0 < k ∧ octet.toNat < 10 ^ k := by
    intro k hk
    obtain rfl := Option.some.inj hk
    omega
  unfold readOctet
  rw [readNumber_formatNat hlt hdigits hrest]
  simp

theorem Ipv4Addr.eq_octets (addr : Ipv4Addr) : ∃ a b c d, addr = ⟨#v[a, b, c, d]⟩ := by
  obtain ⟨octets⟩ := addr
  refine ⟨octets[0], octets[1], octets[2], octets[3], congrArg Ipv4Addr.mk ?_⟩
  refine Vector.ext fun i hi => ?_
  obtain rfl | rfl | rfl | rfl : i = 0 ∨ i = 1 ∨ i = 2 ∨ i = 3 := by omega
  all_goals rfl

theorem readIpv4Addr_display (addr : Ipv4Addr) (rest : List Char) :
    readIpv4Addr (addr.display ++ ':' :: rest) = some (addr, ':' :: rest) := by
  obtain ⟨a, b, c, d, rfl⟩ := addr.eq_octets
  have hdisplay : Ipv4Addr.display ⟨#v[a, b, c, d]⟩ ++ ':' :: rest =
      formatNat a.toNat ++ '.' :: (formatNat b.toNat ++ '.' :: (formatNat c.toNat ++
        '.' :: (formatNat d.toNat ++ ':' :: rest))) := by
    simp [Ipv4Addr.display, intercalate]
  have hd := readOctet_display d (readDigits_colon rest)
  have hc := readOctet_display c (readDigits_dot (formatNat d.toNat ++ ':' :: rest))
  have hb := readOctet_display b
    (readDigits_dot (formatNat c.toNat ++ '.' :: (formatNat d.toNat ++ ':' :: rest)))
  have ha := readOctet_display a (readDigits_dot (formatNat b.toNat ++
    '.' :: (formatNat c.toNat ++ '.' :: (formatNat d.toNat ++ ':' :: rest))))
  rw [hdisplay]
  simp [readIpv4Addr, readSeparator, readGivenChar, ha, hb, hc, hd]

/-- **IPv4 addresses read back.** -/
theorem parse_display_v4 (addr : Ipv4Addr) (port : UInt16) :
    parseSocketAddr (addr.display ++ ':' :: formatNat port.toNat) = some (.v4 addr port) := by
  have hport : readPort (':' :: formatNat port.toNat) = some (port, []) := by
    have hread : readNumber 10 none true 65536 (formatNat port.toNat ++ []) =
        some (port.toNat, []) :=
      readNumber_formatNat port.toNat_lt (fun k hk => absurd hk (by simp)) rfl true
    rw [List.append_nil] at hread
    simp [readPort, readGivenChar, hread]
  simp [parseSocketAddr, readSocketAddr, readSocketAddrV4, readIpv4Addr_display, hport]

/-! ## IPv6 -/

/-- Hexadecimal digits and then a colon. -/
def HexColon (text : List Char) : Prop :=
  ∃ digits rest, text = digits ++ ':' :: rest ∧ ∀ c ∈ digits, c ≠ '.' ∧ c ≠ '['

theorem hexColon_colon (rest : List Char) : HexColon (':' :: rest) :=
  ⟨[], rest, rfl, fun _ hc => absurd hc List.not_mem_nil⟩

theorem mem_formatHex (n : ℕ) : ∀ c ∈ formatHex n, c ≠ '.' ∧ c ≠ '[' := by
  have hchar : ∀ d < 16, Nat.digitChar d ≠ '.' ∧ Nat.digitChar d ≠ '[' := by decide
  induction n using Nat.strong_induction_on with
  | _ n ih =>
      by_cases hlt : n < 16
      · rw [formatHex, Nat.toDigits_of_lt_base hlt]
        intro c hc
        obtain rfl := List.mem_singleton.mp hc
        exact hchar n hlt
      · have hsplit : formatHex n = formatHex (n / 16) ++ [Nat.digitChar (n % 16)] :=
          Nat.toDigits_of_base_le (by decide) (by omega)
        rw [hsplit]
        intro c hc
        rcases List.mem_append.mp hc with hc | hc
        · exact ih (n / 16) (by omega) c hc
        · obtain rfl := List.mem_singleton.mp hc
          exact hchar (n % 16) (Nat.mod_lt n (by decide))

theorem hexColon_displaySegments (segments : List UInt16) (rest : List Char) :
    HexColon (displaySegments segments ++ ':' :: rest) := by
  unfold displaySegments
  match segments with
  | [] => exact hexColon_colon rest
  | [segment] => exact ⟨_, rest, rfl, mem_formatHex _⟩
  | segment :: next :: more =>
      refine ⟨formatHex segment.toNat, displaySegments (next :: more) ++ ':' :: rest, ?_,
        mem_formatHex _⟩
      simp [displaySegments, intercalate]

/-- What is displayed and the colon of a port. -/
theorem hexColon_display (addr : Ipv6Addr) (rest : List Char) :
    HexColon (addr.display ++ ':' :: rest) := by
  unfold Ipv6Addr.display
  split
  · exact hexColon_colon _
  · dsimp only
    split
    · rw [List.append_assoc, List.append_assoc]
      exact hexColon_displaySegments _ _
    · exact hexColon_displaySegments _ _

/-- After the decimal digits that such a text begins with, there is still such a text. -/
theorem hexColon_readDigits {text : List Char} (h : HexColon text) :
    HexColon (readDigits 10 text).2 := by
  obtain ⟨digits, rest, rfl, hdigits⟩ := h
  induction digits with
  | nil => exact hexColon_colon rest
  | cons c digits ih =>
      rw [List.cons_append, readDigits]
      split
      · exact ⟨c :: digits, rest, rfl, hdigits⟩
      · exact ih fun d hd => hdigits d (List.mem_cons_of_mem _ hd)

theorem readGivenChar_of_hexColon {text : List Char} (h : HexColon text) {c : Char}
    (hc : c = '.' ∨ c = '[') : readGivenChar c text = none := by
  obtain ⟨digits, rest, rfl, hdigits⟩ := h
  cases digits with
  | nil =>
      rcases hc with rfl | rfl <;> rfl
  | cons d digits =>
      have hd := hdigits d List.mem_cons_self
      rw [List.cons_append, readGivenChar, if_neg]
      rcases hc with rfl | rfl
      · exact hd.1
      · exact hd.2

theorem rest_readNumber {radix bound n : ℕ} {maxDigits : Option ℕ} {allowZeroPrefix : Bool}
    {text rest : List Char}
    (h : readNumber radix maxDigits allowZeroPrefix bound text = some (n, rest)) :
    rest = (readDigits radix text).2 := by
  unfold readNumber at h
  dsimp only at h
  split at h
  · exact absurd h (by simp)
  · split at h
    · exact absurd h (by simp)
    · split at h
      · exact absurd h (by simp)
      · split at h
        · exact absurd h (by simp)
        · exact (congrArg Prod.snd (Option.some.inj h)).symm

/-- **IPv6 addresses do not read back.** -/
theorem parse_display_v6 (addr : Ipv6Addr) (rest : List Char) :
    parseSocketAddr (addr.display ++ ':' :: rest) = none := by
  have htext := hexColon_display addr rest
  -- an octet may be read, but no dot after it
  have hv4 : readIpv4Addr (addr.display ++ ':' :: rest) = none := by
    unfold readIpv4Addr
    cases hoctet : readOctet (addr.display ++ ':' :: rest) with
    | none => simp [readSeparator, hoctet]
    | some read =>
        obtain ⟨octet, after⟩ := read
        have hafter : HexColon after := by
          obtain ⟨⟨n, after'⟩, hnumber, hpair⟩ := Option.map_eq_some_iff.mp hoctet
          obtain rfl : after' = after := congrArg Prod.snd hpair
          rw [rest_readNumber hnumber]
          exact hexColon_readDigits htext
        simp [readSeparator, hoctet, readGivenChar_of_hexColon hafter (Or.inl rfl)]
  have hv6 : readSocketAddrV6 (addr.display ++ ':' :: rest) = none := by
    simp [readSocketAddrV6, readGivenChar_of_hexColon htext (Or.inr rfl)]
  simp [parseSocketAddr, readSocketAddr, readSocketAddrV4, hv4, hv6]

end Limpid.Net
