import Limpid.Syslog.Framing

/-!
# Octet counting

The reader of counted messages sees the stream and not how it was cut: two readers of one stream
go through the same turns (`readCounted_same`).  What was written is read back message by message
(`readCounted_frame`), because the digits before the space are the length.
-/

namespace Limpid.Syslog

open Limpid.Wire Limpid.Decimal

/-! ## Cuts -/

/-- Both fail alike, or both give the same and leave the same stream. -/
def SameStream {α : Type} (x y : Except CloseReason (α × Reader)) : Prop :=
  (∃ reason, x = .error reason ∧ y = .error reason) ∨
    ∃ a rest rest', x = .ok (a, rest) ∧ y = .ok (a, rest') ∧ rest.flatten = rest'.flatten

theorem readExact_same (n : ℕ) {reader reader' : Reader} (h : reader.flatten = reader'.flatten) :
    (readExact n reader = none ∧ readExact n reader' = none) ∨
      ∃ bytes rest rest', readExact n reader = some (bytes, rest) ∧
        readExact n reader' = some (bytes, rest') ∧ rest.flatten = rest'.flatten := by
  cases hread : readExact n reader with
  | none =>
      have hshort := readExact_eq_none.mp hread
      exact Or.inl ⟨rfl, readExact_eq_none.mpr (h ▸ hshort)⟩
  | some result =>
      obtain ⟨bytes, rest⟩ := result
      obtain ⟨hlength, hflatten⟩ := readExact_eq_some hread
      obtain ⟨rest', hread', hrest⟩ := readExact_append (h ▸ hflatten) hlength
      exact Or.inr ⟨bytes, rest, rest', rfl, hread', hrest.symm⟩

theorem readMsgLen_same (lenStr : List Char) {reader reader' : Reader}
    (h : reader.flatten = reader'.flatten) :
    SameStream (readMsgLen lenStr reader) (readMsgLen lenStr reader') := by
  induction hm : maxMsgLenDigits + 1 - lenStr.length using Nat.strongRecOn generalizing lenStr
    reader reader' with
  | ind m ih =>
      unfold readMsgLen
      rcases readExact_same 1 h with ⟨hnone, hnone'⟩ | ⟨bytes, rest, rest', hsome, hsome', hrest⟩
      · rw [hnone, hnone']
        exact Or.inl ⟨.eof, rfl, rfl⟩
      · rw [hsome, hsome']
        dsimp only
        split
        · split
          · exact Or.inl ⟨_, rfl, rfl⟩
          · cases checkMsgLen lenStr with
            | error reason => exact Or.inl ⟨reason, rfl, rfl⟩
            | ok n => exact Or.inr ⟨n, rest, rest', rfl, rfl, hrest⟩
        · split
          · exact Or.inl ⟨_, rfl, rfl⟩
          · split
            · exact Or.inl ⟨_, rfl, rfl⟩
            · split
              · exact Or.inl ⟨_, rfl, rfl⟩
              · next hlen =>
                  refine ih _ ?_ _ hrest rfl
                  simp only [List.length_append, List.length_singleton] at hlen ⊢
                  omega

theorem readCounted_same {reader reader' : Reader} (h : reader.flatten = reader'.flatten) :
    SameStream (readCounted reader) (readCounted reader') := by
  unfold readCounted
  rcases readMsgLen_same [] h with ⟨reason, hx, hy⟩ | ⟨msgLen, rest, rest', hx, hy, hrest⟩
  · rw [hx, hy]
    exact Or.inl ⟨reason, rfl, rfl⟩
  · rw [hx, hy]
    dsimp only
    rcases readExact_same msgLen hrest with ⟨hnone, hnone'⟩ |
      ⟨buf, left, left', hsome, hsome', hleft⟩
    · rw [hnone, hnone']
      exact Or.inl ⟨.eof, rfl, rfl⟩
    · rw [hsome, hsome']
      dsimp only
      cases validatePri buf with
      | error e => exact Or.inl ⟨_, rfl, rfl⟩
      | ok u => exact Or.inr ⟨buf, left, left', rfl, rfl, hleft⟩

theorem readOctetCounting_of_error {reader : Reader} {reason : CloseReason}
    (h : readCounted reader = .error reason) : readOctetCounting reader = ([], reason) := by
  unfold readOctetCounting
  split
  · next reason' h' => rw [h] at h'; rw [Except.error.inj h']
  · next h' => rw [h] at h'; exact absurd h' (by simp)

theorem readOctetCounting_of_ok {reader rest : Reader} {msg : Bytes}
    (h : readCounted reader = .ok (msg, rest)) :
    readOctetCounting reader =
      (msg :: (readOctetCounting rest).1, (readOctetCounting rest).2) := by
  rw [readOctetCounting]
  split
  · next h' => rw [h] at h'; exact absurd h' (by simp)
  · next msg' rest' h' =>
      rw [h] at h'
      obtain ⟨rfl, rfl⟩ := Prod.mk.inj (Except.ok.inj h')
      rfl

/-- **Where the stream is cut does not matter to counted messages.** -/
theorem readOctetCounting_same {reader reader' : Reader} (h : reader.flatten = reader'.flatten) :
    readOctetCounting reader = readOctetCounting reader' := by
  induction hm : reader.flatten.length using Nat.strongRecOn generalizing reader reader' with
  | ind m ih =>
      rcases readCounted_same h with ⟨reason, hx, hy⟩ | ⟨msg, rest, rest', hx, hy, hrest⟩
      · rw [readOctetCounting_of_error hx, readOctetCounting_of_error hy]
      · rw [readOctetCounting_of_ok hx, readOctetCounting_of_ok hy,
          ih _ (hm ▸ (readCounted_ok hx).2) hrest rfl]

/-- A counted message is within the limit. -/
theorem length_le_of_mem_octetCounting {reader : Reader} {msg : Bytes}
    (h : msg ∈ (readOctetCounting reader).1) : msg.length ≤ maxMessageSize := by
  induction hm : reader.flatten.length using Nat.strongRecOn generalizing reader with
  | ind m ih =>
      cases hread : readCounted reader with
      | error reason =>
          rw [readOctetCounting_of_error hread] at h
          exact absurd h List.not_mem_nil
      | ok result =>
          obtain ⟨first, rest⟩ := result
          obtain ⟨hle, hlt⟩ := readCounted_ok hread
          rw [readOctetCounting_of_ok hread] at h
          rcases List.mem_cons.mp h with rfl | h
          · exact hle
          · exact ih _ (hm ▸ hlt) h rfl

/-! ## Lengths -/

theorem digitByte_spec {c : Char} (h : c.isDigit) :
    byteChar (UInt8.ofNat c.toNat) = c ∧ isAsciiDigit (UInt8.ofNat c.toNat) = true ∧
      UInt8.ofNat c.toNat ≠ space ∧ (UInt8.ofNat c.toNat = 48 → c = '0') := by
  have hbounds : 48 ≤ c.toNat ∧ c.toNat ≤ 57 := by
    simpa [Char.isDigit, UInt32.le_iff_toNat_le] using h
  have hnat : (UInt8.ofNat c.toNat).toNat = c.toNat := by
    rw [UInt8.toNat_ofNat', Nat.mod_eq_of_lt (by omega)]
  have hchar : byteChar (UInt8.ofNat c.toNat) = c := by
    rw [byteChar, hnat, Char.ofNat_toNat]
  refine ⟨hchar, ?_, ?_, ?_⟩
  · simp only [isAsciiDigit, Bool.and_eq_true, decide_eq_true_eq, UInt8.le_iff_toNat_le, hnat]
    exact hbounds
  · intro heq
    rw [← UInt8.toNat_inj, hnat] at heq
    have hspace : space.toNat = 32 := rfl
    omega
  · intro heq
    rw [← hchar, heq]
    rfl

/-- The first digit of a number is not zero. -/
theorem head?_formatNat {n : ℕ} (hn : 0 < n) : (formatNat n).head? ≠ some '0' := by
  unfold formatNat
  induction n using Nat.strongRecOn with
  | ind n ih =>
      by_cases h : n < 10
      · have hdigit : ∀ m < 10, 0 < m → Nat.digitChar m ≠ '0' := by decide
        rw [Nat.toDigits_of_lt_base h]
        exact fun heq => hdigit n h hn (Option.some.inj heq)
      · rw [Nat.toDigits_of_base_le (by decide) (Nat.le_of_not_lt h),
          List.head?_append_of_ne_nil _ Nat.toDigits_ne_nil]
        exact ih (n / 10) (Nat.div_lt_self hn (by decide)) (by omega)

/-- Digits are read up to the space. -/
theorem readMsgLen_digits {digits lenStr : List Char} {reader : Reader} {rest : Bytes} {n : ℕ}
    (hdigits : ∀ c ∈ digits, c.isDigit) (hhead : lenStr = [] → digits.head? ≠ some '0')
    (hne : lenStr ++ digits ≠ []) (hlength : (lenStr ++ digits).length ≤ maxMsgLenDigits)
    (hcheck : checkMsgLen (lenStr ++ digits) = .ok n)
    (hstream : reader.flatten = digits.map (fun c => UInt8.ofNat c.toNat) ++ space :: rest) :
    ∃ reader', readMsgLen lenStr reader = .ok (n, reader') ∧ reader'.flatten = rest := by
  induction digits generalizing lenStr reader with
  | nil =>
      obtain ⟨reader', hread, hrest⟩ := @readExact_append 1 reader [space] rest hstream rfl
      rw [List.append_nil] at hne hcheck
      refine ⟨reader', ?_, hrest⟩
      rw [readMsgLen, hread]
      simp [hne, hcheck, Except.map]
  | cons c digits ih =>
      obtain ⟨hchar, hdigit, hspace, hzero⟩ := digitByte_spec (hdigits c List.mem_cons_self)
      obtain ⟨reader₁, hread, hrest₁⟩ :=
        @readExact_append 1 reader [UInt8.ofNat c.toNat] _ hstream rfl
      have hcons : lenStr ++ c :: digits = lenStr ++ [c] ++ digits := List.append_cons ..
      rw [hcons] at hne hlength hcheck
      obtain ⟨reader', hmore, hrest⟩ := ih (fun d hd => hdigits d (List.mem_cons_of_mem c hd))
        (fun h => absurd h (by simp)) hne hlength hcheck hrest₁
      refine ⟨reader', ?_, hrest⟩
      have hshort : ¬ maxMsgLenDigits < (lenStr ++ [c]).length := by
        rw [List.length_append] at hlength
        omega
      have hfirst : ¬ (lenStr = [] ∧ UInt8.ofNat c.toNat = 48) := by
        rintro ⟨hnil, heq⟩
        exact hhead hnil (congrArg some (hzero heq))
      rw [readMsgLen, hread]
      simp only [List.headD_cons, hspace, ↓reduceIte, hdigit, Bool.not_true, Bool.false_eq_true,
        hfirst, hchar, hshort]
      exact hmore

theorem checkMsgLen_formatNat {n : ℕ} (h : n ≤ maxMessageSize) :
    checkMsgLen (formatNat n) = .ok n := by
  rw [checkMsgLen, parseUnsigned_formatNat]
  exact if_neg (Nat.not_lt.mpr h)

/-- A message written is the message read. -/
theorem readCounted_frame {msg rest : Bytes} {reader : Reader} (hpri : ValidPri msg)
    (hlength : msg.length ≤ maxMessageSize)
    (hstream : reader.flatten = writeFramed msg .octetCounting ++ rest) :
    ∃ reader', readCounted reader = .ok (msg, reader') ∧ reader'.flatten = rest := by
  have hpos : 0 < msg.length := by
    cases msg with
    | nil => exact absurd hpri (by simp [ValidPri, validatePri])
    | cons b more => exact Nat.succ_pos _
  have hdigits : (formatNat msg.length).length ≤ maxMsgLenDigits :=
    (Nat.length_toDigits_le_iff (by decide) (by decide)).mpr (hlength.trans_lt (by decide))
  have hsplit : reader.flatten = (formatNat msg.length).map (fun c => UInt8.ofNat c.toNat) ++
      space :: (msg ++ rest) := by
    rw [hstream, writeFramed, List.append_assoc, List.append_assoc]
    rfl
  obtain ⟨reader₁, hlen, hrest₁⟩ := @readMsgLen_digits _ [] reader _ _
    (fun c hc => isDigit_of_mem_formatNat hc) (fun _ => head?_formatNat hpos)
    (formatNat_ne_nil _) hdigits (checkMsgLen_formatNat hlength) hsplit
  obtain ⟨reader', hread, hrest⟩ := readExact_append hrest₁ rfl
  refine ⟨reader', ?_, hrest⟩
  have hvalid : validatePri msg = .ok () := hpri
  simp only [readCounted, hlen, hread, hvalid]

/-- **Counted messages are read back**, however the stream is cut. -/
theorem readOctetCounting_written {messages : List Bytes} {reader : Reader}
    (hmessages : ∀ msg ∈ messages, ValidPri msg ∧ msg.length ≤ maxMessageSize)
    (hstream : reader.flatten = messages.flatMap fun msg => writeFramed msg .octetCounting) :
    (readOctetCounting reader).1 = messages := by
  induction messages generalizing reader with
  | nil =>
      have hnone : readExact 1 reader = none :=
        readExact_eq_none.mpr (by rw [hstream]; decide)
      have hend : readCounted reader = .error .eof := by
        rw [readCounted, readMsgLen, hnone]
      rw [readOctetCounting_of_error hend]
  | cons msg more ih =>
      obtain ⟨hpri, hlength⟩ := hmessages msg List.mem_cons_self
      obtain ⟨reader', hread, hrest⟩ := readCounted_frame hpri hlength hstream
      rw [readOctetCounting_of_ok hread,
        ih (fun m hm => hmessages m (List.mem_cons_of_mem msg hm)) hrest]

end Limpid.Syslog
