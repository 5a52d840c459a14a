import Limpid.Decimal
import Limpid.Wire

/-!
# Syslog over TCP

The two framings of RFC 6587: `write_framed` (`output/syslog_peers.rs`), and the readers
`read_octet_counting` and `read_non_transparent` (`input/syslog_tcp.rs`) with the check of the PRI
that both make (`input/validate.rs`).

The input side reads through a buffer, so a connection is the list of the pieces that fill it.  No
read times out or fails, and the channel to the pipelines stays open: what is left is the bytes,
and a reader returns the messages it sends and why it stops.  The texts of errors are left out.
-/

namespace Limpid.Syslog

open Limpid.Wire

/-- `MAX_MESSAGE_SIZE`. -/
def maxMessageSize : ℕ := 1024 * 1024

/-- `MAX_MSG_LEN_DIGITS`. -/
def maxMsgLenDigits : ℕ := 7

/-- `is_ascii_digit`. -/
def isAsciiDigit (b : UInt8) : Bool := 48 ≤ b && b ≤ 57

/-- `u8 as char`. -/
def byteChar (b : UInt8) : Char := Char.ofNat b.toNat

/-! ## PRI -/

/-- What `validate_pri` may find wrong. -/
inductive PriError where
  | empty
  | start (byte : UInt8)
  | outOfRange (n : ℕ)
  | content (prival : Bytes)
  | position (pos : ℕ)
  | unclosed

/-- `<`. -/
def priOpen : UInt8 := 60

/-- `>`. -/
def priClose : UInt8 := 62

/-- `validate_pri`. -/
def validatePri (msg : Bytes) : Except PriError Unit :=
  match msg with
  | [] => .error .empty
  | first :: _ =>
      if first ≠ priOpen then .error (.start first)
      else
        match msg.findIdx? (· = priClose) with
        | none => .error .unclosed
        | some pos =>
            if 2 ≤ pos ∧ pos ≤ 4 then
              let prival := (msg.take pos).drop 1
              if prival.all isAsciiDigit then
                match Decimal.parseUnsigned (prival.map byteChar) with
                | some n => if n ≤ 191 then .ok () else .error (.outOfRange n)
                | none => .error (.content prival)
              else .error (.content prival)
            else .error (.position pos)

/-- The message begins with a valid priority. -/
def ValidPri (msg : Bytes) : Prop := validatePri msg = .ok ()

/-! ## Writing -/

/-- `SyslogFraming`. -/
inductive SyslogFraming where
  | octetCounting | nonTransparent

/-- The blank. -/
def space : UInt8 := 32

/-- The bytes that `write_framed` writes. -/
def writeFramed (payload : Bytes) : SyslogFraming → Bytes
  | .octetCounting =>
      (Decimal.formatNat payload.length).map (fun c => UInt8.ofNat c.toNat) ++ [space] ++ payload
  | .nonTransparent => payload ++ [newline]

/-! ## Reading -/

/-- Why a connection is closed. -/
inductive FramingError where
  | emptyMsgLen
  | nonDigit (byte : UInt8)
  | leadingZero
  | tooManyDigits
  | notANumber (digits : List Char)
  | exceedsLimit (msgLen : ℕ)
  | invalidPri (e : PriError)
  | tooLarge

/-- How a connection ends. -/
inductive CloseReason where
  | eof
  | framingError (e : FramingError)

/-- The end of `read_msg_len`. -/
def checkMsgLen (lenStr : List Char) : Except CloseReason ℕ :=
  match Decimal.parseUnsigned lenStr with
  | none => .error (.framingError (.notANumber lenStr))
  | some msgLen =>
      if msgLen > maxMessageSize then .error (.framingError (.exceedsLimit msgLen)) else .ok msgLen

/-- `read_msg_len`, after some digits. -/
def readMsgLen (lenStr : List Char) (reader : Reader) : Except CloseReason (ℕ × Reader) :=
  match readExact 1 reader with
  | none => .error .eof
  | some (bytes, rest) =>
      let byte := bytes.headD 0
      if byte = space then
        if lenStr = [] then .error (.framingError .emptyMsgLen)
        else (checkMsgLen lenStr).map (·, rest)
      else if !isAsciiDigit byte then .error (.framingError (.nonDigit byte))
      else if lenStr = [] ∧ byte = 48 then .error (.framingError .leadingZero)
      else if maxMsgLenDigits < (lenStr ++ [byteChar byte]).length then
        .error (.framingError .tooManyDigits)
      else readMsgLen (lenStr ++ [byteChar byte]) rest
termination_by maxMsgLenDigits + 1 - lenStr.length
decreasing_by
  simp only [List.length_append, List.length_singleton] at *
  omega

/-- One turn of the loop of `read_octet_counting`: the message that is sent. -/
def readCounted (reader : Reader) : Except CloseReason (Bytes × Reader) :=
  match readMsgLen [] reader with
  | .error reason => .error reason
  | .ok (msgLen, rest) =>
      match readExact msgLen rest with
      | none => .error .eof
      | some (buf, rest) =>
          match validatePri buf with
          | .error e => .error (.framingError (.invalidPri e))
          | .ok () => .ok (buf, rest)

/-- A line end or a zero byte. -/
def isDelimiter (b : UInt8) : Bool := b = newline || b = 0

/-- `read_until_delimiter`: whether there was a delimiter, and what came before it. -/
def readUntilDelimiter (buf : Bytes) : Reader → Except CloseReason ((Bool × Bytes) × Reader)
  | [] => .ok ((false, buf), [])
  | available :: rest =>
      if available = [] then readUntilDelimiter buf rest
      else
        match available.findIdx? isDelimiter with
        | some pos => .ok ((true, buf ++ available.take pos), available.drop (pos + 1) :: rest)
        | none =>
            if maxMessageSize < buf.length + available.length then
              .error (.framingError .tooLarge)
            else readUntilDelimiter (buf ++ available) rest

/-- The loops that take trailing CRs off. -/
def stripCr (buf : Bytes) : Bytes := buf.rdropWhile (· = carriageReturn)

/-- What is sent for a text: nothing for an empty one. -/
def messageOf (buf : Bytes) : Except PriError (Option Bytes) :=
  if stripCr buf = [] then .ok none
  else
    match validatePri (stripCr buf) with
    | .error e => .error e
    | .ok () => .ok (some (stripCr buf))

/-! ## The loops -/

theorem readExact_flatten_length {n : ℕ} {reader rest : Reader} {bytes : Bytes}
    (h : readExact n reader = some (bytes, rest)) :
    reader.flatten.length = n + rest.flatten.length := by
  obtain ⟨hlength, hflatten⟩ := readExact_eq_some h
  rw [hflatten, List.length_append, hlength]

theorem checkMsgLen_le {lenStr : List Char} {msgLen : ℕ} (h : checkMsgLen lenStr = .ok msgLen) :
    msgLen ≤ maxMessageSize := by
  unfold checkMsgLen at h
  split at h
  · exact absurd h (by simp)
  · split at h
    · exact absurd h (by simp)
    · next hle => exact Except.ok.inj h ▸ Nat.le_of_not_lt hle

/-- A length is within the limit, and takes at least its space from the stream. -/
theorem readMsgLen_ok {lenStr : List Char} {reader rest : Reader} {msgLen : ℕ}
    (h : readMsgLen lenStr reader = .ok (msgLen, rest)) :
    msgLen ≤ maxMessageSize ∧ rest.flatten.length < reader.flatten.length := by
  fun_induction readMsgLen lenStr reader with
  | case3 lenStr reader bytes reader' hread byte hspace hne =>
      cases hcheck : checkMsgLen lenStr with
      | error reason => rw [hcheck] at h; exact absurd h (by simp [Except.map])
      | ok n =>
          rw [hcheck] at h
          obtain ⟨rfl, rfl⟩ := Prod.mk.inj (Except.ok.inj h)
          have hlength := readExact_flatten_length hread
          exact ⟨checkMsgLen_le hcheck, by omega⟩
  | case7 lenStr reader bytes reader' hread byte _ _ _ _ ih =>
      obtain ⟨hle, hlt⟩ := ih h
      have hlength := readExact_flatten_length hread
      exact ⟨hle, by omega⟩
  | case1 | case2 | case4 | case5 | case6 => exact absurd h (by simp)

/-- So is a message. -/
theorem readCounted_ok {reader rest : Reader} {msg : Bytes}
    (h : readCounted reader = .ok (msg, rest)) :
    msg.length ≤ maxMessageSize ∧ rest.flatten.length < reader.flatten.length := by
  unfold readCounted at h
  split at h
  · exact absurd h (by simp)
  next msgLen rest₁ hlen =>
  split at h
  · exact absurd h (by simp)
  next buf rest₂ hbuf =>
  split at h
  · exact absurd h (by simp)
  obtain ⟨rfl, rfl⟩ := Prod.mk.inj (Except.ok.inj h)
  obtain ⟨hle, hlt⟩ := readMsgLen_ok hlen
  have hexact := readExact_flatten_length hbuf
  have hlength := (readExact_eq_some hbuf).1
  exact ⟨hlength ▸ hle, by omega⟩

/-- `read_octet_counting`: the messages sent, and why it stops. -/
def readOctetCounting (reader : Reader) : List Bytes × CloseReason :=
  match _h : readCounted reader with
  | .error reason => ([], reason)
  | .ok (msg, rest) =>
      let (more, reason) := readOctetCounting rest
      (msg :: more, reason)
termination_by reader.flatten.length
decreasing_by exact (readCounted_ok _h).2

/-- A delimiter is taken from the stream. -/
theorem readUntilDelimiter_lt {buf line : Bytes} {reader rest : Reader}
    (h : readUntilDelimiter buf reader = .ok ((true, line), rest)) :
    rest.flatten.length < reader.flatten.length := by
  induction reader generalizing buf with
  | nil => exact absurd h (by simp [readUntilDelimiter])
  | cons available reader ih =>
      rw [List.flatten_cons, List.length_append]
      unfold readUntilDelimiter at h
      split at h
      · exact (ih h).trans_le (Nat.le_add_left _ _)
      · next hne =>
          split at h
          · next pos hpos =>
              obtain ⟨-, rfl⟩ := Prod.mk.inj (Except.ok.inj h)
              have hlt : 0 < available.length := List.length_pos_iff.mpr hne
              rw [List.flatten_cons, List.length_append, List.length_drop]
              omega
          · split at h
            · exact absurd h (by simp)
            · exact (ih h).trans_le (Nat.le_add_left _ _)

/-- `read_non_transparent`: the messages sent, and why it stops. -/
def readNonTransparent (reader : Reader) : List Bytes × CloseReason :=
  match _h : readUntilDelimiter [] reader with
  | .error reason => ([], reason)
  | .ok ((false, buf), _) =>
      -- what is left is a message too, and nothing happens if it is not
      match messageOf buf with
      | .error _ => ([], .eof)
      | .ok sent => (sent.toList, .eof)
  | .ok ((true, buf), rest) =>
      match messageOf buf with
      | .error e => ([], .framingError (.invalidPri e))
      | .ok sent =>
          let (more, reason) := readNonTransparent rest
          (sent.toList ++ more, reason)
termination_by reader.flatten.length
decreasing_by exact readUntilDelimiter_lt _h

end Limpid.Syslog
