import Limpid.Decimal
import Limpid.Dsl.Eval
import Limpid.Utf8

/-!
# `syslog.parse`

`functions/syslog/parse.rs` and `functions/syslog/pri.rs`.  A text is a list of characters and its
bytes are `utf8 text`.  The program slices texts at byte indices, which panics where an index is not
at a character: such a slice is `none` here, and so is what is computed from it.

A position of the byte scanners is the list of the bytes from it on.
-/

namespace Limpid.Functions.Syslog

open Decimal
open Dsl (Runtime Value)

/-! ## PRI -/

/-- `is_ascii_digit`. -/
def isAsciiDigit (b : UInt8) : Bool := 48 ≤ b && b ≤ 57

/-- `parse_leading_pri`: the value, and the offset of the body. -/
def parseLeadingPri (text : List Char) : Option (ℕ × ℕ) :=
  let bytes := utf8 text
  if bytes.head? ≠ some 60 then none
  else do
    let gtPos ← (bytes.take 6).findIdx? (· = 62)
    if gtPos < 2 then none
    else
      let digits := (bytes.take gtPos).drop 1
      if digits.all isAsciiDigit then
        let n ← parseUnsigned (digits.map fun b => Char.ofNat b.toNat)
        if n > 191 then none else some (n, gtPos + 1)
      else none

/-- The number that digits spell. -/
def priValue (digits : Bytes) : ℕ := digits.foldl (fun n b => 10 * n + (b.toNat - 48)) 0

/-- A text that begins with a priority of at most `max` digits. -/
structure IsHeader (max : ℕ) (bytes digits body : Bytes) : Prop where
  bytes_eq : bytes = 60 :: (digits ++ 62 :: body)
  nonempty : digits ≠ []
  length_le : digits.length ≤ max
  all_digits : ∀ b ∈ digits, isAsciiDigit b
  value_le : priValue digits ≤ 191

/-- A digit is a byte. -/
theorem bounds_of_isDigit {c : Char} (h : c.isDigit) : 48 ≤ c.toNat ∧ c.toNat ≤ 57 := by
  simpa [Char.isDigit, UInt32.le_iff_toNat_le] using h

theorem isAsciiDigit_ofNat {c : Char} (h : c.isDigit) : isAsciiDigit (UInt8.ofNat c.toNat) := by
  obtain ⟨hle, hge⟩ := bounds_of_isDigit h
  have hmod : c.toNat % 2 ^ 8 = c.toNat := Nat.mod_eq_of_lt (by omega)
  simp only [isAsciiDigit, Bool.and_eq_true, decide_eq_true_eq, UInt8.le_iff_toNat_le,
    UInt8.toNat_ofNat', hmod]
  exact ⟨hle, hge⟩

theorem length_formatNat_le {n : ℕ} (h : n ≤ 191) : (formatNat n).length ≤ 3 :=
  (Nat.length_toDigits_le_iff (by decide) (by decide)).mpr (h.trans_lt (by decide))

/-- A digit as a byte is the digit as a character. -/
theorem isDigit_ofNat {b : UInt8} (h : isAsciiDigit b) :
    (Char.ofNat b.toNat).isDigit ∧ (Char.ofNat b.toNat).toNat = b.toNat := by
  obtain ⟨hle, hge⟩ : 48 ≤ b.toNat ∧ b.toNat ≤ 57 := by
    simpa [isAsciiDigit, UInt8.le_iff_toNat_le] using h
  have hvalid : b.toNat.isValidChar := .inl (by omega)
  have htoNat : (Char.ofNat b.toNat).toNat = b.toNat := by
    rw [Char.ofNat, dif_pos hvalid]
    rfl
  refine ⟨?_, htoNat⟩
  have hval : (Char.ofNat b.toNat).val.toNat = b.toNat := htoNat
  simp only [Char.isDigit, Bool.and_eq_true, decide_eq_true_eq, UInt32.le_iff_toNat_le,
    ge_iff_le, hval]
  exact ⟨hle, hge⟩

theorem ofDigitChars_map {digits : Bytes} (h : ∀ b ∈ digits, isAsciiDigit b) (n : ℕ) :
    Nat.ofDigitChars 10 (digits.map fun b => Char.ofNat b.toNat) n =
      digits.foldl (fun n b => 10 * n + (b.toNat - 48)) n := by
  induction digits generalizing n with
  | nil => rfl
  | cons b digits ih =>
      obtain ⟨hb, hdigits⟩ := List.forall_mem_cons.mp h
      have hstep : Nat.ofDigitChars 10 ((b :: digits).map fun b => Char.ofNat b.toNat) n =
          Nat.ofDigitChars 10 (digits.map fun b => Char.ofNat b.toNat)
            (10 * n + ((Char.ofNat b.toNat).toNat - 48)) := rfl
      rw [hstep, (isDigit_ofNat hb).2, ih hdigits, List.foldl_cons]

/-- **Digits are read as their value.** -/
theorem parseUnsigned_digits {digits : Bytes} (hne : digits ≠ [])
    (h : ∀ b ∈ digits, isAsciiDigit b) :
    parseUnsigned (digits.map fun b => Char.ofNat b.toNat) = some (priValue digits) := by
  have hall : ∀ c ∈ digits.map fun b => Char.ofNat b.toNat, c.isDigit :=
    List.forall_mem_map.mpr fun b hb => (isDigit_ofNat (h b hb)).1
  have hparse : parseDigits (digits.map fun b => Char.ofNat b.toNat) = some (priValue digits) := by
    rw [parseDigits, if_pos ⟨by simpa using hne, List.all_eq_true.mpr hall⟩]
    exact congrArg some (ofDigitChars_map h 0)
  rw [← hparse]
  unfold parseUnsigned
  split
  · rename_i rest heq
    exact absurd (hall '+' (heq ▸ List.mem_cons_self)) (by decide)
  · rfl

/-- Where the first `>` is. -/
theorem findIdx_eq_some_iff {bytes : Bytes} {pos : ℕ} :
    bytes.findIdx? (· = 62) = some pos ↔
      ∃ first body, bytes = first ++ 62 :: body ∧ 62 ∉ first ∧ first.length = pos := by
  induction bytes generalizing pos with
  | nil => simp
  | cons b bytes ih =>
      rw [List.findIdx?_cons]
      by_cases hb : b = 62
      · subst hb
        rw [if_pos (by decide)]
        constructor
        · intro h
          exact ⟨[], bytes, rfl, List.not_mem_nil, Option.some.inj h⟩
        · rintro ⟨first, body, heq, hnot, rfl⟩
          cases first with
          | nil => rfl
          | cons b' first => exact absurd ((List.cons.inj heq).1 ▸ List.mem_cons_self) hnot
      · rw [if_neg (by simpa using hb), Option.map_eq_some_iff]
        constructor
        · rintro ⟨i, hi, rfl⟩
          obtain ⟨first, body, rfl, hnot, rfl⟩ := ih.mp hi
          refine ⟨b :: first, body, rfl, ?_, rfl⟩
          simpa [hnot] using Ne.symm hb
        · rintro ⟨first, body, heq, hnot, rfl⟩
          cases first with
          | nil => exact absurd (List.cons.inj heq).1 hb
          | cons b' first =>
              obtain ⟨rfl, rfl⟩ := List.cons.inj heq
              exact ⟨first.length, ih.mpr ⟨first, body, rfl, by simp_all, rfl⟩, rfl⟩

/-- The `>` of a header is the first. -/
theorem IsHeader.findIdx {max : ℕ} {bytes digits body : Bytes}
    (h : IsHeader max bytes digits body) :
    bytes.findIdx? (· = 62) = some (digits.length + 1) := by
  refine findIdx_eq_some_iff.mpr ⟨60 :: digits, body, h.bytes_eq, ?_, rfl⟩
  intro hmem
  rcases List.mem_cons.mp hmem with heq | hmem
  · exact absurd heq (by decide)
  · exact absurd (h.all_digits _ hmem) (by decide)

/-- What both recognisers read between `<` and `>`. -/
theorem isHeader_of_findIdx {max pos : ℕ} {rest : Bytes}
    (hfind : (60 :: rest).findIdx? (· = 62) = some pos) (hpos : 2 ≤ pos) (hmax : pos ≤ max + 1)
    (hall : (((60 :: rest).take pos).drop 1).all isAsciiDigit)
    (hvalue : priValue (((60 :: rest).take pos).drop 1) ≤ 191) :
    ∃ digits body, IsHeader max (60 :: rest) digits body ∧
      ((60 :: rest).take pos).drop 1 = digits ∧ pos = digits.length + 1 := by
  obtain ⟨first, body, heq, -, rfl⟩ := findIdx_eq_some_iff.mp hfind
  cases first with
  | nil => simp at hpos
  | cons b digits =>
      obtain ⟨rfl, hrest⟩ := List.cons.inj heq
      have hdigits : ((60 :: rest).take (60 :: digits : Bytes).length).drop 1 = digits := by
        simp [hrest]
      rw [hdigits] at hall hvalue
      have hne : digits ≠ [] := by
        rintro rfl
        simp at hpos
      refine ⟨digits, body, ⟨heq, hne, ?_, List.all_eq_true.mp hall, hvalue⟩, hdigits, rfl⟩
      simpa using hmax

/-- **A header of at most four digits is recognised.** -/
theorem parseLeadingPri_eq_some_iff {text : List Char} {n offset : ℕ} :
    parseLeadingPri text = some (n, offset) ↔
      ∃ digits body, IsHeader 4 (utf8 text) digits body ∧ n = priValue digits ∧
        offset = digits.length + 2 := by
  unfold parseLeadingPri
  generalize utf8 text = bytes
  dsimp only
  constructor
  · intro h
    split_ifs at h with hhead
    obtain ⟨gtPos, hfind, h⟩ := Option.bind_eq_some_iff.mp h
    rw [List.findIdx?_take] at hfind
    obtain ⟨pos, hfirst, hguard⟩ := Option.bind_eq_some_iff.mp hfind
    obtain ⟨hlt, rfl⟩ : pos < 6 ∧ pos = gtPos := by simpa [Option.guard] using hguard
    split_ifs at h with hpos hall
    obtain ⟨m, hm, h⟩ := Option.bind_eq_some_iff.mp h
    split_ifs at h with hle
    cases h
    cases bytes with
    | nil => simp at hhead
    | cons b rest =>
        obtain rfl : b = 60 := by simpa using hhead
        have hne : ((60 :: rest).take pos).drop 1 ≠ [] := by
          intro hnil
          rw [hnil] at hm
          exact nomatch hm
        have hvalue := parseUnsigned_digits hne (List.all_eq_true.mp hall)
        rw [hm, Option.some.injEq] at hvalue
        obtain ⟨digits, body, hheader, hdigits, rfl⟩ := @isHeader_of_findIdx 4 _ _ hfirst
          (by omega) (by omega) hall (by omega)
        exact ⟨digits, body, hheader, hdigits ▸ hvalue, rfl⟩
  · rintro ⟨digits, body, h, rfl, rfl⟩
    have hlength := h.length_le
    have hpos : 0 < digits.length := List.length_pos_of_ne_nil h.nonempty
    have hdigits : (bytes.take (digits.length + 1)).drop 1 = digits := by
      simp [h.bytes_eq]
    rw [if_neg (by simp [h.bytes_eq]), List.findIdx?_take, h.findIdx]
    have hguard : Option.guard (fun j => decide (j < 6)) (digits.length + 1) =
        some (digits.length + 1) := by
      simp [Option.guard]
      omega
    simp only [Option.bind_some, Option.bind_eq_bind, hguard, hdigits]
    rw [if_neg (by omega), if_pos (List.all_eq_true.mpr h.all_digits),
      parseUnsigned_digits h.nonempty h.all_digits, Option.bind_some,
      if_neg (by have := h.value_le; omega)]

theorem IsHeader.splitAtByte {max : ℕ} {text : List Char} {digits body : Bytes}
    (h : IsHeader max (utf8 text) digits body) :
    ∃ before after, Limpid.splitAtByte (digits.length + 2) text = some (before, after) ∧
      utf8 after = body := by
  have hbytes : utf8 text = (60 :: digits) ++ 62 :: body := h.bytes_eq
  exact splitAtByte_after (by decide) hbytes

/-- A number up to 191 that is written between `<` and `>` is a header. -/
theorem isHeader_formatNat {n : ℕ} (hn : n ≤ 191) (body : List Char) :
    IsHeader 3 (utf8 ('<' :: (formatNat n ++ '>' :: body))) (utf8 (formatNat n)) (utf8 body) ∧
      priValue (utf8 (formatNat n)) = n ∧ (utf8 (formatNat n)).length = (formatNat n).length := by
  have hdigit : ∀ c ∈ formatNat n, c.isDigit := fun c => isDigit_of_mem_formatNat
  have hascii : ∀ c ∈ formatNat n, c.toNat < 128 := fun c hc =>
    (bounds_of_isDigit (hdigit c hc)).2.trans_lt (by decide)
  have hmap := utf8_of_ascii hascii
  have hlength : (utf8 (formatNat n)).length = (formatNat n).length := by rw [hmap, List.length_map]
  have hne : utf8 (formatNat n) ≠ [] := by
    rw [hmap]
    simpa using formatNat_ne_nil n
  have hall : ∀ b ∈ utf8 (formatNat n), isAsciiDigit b := by
    rw [hmap, List.forall_mem_map]
    exact fun c hc => isAsciiDigit_ofNat (hdigit c hc)
  have hread : (utf8 (formatNat n)).map (fun b => Char.ofNat b.toNat) = formatNat n := by
    rw [hmap, List.map_map]
    exact (List.map_congr_left fun c hc => ofNat_toNat_of_ascii (hascii c hc)).trans (List.map_id _)
  have hvalue : priValue (utf8 (formatNat n)) = n := by
    have hparse := parseUnsigned_digits hne hall
    rw [hread, parseUnsigned_formatNat] at hparse
    exact (Option.some.inj hparse).symm
  refine ⟨⟨?_, hne, ?_, hall, ?_⟩, hvalue, hlength⟩
  · have hopen : String.utf8EncodeChar '<' = [60] := rfl
    have hclose : String.utf8EncodeChar '>' = [62] := rfl
    simp [hopen, hclose]
  · rw [hlength]
    exact length_formatNat_le hn
  · rw [hvalue]
    exact hn

theorem IsHeader.mono {max larger : ℕ} {bytes digits body : Bytes}
    (h : IsHeader max bytes digits body) (hle : max ≤ larger) : IsHeader larger bytes digits body :=
  ⟨h.bytes_eq, h.nonempty, h.length_le.trans hle, h.all_digits, h.value_le⟩

/-! ## RFC 5424 -/

/-- `text.splitn(n, ' ')`. -/
def splitN : ℕ → List Char → List (List Char)
  | 0, _ => []
  | 1, text => [text]
  | n + 2, text =>
    if ' ' ∈ text then
      text.takeWhile (· ≠ ' ') :: splitN (n + 1) (text.dropWhile (· ≠ ' ')).tail
    else [text]

/-- The inner loop of `skip_structured_data`, from behind a `[`: a backslash and the byte behind it
are stepped over, and the first `]` after that ends the element. -/
def skipElement : Bytes → Bytes
  | [] => []
  | [_] => []
  | b :: b' :: rest =>
    if b = 92 then skipElement rest
    else if b = 93 then b' :: rest
    else skipElement (b' :: rest)

theorem length_skipElement_le (bytes : Bytes) : (skipElement bytes).length ≤ bytes.length - 1 := by
  fun_induction skipElement bytes with
  | case1 => simp
  | case2 => simp
  | case3 b' rest ih => simp only [List.length_cons]; omega
  | case4 => simp
  | case5 b b' rest _ _ ih => simp only [List.length_cons] at ih ⊢; omega

/-- The loop of `skip_structured_data`: elements, and the spaces behind each. -/
def skipElements : Bytes → Bytes
  | [] => []
  | b :: rest =>
    if b = 91 then skipElements ((skipElement rest).dropWhile (· = 32)) else b :: rest
termination_by bytes => bytes.length
decreasing_by
  have hle := length_skipElement_le rest
  have hdrop := (List.dropWhile_suffix (· = (32 : UInt8)) (l := skipElement rest)).length_le
  simp only [List.length_cons]
  omega

/-- `skip_structured_data`: the text after the elements. -/
def skipStructuredData (input : List Char) : Option (List Char) :=
  let input := input.dropWhile isWhiteSpace
  if input.head? = some '[' then
    let bytes := utf8 input
    (splitAtByte (bytes.length - (skipElements bytes).length) input).map Prod.snd
  else
    match input with
    | '-' :: rest => some (rest.dropWhile isWhiteSpace)
    | _ => some input

/-- `set_field`. -/
def setField (key : String) (value : List Char) : List (String × Value) :=
  if value ≠ ['-'] ∧ value ≠ [] then [(key, .string (String.ofList value))] else []

/-- The message is no header field: it may be `-`. -/
def msgField (msg : List Char) : List (String × Value) :=
  if msg ≠ [] then [("msg", .string (String.ofList msg))] else []

/-- `parse_rfc5424`, after the priority. -/
def parseRfc5424 (input : List Char) : Option (List (String × Value)) :=
  let parts := splitN 7 input
  let part := fun i => parts.getD i ['-']
  let remainder := parts.getD 6 []
  do
    let msg ← skipStructuredData remainder
    some (setField "timestamp" (part 1) ++ setField "hostname" (part 2) ++
      setField "appname" (part 3) ++
      (if part 4 ≠ ['-'] then setField "procid" (part 4) else []) ++
      (if part 5 ≠ ['-'] then setField "msgid" (part 5) else []) ++ msgField msg)

/-! ## RFC 3164 -/

/-- `rfc3164_timestamp_end`, at a character; `field` and `monthSpaces` are its counters. -/
def timestampEnd (field monthSpaces offset : ℕ) : List Char → Option ℕ
  | [] => none
  | c :: rest =>
    if c ≠ ' ' ∧ isWhiteSpace c then none
    else
      let next := offset + c.utf8Size
      match field with
      | 0 =>
        if c = ' ' then if offset = 0 then none else timestampEnd 1 1 next rest
        else timestampEnd 0 monthSpaces next rest
      | 1 =>
        if c = ' ' then
          if monthSpaces + 1 > 2 then none else timestampEnd 1 (monthSpaces + 1) next rest
        else timestampEnd 2 monthSpaces next rest
      | 2 => timestampEnd (if c = ' ' then 3 else 2) monthSpaces next rest
      | 3 => if c = ' ' then none else timestampEnd 4 monthSpaces next rest
      | _ => if c = ' ' then some (offset + 1) else timestampEnd 4 monthSpaces next rest

/-- `next_token`. -/
def nextToken (input : List Char) : Option (List Char × List Char) :=
  let input := input.dropWhile isWhiteSpace
  match findByte ' ' input with
  | some pos => do
    let (token, _) ← splitAtByte pos input
    let (_, rest) ← splitAtByte (pos + 1) input
    some (token, rest)
  | none => some (input, [])

/-- `is_ascii_alphanumeric`. -/
def isAsciiAlphanumeric (b : UInt8) : Bool :=
  isAsciiDigit b || (65 ≤ b && b ≤ 90) || (97 ≤ b && b ≤ 122)

/-- The brackets behind a tag: the process id and what follows it, or nothing when a bracket is not
closed. -/
def parseProcid : List Char → Option (Option (Option (List Char) × List Char))
  | '[' :: rest =>
    match findByte ']' rest with
    | some close => do
      let (pid, _) ← splitAtByte close rest
      let (_, afterPid) ← splitAtByte (close + 1) rest
      some (some (some pid, afterPid))
    | none => some none
  | afterTag => some (some (none, afterTag))

/-- `parse_tag_and_msg`: the tag, the process id and the message. -/
def parseTagAndMsg (input : List Char) : Option (List Char × Option (List Char) × List Char) :=
  let input := input.dropWhile isWhiteSpace
  let tagEnd := (((utf8 input).take 32).takeWhile isAsciiAlphanumeric).length
  if tagEnd = 0 then some ([], none, input)
  else do
    let (tag, afterTag) ← splitAtByte tagEnd input
    match ← parseProcid afterTag with
    | none => some ([], none, input)
    | some (procid, afterPid) =>
      match afterPid with
      | ':' :: ' ' :: msg => some (tag, procid, msg)
      | [':'] => some (tag, procid, [])
      | _ => some ([], none, input)

/-- The timestamp of a header that has one, and what follows it. -/
def takeTimestamp (input : List Char) : Option (Option (List Char) × List Char) :=
  match timestampEnd 0 0 0 input with
  | some idx => (splitAtByte idx input).map fun parts => (some (trim parts.1), parts.2)
  | none => some (none, input)

/-- `parse_rfc3164`, after the priority. -/
def parseRfc3164 (input : List Char) : Option (List (String × Value)) := do
  let (timestamp, rest) ← takeTimestamp input
  let (hostname, afterHost) ← nextToken rest
  let (appname, procid, msg) ← parseTagAndMsg afterHost
  some (setField "timestamp" (timestamp.getD []) ++ setField "hostname" hostname ++
    setField "appname" appname ++ setField "procid" (procid.getD []) ++ msgField msg)

/-! ## The function -/

/-- A digit and a space begin an RFC 5424 header. -/
def parseBody (afterPri : List Char) : Option (List (String × Value)) :=
  let bytes := utf8 afterPri
  if bytes.length ≥ 2 ∧ isAsciiDigit (bytes.getD 0 0) ∧ bytes.getD 1 0 = 32 then
    parseRfc5424 afterPri
  else parseRfc3164 afterPri

/-- `apply_defaults`, to the entries of an object. -/
def applyDefaults (defaults entries : List (String × Value)) : List (String × Value) :=
  entries ++ defaults.filter fun entry => !(entries.any fun other => other.1 = entry.1)

/-- The end of `parse_impl`: the second argument. -/
def withDefaults (entries : List (String × Value)) : Option Value → Except String Value
  | none | some .null => .ok (.object entries)
  | some (.object given) => .ok (.object (applyDefaults given entries))
  | some other =>
    .error ("syslog.parse(): second argument must be a hash literal, got " ++ other.typeName)

/-- `parse_impl` on a text: none when a slice panics. -/
def parseText (text : List Char) (defaults : Option Value) : Option (Except String Value) :=
  match parseLeadingPri text with
  | none => some (.error "syslog.parse(): no PRI header")
  | some (pri, bodyOffset) => do
    let (_, afterPri) ← splitAtByte bodyOffset text
    let fields ← parseBody afterPri
    let entries :=
      [("pri", Value.int (Int64.ofNat pri)), ("facility", .int (Int64.ofNat (pri / 8))),
        ("severity", .int (Int64.ofNat (pri % 8)))] ++ fields
    some (withDefaults entries defaults)

/-- `syslog.parse(text[, defaults])`. -/
def parse (rt : Runtime) (text : Value) (defaults : Option Value) : Option (Except String Value) :=
  match text with
  | .bytes _ => some (.error "expected text value, got bytes")
  | text => parseText (Dsl.valueToString rt text).toList defaults

/-! ## The slices

Every index at which a text is sliced is its end, or behind an ASCII byte.
-/

/-- A position at the end, or behind an ASCII byte. -/
def IsBehindAscii (bytes rest : Bytes) : Prop :=
  rest = [] ∨ ∃ first b, b < 128 ∧ bytes = first ++ b :: rest

theorem IsBehindAscii.trans {bytes middle rest : Bytes} (h : IsBehindAscii bytes middle)
    (h' : IsBehindAscii middle rest) : IsBehindAscii bytes rest := by
  rcases h' with rfl | ⟨second, b, hb, rfl⟩
  · exact .inl rfl
  rcases h with hnil | ⟨first, b', hb', rfl⟩
  · simp at hnil
  · exact .inr ⟨first ++ b' :: second, b, hb, by simp⟩

theorem IsBehindAscii.cons {bytes rest : Bytes} (b : UInt8) (h : IsBehindAscii bytes rest) :
    IsBehindAscii (b :: bytes) rest := by
  rcases h with rfl | ⟨first, b', hb', rfl⟩
  · exact .inl rfl
  · exact .inr ⟨b :: first, b', hb', rfl⟩

/-- An element ends behind its `]`. -/
theorem isBehindAscii_skipElement (bytes : Bytes) : IsBehindAscii bytes (skipElement bytes) := by
  fun_induction skipElement bytes with
  | case1 => exact .inl rfl
  | case2 => exact .inl rfl
  | case3 b' rest ih => exact (ih.cons b').cons 92
  | case4 => exact .inr ⟨[], 93, by decide, rfl⟩
  | case5 b b' rest _ _ ih => exact ih.cons b

/-- Spaces are stepped over one by one. -/
theorem eq_or_isBehindAscii_dropSpaces (bytes : Bytes) :
    bytes.dropWhile (· = 32) = bytes ∨ IsBehindAscii bytes (bytes.dropWhile (· = 32)) := by
  induction bytes with
  | nil => exact .inl rfl
  | cons b bytes ih =>
      by_cases hb : b = 32
      · rw [List.dropWhile_cons_of_pos (by simpa using hb)]
        refine .inr ?_
        rcases ih with heq | hbehind
        · exact .inr ⟨[], b, hb ▸ by decide, by rw [heq]; rfl⟩
        · exact hbehind.cons b
      · rw [List.dropWhile_cons_of_neg (by simpa using hb)]
        exact .inl rfl

theorem isBehindAscii_skipElements (bytes : Bytes) :
    skipElements bytes = bytes ∨ IsBehindAscii bytes (skipElements bytes) := by
  fun_induction skipElements bytes with
  | case1 => exact .inl rfl
  | case2 rest ih =>
      have helement := isBehindAscii_skipElement rest
      have hspaces : IsBehindAscii rest ((skipElement rest).dropWhile (· = 32)) := by
        rcases eq_or_isBehindAscii_dropSpaces (skipElement rest) with heq | hbehind
        · rw [heq]
          exact helement
        · exact helement.trans hbehind
      refine .inr ?_
      rcases ih with heq | hbehind
      · rw [heq]
        exact hspaces.cons 91
      · exact (hspaces.trans hbehind).cons 91
  | case3 => exact .inl rfl

/-- A text may be cut at such a position. -/
theorem IsBehindAscii.isSome_splitAtByte {text : List Char} {rest : Bytes}
    (h : IsBehindAscii (utf8 text) rest) :
    (splitAtByte ((utf8 text).length - rest.length) text).isSome := by
  rcases h with rfl | ⟨first, b, hb, heq⟩
  · rw [List.length_nil, Nat.sub_zero, splitAtByte_end]
    rfl
  · have hlength : (utf8 text).length - rest.length = first.length + 1 := by
      rw [heq, List.length_append, List.length_cons]
      omega
    obtain ⟨before, after, hsplit, -⟩ := splitAtByte_after hb heq
    rw [hlength, hsplit]
    rfl

theorem isSome_bind {α β : Type} {x : Option α} {f : α → Option β} (hx : x.isSome)
    (hf : ∀ a, (f a).isSome) : (x >>= f).isSome := by
  obtain ⟨a, rfl⟩ := Option.isSome_iff_exists.mp hx
  exact hf a

theorem isSome_skipStructuredData (input : List Char) : (skipStructuredData input).isSome := by
  rw [skipStructuredData]
  split_ifs with hbracket
  · rw [Option.isSome_map]
    rcases isBehindAscii_skipElements (utf8 (input.dropWhile isWhiteSpace)) with heq | hbehind
    · rw [heq, Nat.sub_self, splitAtByte]
      rfl
    · exact hbehind.isSome_splitAtByte
  · split <;> rfl

theorem isSome_parseRfc5424 (input : List Char) : (parseRfc5424 input).isSome :=
  isSome_bind (isSome_skipStructuredData _) fun _ => rfl

/-- `idx` is behind a space of the text, which begins at `offset`. -/
def IsBehindSpace (offset idx : ℕ) (text : List Char) : Prop :=
  ∃ before after, text = before ++ ' ' :: after ∧ idx = offset + (utf8 before).length + 1

theorem IsBehindSpace.cons {offset idx : ℕ} {text : List Char} (c : Char)
    (h : IsBehindSpace (offset + c.utf8Size) idx text) : IsBehindSpace offset idx (c :: text) := by
  obtain ⟨before, after, rfl, rfl⟩ := h
  refine ⟨c :: before, after, rfl, ?_⟩
  simp only [utf8_cons, List.length_append, String.length_utf8EncodeChar]
  omega

/-- The timestamp ends behind a space, which is the one of the last field. -/
theorem isBehindSpace_of_timestampEnd {field monthSpaces offset idx : ℕ} {text : List Char}
    (h : timestampEnd field monthSpaces offset text = some idx) :
    IsBehindSpace offset idx text := by
  fun_induction timestampEnd field monthSpaces offset text with
  | case1 | case2 | case3 | case6 | case10 => exact nomatch h
  | case12 => cases h; exact ⟨[], _, rfl, rfl⟩
  | case4 | case5 | case7 | case8 | case9 | case11 | case13 =>
      rename_i ih
      exact (ih h).cons _

theorem splitAtByte_behind (before after : List Char) (c : Char) :
    splitAtByte ((utf8 before).length + c.utf8Size) (before ++ c :: after)
      = some (before ++ [c], after) := by
  have hlength : (utf8 (before ++ [c])).length = (utf8 before).length + c.utf8Size := by simp
  have htext : before ++ c :: after = (before ++ [c]) ++ after := by simp
  rw [← hlength, htext, splitAtByte_utf8]

/-- A found character is cut out of its text. -/
theorem exists_split_of_findByte {c : Char} {text : List Char} {pos : ℕ} (hc : c.utf8Size = 1)
    (h : findByte c text = some pos) :
    ∃ before after, splitAtByte pos text = some (before, c :: after) ∧
      splitAtByte (pos + 1) text = some (before ++ [c], after) := by
  obtain ⟨before, after, rfl, rfl⟩ := findByte_eq_some h
  exact ⟨before, after, splitAtByte_utf8 .., hc ▸ splitAtByte_behind before after c⟩

theorem isSome_nextToken (input : List Char) : (nextToken input).isSome := by
  rw [nextToken]
  cases hfind : findByte ' ' (input.dropWhile isWhiteSpace) with
  | none => rfl
  | some pos =>
      obtain ⟨before, after, hsplit, hbehind⟩ := exists_split_of_findByte (by decide) hfind
      simp only [hsplit, hbehind]
      rfl

theorem ascii_of_isAsciiAlphanumeric {b : UInt8} (h : isAsciiAlphanumeric b) : b < 128 := by
  simp only [isAsciiAlphanumeric, isAsciiDigit, Bool.or_eq_true, Bool.and_eq_true,
    decide_eq_true_eq, UInt8.le_iff_toNat_le] at h
  have hlt : b.toNat < 128 := by
    rcases h with (⟨-, hle⟩ | ⟨-, hle⟩) | ⟨-, hle⟩ <;> exact hle.trans_lt (by decide)
  exact UInt8.lt_iff_toNat_lt.mpr hlt

/-- A run of ASCII bytes at the beginning of a text ends at a character. -/
theorem exists_split_of_takeWhile {text : List Char} {p : UInt8 → Bool} (n : ℕ)
    (hp : ∀ b, p b → b < 128) :
    ∃ parts, splitAtByte (((utf8 text).take n).takeWhile p).length text = some parts := by
  rcases List.eq_nil_or_concat (((utf8 text).take n).takeWhile p) with hnil | ⟨first, b, hrun⟩
  · exact ⟨([], text), by simp [hnil, splitAtByte]⟩
  · have hmem : b ∈ ((utf8 text).take n).takeWhile p := by simp [hrun]
    have hb : b < 128 := hp b (List.mem_takeWhile_imp hmem)
    have hprefix : first.concat b <+: utf8 text :=
      hrun ▸ (List.takeWhile_prefix p).trans (List.take_prefix n _)
    obtain ⟨second, hsecond⟩ := hprefix
    have htext : utf8 text = first ++ b :: second := by rw [← hsecond]; simp
    obtain ⟨before, after, hsplit, -⟩ := splitAtByte_after hb htext
    exact ⟨(before, after), by rw [hrun, List.length_concat, hsplit]⟩

theorem isSome_parseProcid (afterTag : List Char) : (parseProcid afterTag).isSome := by
  fun_cases parseProcid afterTag with
  | case1 rest close hfind =>
      obtain ⟨before, after, hsplit, hbehind⟩ := exists_split_of_findByte (by decide) hfind
      simp only [hsplit, hbehind]
      rfl
  | case2 => rfl
  | case3 => rfl

theorem isSome_parseTagAndMsg (input : List Char) : (parseTagAndMsg input).isSome := by
  obtain ⟨parts, hsplit⟩ := @exists_split_of_takeWhile (input.dropWhile isWhiteSpace) _ 32
    fun b => @ascii_of_isAsciiAlphanumeric b
  rw [parseTagAndMsg]
  split_ifs
  · rfl
  · refine isSome_bind (hsplit ▸ rfl) fun ⟨tag, afterTag⟩ =>
      isSome_bind (isSome_parseProcid afterTag) fun procid => ?_
    cases procid with
    | none => rfl
    | some pair => dsimp only; split <;> rfl

theorem isSome_takeTimestamp (input : List Char) : (takeTimestamp input).isSome := by
  rw [takeTimestamp]
  cases htimestamp : timestampEnd 0 0 0 input with
  | none => rfl
  | some idx =>
      obtain ⟨before, after, rfl, hidx⟩ := isBehindSpace_of_timestampEnd htimestamp
      have hsplit := splitAtByte_behind before after ' '
      have hsize : ' '.utf8Size = 1 := by decide
      rw [hsize, ← Nat.zero_add (utf8 before).length, ← hidx] at hsplit
      simp only [hsplit]
      rfl

theorem isSome_parseRfc3164 (input : List Char) : (parseRfc3164 input).isSome :=
  isSome_bind (isSome_takeTimestamp input) fun ⟨_, rest⟩ =>
    isSome_bind (isSome_nextToken rest) fun ⟨_, afterHost⟩ =>
      isSome_bind (isSome_parseTagAndMsg afterHost) fun _ => rfl

theorem isSome_parseBody (afterPri : List Char) : (parseBody afterPri).isSome := by
  rw [parseBody]
  split_ifs
  · exact isSome_parseRfc5424 afterPri
  · exact isSome_parseRfc3164 afterPri

/-- The body begins behind the `>`. -/
theorem isSome_splitAtByte_of_parseLeadingPri {text : List Char} {pri bodyOffset : ℕ}
    (h : parseLeadingPri text = some (pri, bodyOffset)) :
    (splitAtByte bodyOffset text).isSome := by
  obtain ⟨digits, body, hheader, -, rfl⟩ := parseLeadingPri_eq_some_iff.mp h
  obtain ⟨before, after, hsplit, -⟩ := hheader.splitAtByte
  rw [hsplit]
  rfl

/-- **No slice panics.** -/
theorem isSome_parseText (text : List Char) (defaults : Option Value) :
    (parseText text defaults).isSome := by
  rw [parseText]
  cases hpri : parseLeadingPri text with
  | none => rfl
  | some found =>
      obtain ⟨pri, bodyOffset⟩ := found
      exact isSome_bind (isSome_splitAtByte_of_parseLeadingPri hpri) fun ⟨_, afterPri⟩ =>
        isSome_bind (isSome_parseBody afterPri) fun _ => rfl

end Limpid.Functions.Syslog
