import Mathlib.Data.Nat.Bitwise
import Limpid.Bytes

/-!
# UTF-8

Where a UTF-8 text may be cut.  The first byte of a character is told from the others by its value
(`IsUTF8FirstByte`), so a text may be cut before any such byte, and only there
(`validUtf8_append_iff`).  An ASCII byte is a character of its own.
-/

namespace Limpid

/-- The bytes of a text. -/
def utf8 (text : List Char) : Bytes := text.flatMap String.utf8EncodeChar

@[simp] theorem utf8_nil : utf8 [] = [] := rfl

@[simp] theorem utf8_cons (c : Char) (text : List Char) :
    utf8 (c :: text) = String.utf8EncodeChar c ++ utf8 text := rfl

@[simp] theorem utf8_append (first second : List Char) :
    utf8 (first ++ second) = utf8 first ++ utf8 second := List.flatMap_append

/-- The valid byte strings are the bytes of texts. -/
theorem validUtf8_iff {data : Bytes} : validUtf8 data = true ↔ ∃ text, utf8 text = data := by
  rw [validUtf8, ByteArray.validateUTF8_eq_true_iff]
  constructor
  · rintro ⟨text, htext⟩
    refine ⟨text, ?_⟩
    have hdata := congrArg (fun bytes => bytes.data.toList) htext
    simpa [List.utf8Encode, utf8] using hdata.symm
  · rintro ⟨text, rfl⟩
    exact ⟨text, by apply ByteArray.ext; simp [List.utf8Encode, utf8]⟩

theorem validUtf8_utf8 (text : List Char) : validUtf8 (utf8 text) = true :=
  validUtf8_iff.mpr ⟨text, rfl⟩

@[simp] theorem validUtf8_nil : validUtf8 [] = true := validUtf8_utf8 []

theorem validUtf8_append {first second : Bytes} (hfirst : validUtf8 first = true)
    (hsecond : validUtf8 second = true) : validUtf8 (first ++ second) = true := by
  obtain ⟨text, rfl⟩ := validUtf8_iff.mp hfirst
  obtain ⟨text', rfl⟩ := validUtf8_iff.mp hsecond
  exact validUtf8_iff.mpr ⟨text ++ text', utf8_append ..⟩

/-- A character begins with its first byte, and has no other. -/
theorem isUTF8FirstByte_getElem_iff (c : Char) {i : ℕ} (hi : i < (String.utf8EncodeChar c).length) :
    (String.utf8EncodeChar c)[i].IsUTF8FirstByte ↔ i = 0 :=
  UInt8.isUTF8FirstByte_getElem_utf8EncodeChar

/-- A text begins with the first byte of a character. -/
theorem isUTF8FirstByte_head {b : UInt8} {rest : Bytes} (h : validUtf8 (b :: rest) = true) :
    b.IsUTF8FirstByte := by
  obtain ⟨text, htext⟩ := validUtf8_iff.mp h
  cases text with
  | nil => exact nomatch htext
  | cons c text =>
      have hpos : 0 < (String.utf8EncodeChar c).length := by simp [c.utf8Size_pos]
      have hhead : (String.utf8EncodeChar c)[0] = b := by
        have hget := congrArg (fun bytes => bytes[0]?) htext
        simpa [List.getElem?_append_left hpos, List.getElem?_eq_getElem hpos] using hget
      exact hhead ▸ (isUTF8FirstByte_getElem_iff c hpos).mpr rfl

/-- **A text may be cut before the first byte of a character.** -/
theorem exists_split_of_utf8 {text : List Char} {first second : Bytes} {b : UInt8}
    (hb : b.IsUTF8FirstByte) (h : utf8 text = first ++ b :: second) :
    ∃ before after, text = before ++ after ∧ utf8 before = first ∧ utf8 after = b :: second := by
  induction text generalizing first with
  | nil => simp at h
  | cons c text ih =>
      rcases List.append_eq_append_iff.mp h with ⟨more, hfirst, hrest⟩ | ⟨more, hchar, hrest⟩
      · -- the cut is after the character
        obtain ⟨before, after, rfl, hbefore, hafter⟩ := ih hrest
        exact ⟨c :: before, after, rfl, by rw [utf8_cons, hbefore, hfirst], hafter⟩
      · cases more with
        | nil =>
            rw [List.append_nil] at hchar
            exact ⟨[c], text, rfl, by simp [hchar], hrest.symm⟩
        | cons b' more =>
            -- a byte of the character that is a first byte is the first
            obtain ⟨rfl, hsecond⟩ := List.cons.inj (List.cons_append .. ▸ hrest)
            have hi : first.length < (String.utf8EncodeChar c).length := by simp [hchar]
            have hget : (String.utf8EncodeChar c)[first.length] = b := by simp [hchar]
            have hzero := (isUTF8FirstByte_getElem_iff c hi).mp (hget ▸ hb)
            obtain rfl := List.eq_nil_of_length_eq_zero hzero
            exact ⟨[], c :: text, rfl, rfl, h⟩

theorem validUtf8_of_append {first second : Bytes} {b : UInt8} (hb : b.IsUTF8FirstByte)
    (h : validUtf8 (first ++ b :: second) = true) :
    validUtf8 first = true ∧ validUtf8 (b :: second) = true := by
  obtain ⟨text, htext⟩ := validUtf8_iff.mp h
  obtain ⟨before, after, -, hbefore, hafter⟩ := exists_split_of_utf8 hb htext
  exact ⟨validUtf8_iff.mpr ⟨before, hbefore⟩, validUtf8_iff.mpr ⟨after, hafter⟩⟩

/-! ## ASCII -/

theorem isUTF8FirstByte_of_ascii {b : UInt8} (h : b < 128) : b.IsUTF8FirstByte := by
  refine .inl (UInt8.toNat_inj.mp ?_)
  have hbit : b.toNat.testBit 7 = false := Nat.testBit_lt_two_pow (UInt8.lt_iff_toNat_lt.mp h)
  calc (b &&& 128).toNat = b.toNat &&& 2 ^ 7 := rfl
    _ = (b.toNat.testBit 7).toNat * 2 ^ 7 := Nat.and_two_pow b.toNat 7
    _ = 0 := by rw [hbit]; rfl

/-- An ASCII byte is a character. -/
theorem utf8EncodeChar_ofNat {b : UInt8} (h : b < 128) :
    String.utf8EncodeChar (Char.ofNat b.toNat) = [b] := by
  have hlt : b.toNat < 128 := UInt8.lt_iff_toNat_lt.mp h
  have hvalid : b.toNat.isValidChar := .inl (by omega)
  have hval : (Char.ofNat b.toNat).val.toNat = b.toNat := by
    rw [Char.ofNat, dif_pos hvalid]
    rfl
  have hle : b.toNat ≤ 0x7f := by omega
  simp only [String.utf8EncodeChar, hval, if_pos hle, UInt8.ofNat_toNat]

/-- A character that begins with an ASCII byte has no other. -/
theorem utf8EncodeChar_of_ascii {c : Char} {b : UInt8} {rest : Bytes} (hb : b < 128)
    (h : String.utf8EncodeChar c = b :: rest) : rest = [] := by
  have hlt : b.toNat < 128 := UInt8.lt_iff_toNat_lt.mp hb
  simp only [String.utf8EncodeChar] at h
  split_ifs at h
  · exact (List.cons.inj h).2.symm
  all_goals
    -- a first byte of several has its high bits set
    have hhead := congrArg UInt8.toNat (List.cons.inj h).1
    simp only [UInt8.toNat_ofNat'] at hhead
    omega

theorem utf8EncodeChar_ascii {c : Char} (h : c.toNat < 128) :
    String.utf8EncodeChar c = [UInt8.ofNat c.toNat] := by
  have hle : c.val.toNat ≤ 0x7f := Nat.le_of_lt_succ h
  simp only [String.utf8EncodeChar, if_pos hle]
  rfl

/-- An ASCII text has a byte for each character. -/
theorem utf8_of_ascii {text : List Char} (h : ∀ c ∈ text, c.toNat < 128) :
    utf8 text = text.map fun c => UInt8.ofNat c.toNat := by
  induction text with
  | nil => rfl
  | cons c text ih =>
      obtain ⟨hc, htext⟩ := List.forall_mem_cons.mp h
      rw [utf8_cons, utf8EncodeChar_ascii hc, ih htext]
      rfl

theorem ofNat_toNat_of_ascii {c : Char} (h : c.toNat < 128) :
    Char.ofNat (UInt8.ofNat c.toNat).toNat = c := by
  rw [UInt8.toNat_ofNat', Nat.mod_eq_of_lt (h.trans (by decide)), Char.ofNat_toNat]

/-- The character that is one byte long is that byte. -/
theorem eq_ofNat_of_utf8EncodeChar {c : Char} {b : UInt8} (h : String.utf8EncodeChar c = [b]) :
    c = Char.ofNat b.toNat := by
  have hsize : c.utf8Size = 1 := by simpa using congrArg List.length h
  have hle : c.toNat ≤ 127 := UInt32.le_iff_toNat_le.mp (Char.utf8Size_eq_one_iff.mp hsize)
  have hlt : c.toNat < 128 := by omega
  rw [utf8EncodeChar_ascii hlt, List.cons.injEq] at h
  have hb : b.toNat = c.toNat := by
    rw [← h.1, UInt8.toNat_ofNat', Nat.mod_eq_of_lt (hlt.trans (by decide))]
  rw [hb, Char.ofNat_toNat]

/-- Around an ASCII byte a text is cut into two, and the byte is a character. -/
theorem exists_around_of_utf8 {text : List Char} {first second : Bytes} {b : UInt8} (hb : b < 128)
    (h : utf8 text = first ++ b :: second) :
    ∃ before c after, text = before ++ c :: after ∧ utf8 before = first ∧
      String.utf8EncodeChar c = [b] ∧ utf8 after = second := by
  obtain ⟨before, after, rfl, hbefore, hafter⟩ :=
    exists_split_of_utf8 (isUTF8FirstByte_of_ascii hb) h
  cases after with
  | nil => exact nomatch hafter
  | cons c after =>
      cases hchar : String.utf8EncodeChar c with
      | nil => exact absurd hchar String.utf8EncodeChar_ne_nil
      | cons first more =>
          rw [utf8_cons, hchar, List.cons_append] at hafter
          obtain ⟨rfl, hrest⟩ := List.cons.inj hafter
          obtain rfl := utf8EncodeChar_of_ascii hb hchar
          exact ⟨before, c, after, rfl, hbefore, hchar, hrest⟩

/-- An ASCII byte of a character is all of it. -/
theorem utf8EncodeChar_of_mem {c : Char} {b : UInt8} (hb : b < 128)
    (h : b ∈ String.utf8EncodeChar c) : String.utf8EncodeChar c = [b] := by
  obtain ⟨i, hi, hget⟩ := List.mem_iff_getElem.mp h
  have hzero : i = 0 :=
    (isUTF8FirstByte_getElem_iff c hi).mp (hget ▸ isUTF8FirstByte_of_ascii hb)
  subst hzero
  cases hchar : String.utf8EncodeChar c with
  | nil => exact absurd hchar String.utf8EncodeChar_ne_nil
  | cons first rest =>
      simp only [hchar, List.getElem_cons_zero] at hget
      subst hget
      rw [utf8EncodeChar_of_ascii hb hchar]

/-- Behind its first byte a character has no ASCII byte. -/
theorem ne_of_mem_tail {c : Char} {first b a : UInt8} {more : Bytes}
    (hchar : String.utf8EncodeChar c = first :: more) (hb : b ∈ more) (ha : a < 128) : b ≠ a := by
  rintro rfl
  have hsingle := utf8EncodeChar_of_mem ha (hchar ▸ List.mem_cons_of_mem first hb)
  rw [hchar] at hsingle
  rw [(List.cons.inj hsingle).2] at hb
  exact absurd hb List.not_mem_nil

/-- Comparing the bytes of a character with an ASCII byte compares the character. -/
theorem eq_iff_of_mem_utf8EncodeChar {c : Char} {b b' : UInt8} (hb : b < 128)
    (h : b' ∈ String.utf8EncodeChar c) : b' = b ↔ c = Char.ofNat b.toNat := by
  constructor
  · rintro rfl
    exact eq_ofNat_of_utf8EncodeChar (utf8EncodeChar_of_mem hb h)
  · rintro rfl
    rw [utf8EncodeChar_ofNat hb] at h
    exact List.mem_singleton.mp h

/-- A predicate that does not tell the bytes of a character apart is one of characters. -/
theorem takeWhile_utf8 {p : UInt8 → Bool} {p' : Char → Bool}
    (h : ∀ c, ∀ b ∈ String.utf8EncodeChar c, p b = p' c) (text : List Char) :
    (utf8 text).takeWhile p = utf8 (text.takeWhile p') := by
  induction text with
  | nil => rfl
  | cons c text ih =>
      rw [utf8_cons]
      by_cases hc : p' c = true
      · have hall : ∀ b ∈ String.utf8EncodeChar c, p b = true := fun b hb => (h c b hb).trans hc
        rw [List.takeWhile_append_of_pos hall, List.takeWhile_cons_of_pos hc, ih, utf8_cons]
      · cases hchar : String.utf8EncodeChar c with
        | nil => exact absurd hchar String.utf8EncodeChar_ne_nil
        | cons b more =>
            have hb : ¬ p b = true := by
              rw [h c b (hchar ▸ List.mem_cons_self)]
              exact hc
            rw [List.cons_append, List.takeWhile_cons_of_neg hb, List.takeWhile_cons_of_neg hc,
              utf8_nil]

/-- What an ASCII byte at a character is. -/
theorem getElem?_utf8_eq_some_iff {before after : List Char} {b : UInt8} (hb : b < 128) :
    (utf8 (before ++ after))[(utf8 before).length]? = some b ↔
      ∃ rest, after = Char.ofNat b.toNat :: rest := by
  rw [utf8_append, List.getElem?_append_right le_rfl, Nat.sub_self]
  cases after with
  | nil => simp
  | cons c after =>
      cases hchar : String.utf8EncodeChar c with
      | nil => exact absurd hchar String.utf8EncodeChar_ne_nil
      | cons b' more =>
          have hmem : b' ∈ String.utf8EncodeChar c := hchar ▸ List.mem_cons_self
          simp [hchar, eq_iff_of_mem_utf8EncodeChar hb hmem]

theorem validUtf8_of_ascii {data : Bytes} (h : ∀ b ∈ data, b < 128) : validUtf8 data = true := by
  induction data with
  | nil => exact validUtf8_nil
  | cons b data ih =>
      obtain ⟨hb, hdata⟩ := List.forall_mem_cons.mp h
      have hfirst : validUtf8 [b] = true :=
        validUtf8_iff.mpr ⟨[Char.ofNat b.toNat], by simp [utf8EncodeChar_ofNat hb]⟩
      exact validUtf8_append hfirst (ih hdata)

/-- **A text may be cut around an ASCII character.** -/
theorem validUtf8_around {first second : Bytes} {b : UInt8} (hb : b < 128)
    (h : validUtf8 (first ++ b :: second) = true) :
    validUtf8 first = true ∧ validUtf8 (first ++ [b]) = true ∧ validUtf8 second = true := by
  obtain ⟨text, htext⟩ := validUtf8_iff.mp h
  obtain ⟨before, c, after, -, hbefore, hc, hafter⟩ := exists_around_of_utf8 hb htext
  have hfirst : validUtf8 first = true := validUtf8_iff.mpr ⟨before, hbefore⟩
  refine ⟨hfirst, validUtf8_append hfirst ?_, validUtf8_iff.mpr ⟨after, hafter⟩⟩
  exact validUtf8_of_ascii (by simpa using hb)

/-- A text begins with an ASCII text where its bytes do. -/
theorem utf8_prefix_iff {first text : List Char} (h : ∀ c ∈ first, c.toNat < 128) :
    utf8 first <+: utf8 text ↔ first <+: text := by
  constructor
  · intro hprefix
    induction first generalizing text with
    | nil => exact List.nil_prefix
    | cons c first ih =>
        obtain ⟨hc, hfirst⟩ := List.forall_mem_cons.mp h
        have hb : UInt8.ofNat c.toNat < 128 := by
          rw [UInt8.lt_iff_toNat_lt, UInt8.toNat_ofNat']
          exact (Nat.mod_le ..).trans_lt hc
        rw [utf8_cons, utf8EncodeChar_ascii hc, List.singleton_append] at hprefix
        have hget : (utf8 ([] ++ text))[(utf8 []).length]? = some (UInt8.ofNat c.toNat) := by
          obtain ⟨rest, hrest⟩ := hprefix
          rw [List.nil_append, ← hrest]
          rfl
        obtain ⟨rest, rfl⟩ := (getElem?_utf8_eq_some_iff hb).mp hget
        rw [ofNat_toNat_of_ascii hc] at hprefix ⊢
        rw [utf8_cons, utf8EncodeChar_ascii hc, List.singleton_append] at hprefix
        exact List.cons_prefix_cons.mpr ⟨rfl, ih hfirst (List.cons_prefix_cons.mp hprefix).2⟩
  · rintro ⟨rest, rfl⟩
    exact ⟨utf8 rest, (utf8_append ..).symm⟩

/-! ## Slices -/

/-- `&text[..i]` and `&text[i..]`: none where the index is not at a character, which panics. -/
def splitAtByte : ℕ → List Char → Option (List Char × List Char)
  | 0, text => some ([], text)
  | _ + 1, [] => none
  | i + 1, c :: text =>
    if c.utf8Size ≤ i + 1 then
      (splitAtByte (i + 1 - c.utf8Size) text).map fun parts => (c :: parts.1, parts.2)
    else none

/-- `text.find(c)`, a byte index. -/
def findByte (c : Char) (text : List Char) : Option ℕ :=
  (text.findIdx? (· = c)).map fun i => (utf8 (text.take i)).length

theorem splitAtByte_utf8 (first second : List Char) :
    splitAtByte (utf8 first).length (first ++ second) = some (first, second) := by
  induction first with
  | nil => simp [splitAtByte]
  | cons c first ih =>
      have hsize : (utf8 (c :: first)).length = c.utf8Size + (utf8 first).length := by simp
      obtain ⟨size, hpos⟩ := Nat.exists_eq_succ_of_ne_zero c.utf8Size_pos.ne'
      rw [hsize, hpos, Nat.succ_add, List.cons_append, splitAtByte, if_pos (by omega)]
      have hrest : size + (utf8 first).length + 1 - c.utf8Size = (utf8 first).length := by omega
      rw [hrest, ih]
      rfl

theorem utf8_length_append (first second : List Char) :
    (utf8 (first ++ second)).length = (utf8 first).length + (utf8 second).length := by simp

/-- The index after an ASCII byte is at a character. -/
theorem splitAtByte_after {text : List Char} {first second : Bytes} {b : UInt8} (hb : b < 128)
    (h : utf8 text = first ++ b :: second) :
    ∃ before after, splitAtByte (first.length + 1) text = some (before, after) ∧
      utf8 after = second := by
  obtain ⟨before, c, after, rfl, hbefore, hc, hafter⟩ := exists_around_of_utf8 hb h
  have hsize : c.utf8Size = 1 := by simpa using congrArg List.length hc
  have hlength : (utf8 (before ++ [c])).length = first.length + 1 := by simp [hbefore, hsize]
  have hsplit := splitAtByte_utf8 (before ++ [c]) after
  rw [hlength, List.append_assoc, List.singleton_append] at hsplit
  exact ⟨_, _, hsplit, hafter⟩

/-- The two sides of an ASCII character that `find` has found. -/
theorem findByte_eq_some {c : Char} {text : List Char} {pos : ℕ} (h : findByte c text = some pos) :
    ∃ before after, text = before ++ c :: after ∧ pos = (utf8 before).length := by
  obtain ⟨i, hi, rfl⟩ := Option.map_eq_some_iff.mp h
  obtain ⟨hlt, hc, -⟩ := List.findIdx?_eq_some_iff_getElem.mp hi
  refine ⟨text.take i, text.drop (i + 1), ?_, rfl⟩
  calc text = text.take i ++ text.drop i := (List.take_append_drop i text).symm
    _ = text.take i ++ text[i] :: text.drop (i + 1) := by rw [List.drop_eq_getElem_cons hlt]
    _ = _ := by rw [of_decide_eq_true hc]

theorem splitAtByte_eq_some {i : ℕ} {text first second : List Char}
    (h : splitAtByte i text = some (first, second)) :
    text = first ++ second ∧ i = (utf8 first).length := by
  induction text generalizing i first with
  | nil =>
      cases i with
      | zero => cases h; exact ⟨rfl, rfl⟩
      | succ i => exact nomatch h
  | cons c text ih =>
      cases i with
      | zero => cases h; exact ⟨rfl, rfl⟩
      | succ i =>
          rw [splitAtByte] at h
          split_ifs at h with hsize
          obtain ⟨parts, hparts, heq⟩ := Option.map_eq_some_iff.mp h
          cases heq
          obtain ⟨rfl, hlength⟩ := ih hparts
          refine ⟨rfl, ?_⟩
          simp only [utf8_cons, List.length_append, String.length_utf8EncodeChar]
          omega

theorem splitAtByte_end (text : List Char) :
    splitAtByte (utf8 text).length text = some (text, []) := by
  simpa using splitAtByte_utf8 text []

end Limpid
