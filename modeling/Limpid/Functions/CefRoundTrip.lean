import Limpid.Dsl.Negation
import Limpid.Functions.CefParse

/-!
# CEF messages, rendered and parsed

The loops of `cef.parse` compute `splitPipe` and `extensionFields`, because the bytes they stop at
are ASCII and so are characters; in particular no slice panics (`parseCefExtensions_eq`).  With
that, a message that is rendered is read back (`parseImpl_render`): escaping is undone field by
field, and a value ends where the look-ahead finds the next key.

The look-ahead is the part that needs a condition: a value may hold blanks and equals signs as long
as what follows a blank is not taken for a key (`noKey_of_tails`).  The extensions are read by
induction over the pairs, with the rest of the text as what the look-ahead sees.
-/

namespace Limpid.Functions.Cef

open Dsl (Runtime Value isKeyChar startsField valueLength)
open KeyValue (slice skipWhile slice_utf8 skipWhile_utf8 drop_utf8)

/-! ## Splitting at a pipe -/

/-- The text before the first pipe that no backslash stands before, and the text behind it. -/
def splitPipe : List Char → Option (List Char × List Char)
  | [] => none
  | [c] => if c = '|' then some ([], []) else none
  | c :: c' :: rest =>
    if c = '\\' then (splitPipe rest).map fun parts => (c :: c' :: parts.1, parts.2)
    else if c = '|' then some ([], c' :: rest)
    else (splitPipe (c' :: rest)).map fun parts => (c :: parts.1, parts.2)

section Pipes

variable {text field rest : List Char} {c : Char}

theorem splitPipe_eq_some (h : splitPipe text = some (field, rest)) :
    text = field ++ '|' :: rest := by
  fun_induction splitPipe text generalizing field with
  | case1 => exact nomatch h
  | case2 => cases h; rfl
  | case3 => exact nomatch h
  | case4 c' tail ih =>
      obtain ⟨parts, hparts, heq⟩ := Option.map_eq_some_iff.mp h
      cases heq
      rw [ih hparts]
      rfl
  | case5 => cases h; rfl
  | case6 c c' tail _ _ ih =>
      obtain ⟨parts, hparts, heq⟩ := Option.map_eq_some_iff.mp h
      cases heq
      rw [ih hparts]
      rfl

theorem pipeIndex_append {bytes : Bytes} (h : ∀ b ∈ bytes, b ≠ 92 ∧ b ≠ 124) (rest : Bytes) :
    pipeIndex (bytes ++ rest) = (pipeIndex rest).map (bytes.length + ·) := by
  induction bytes with
  | nil => simp
  | cons b bytes ih =>
      obtain ⟨⟨hbackslash, hpipe⟩, hbytes⟩ := List.forall_mem_cons.mp h
      rw [List.cons_append, List.length_cons]
      cases hrest : bytes ++ rest with
      | nil =>
          obtain ⟨rfl, rfl⟩ := List.append_eq_nil_iff.mp hrest
          simp [pipeIndex, hpipe]
      | cons b' rest' =>
          rw [pipeIndex, if_neg hbackslash, if_neg hpipe, ← hrest, ih hbytes, Option.map_map]
          congr 1
          funext i
          exact (Nat.add_right_comm ..)

theorem pipeIndex_char (hbackslash : c ≠ '\\') (hpipe : c ≠ '|') (rest : Bytes) :
    pipeIndex (String.utf8EncodeChar c ++ rest) =
      (pipeIndex rest).map ((String.utf8EncodeChar c).length + ·) :=
  pipeIndex_append (fun _ hb =>
    ⟨mt (eq_iff_of_mem_utf8EncodeChar (by decide) hb).mp hbackslash,
      mt (eq_iff_of_mem_utf8EncodeChar (by decide) hb).mp hpipe⟩) rest

/-- Behind a backslash a character is stepped over also when only its first byte is escaped. -/
theorem pipeIndex_escape (c : Char) (rest : Bytes) :
    pipeIndex (92 :: (String.utf8EncodeChar c ++ rest)) =
      (pipeIndex rest).map (1 + (String.utf8EncodeChar c).length + ·) := by
  cases hchar : String.utf8EncodeChar c with
  | nil => exact absurd hchar String.utf8EncodeChar_ne_nil
  | cons b more =>
      have hmore : ∀ b' ∈ more, b' ≠ 92 ∧ b' ≠ 124 := fun b' hb' =>
        ⟨ne_of_mem_tail hchar hb' (by decide), ne_of_mem_tail hchar hb' (by decide)⟩
      rw [List.cons_append, pipeIndex, if_pos rfl, pipeIndex_append hmore, List.length_cons,
        Option.map_map]
      congr 1
      funext i
      show more.length + i + 2 = 1 + (more.length + 1) + i
      omega

/-- The loop stops at the character. -/
theorem pipeIndex_utf8 (text : List Char) :
    pipeIndex (utf8 text) = (splitPipe text).map fun parts => (utf8 parts.1).length := by
  have hbackslash : String.utf8EncodeChar '\\' = [92] := rfl
  have hpipe : String.utf8EncodeChar '|' = [124] := rfl
  fun_induction splitPipe text with
  | case1 => rfl
  | case2 => rfl
  | case3 c hc =>
      by_cases hc' : c = '\\'
      · rw [hc']
        rfl
      · rw [utf8_cons, pipeIndex_char hc' hc]
        rfl
  | case4 c' tail ih =>
      rw [utf8_cons, hbackslash, List.singleton_append, utf8_cons, pipeIndex_escape, ih,
        Option.map_map, Option.map_map]
      congr 1
      funext parts
      simp [hbackslash]
      omega
  | case5 c' tail =>
      rw [utf8_cons, hpipe, List.singleton_append]
      cases hrest : utf8 (c' :: tail) <;> rfl
  | case6 c c' tail hc hc' ih =>
      rw [utf8_cons, pipeIndex_char hc hc', ih, Option.map_map, Option.map_map]
      congr 1
      funext parts
      simp

/-- **The split slices at characters.** -/
theorem splitUnescapedPipe_eq (text : List Char) :
    splitUnescapedPipe text = some (splitPipe text) := by
  rw [splitUnescapedPipe, pipeIndex_utf8]
  cases hsplit : splitPipe text with
  | none => rfl
  | some parts =>
      obtain ⟨field, rest⟩ := parts
      obtain rfl := splitPipe_eq_some hsplit
      have hfield := slice_utf8 [] field ('|' :: rest)
      have hrest := slice_utf8 (field ++ ['|']) rest []
      have hnext : (utf8 (field ++ ['|'])).length = (utf8 field).length + 1 := by
        rw [utf8_append, List.length_append]
        rfl
      rw [List.append_nil, List.append_assoc, List.singleton_append, hnext] at hrest
      simp only [List.nil_append, utf8_nil, List.length_nil] at hfield
      simp only [Option.map_some, hfield, hrest, Option.bind_eq_bind, Option.bind_some]

end Pipes

/-! ## The fields of an extension -/

/-- The keys and values of an extension.  A key is a word before an equals sign. -/
def extensionFields (text : List Char) : List (List Char × List Char) :=
  match _h : text.dropWhile isKeyChar with
  | [] => []
  | c :: rest =>
    if c = '=' ∧ text.takeWhile isKeyChar ≠ [] then
      (text.takeWhile isKeyChar, Decimal.trim (rest.take (valueLength rest))) ::
        extensionFields (rest.drop (valueLength rest))
    else extensionFields rest
termination_by text.length
decreasing_by
  all_goals
    have hle := (List.dropWhile_suffix isKeyChar (l := text)).length_le
    rw [_h, List.length_cons] at hle
    first | omega | (rw [List.length_drop]; omega)

section Extension

variable {text before after rest : List Char} {c : Char}

theorem toNat_lt_of_isKeyChar (h : isKeyChar c = true) : c.toNat < 128 := by
  rw [isKeyChar, Bool.or_eq_true, decide_eq_true_eq] at h
  rcases h with h | rfl
  · rw [Char.isAlphanum, Bool.or_eq_true] at h
    rcases h with hletter | hdigit
    · have hbounds := Dsl.Numeral.toNat_of_isAlpha hletter
      omega
    · have hbounds : 48 ≤ c.toNat ∧ c.toNat ≤ 57 := by
        simpa [Char.isDigit, UInt32.le_iff_toNat_le] using hdigit
      omega
  · decide

theorem isKeyByte_of_not_ascii {b : UInt8} (h : ¬b < 128) : isKeyByte b = false := by
  have hle : 128 ≤ b := UInt8.not_lt.mp h
  have habove : ∀ last : UInt8, last < 128 → decide (b ≤ last) = false := fun last hlast =>
    decide_eq_false fun hb => UInt8.not_lt.mpr (UInt8.le_trans hle hb) hlast
  have hne : decide (b = 95) = false := decide_eq_false fun heq => h (heq ▸ by decide)
  rw [isKeyByte, habove 57 (by decide), habove 90 (by decide), habove 122 (by decide), hne]
  simp

/-- A byte of a key is a character of a key. -/
theorem isKeyByte_eq (c : Char) : ∀ b ∈ String.utf8EncodeChar c, isKeyByte b = isKeyChar c := by
  have hascii : ∀ n < 128, isKeyByte (UInt8.ofNat n) = isKeyChar (Char.ofNat n) := by decide
  intro b hb
  by_cases hlt : b < 128
  · have hchar := eq_ofNat_of_utf8EncodeChar (utf8EncodeChar_of_mem hlt hb)
    have h := hascii b.toNat (UInt8.lt_iff_toNat_lt.mp hlt)
    rwa [UInt8.ofNat_toNat, ← hchar] at h
  · rw [isKeyByte_of_not_ascii hlt]
    refine (Bool.eq_false_iff.mpr fun hkey => hlt ?_).symm
    have hlow := toNat_lt_of_isKeyChar hkey
    rw [utf8EncodeChar_ascii hlow, List.mem_singleton] at hb
    rw [hb, UInt8.lt_iff_toNat_lt, UInt8.toNat_ofNat']
    exact (Nat.mod_le ..).trans_lt hlow

/-- The look-ahead finds a key among the characters. -/
theorem startsKey_utf8 (text : List Char) : startsKey (utf8 text) = startsField text := by
  have hget : (utf8 text)[(utf8 (text.takeWhile isKeyChar)).length]? = some 61 ↔
      (text.dropWhile isKeyChar).head? = some '=' := by
    have hequals := @getElem?_utf8_eq_some_iff (text.takeWhile isKeyChar)
      (text.dropWhile isKeyChar) 61 (by decide)
    rw [List.takeWhile_append_dropWhile] at hequals
    rw [hequals, List.head?_eq_some_iff]
    rfl
  have hword : 0 < (utf8 (text.takeWhile isKeyChar)).length ↔ text.takeWhile isKeyChar ≠ [] := by
    cases text.takeWhile isKeyChar with
    | nil => simp
    | cons c word => simp [c.utf8Size_pos]
  rw [startsKey, takeWhile_utf8 isKeyByte_eq, Bool.eq_iff_iff, startsField]
  simp only [Bool.and_eq_true, decide_eq_true_eq, hget, hword]
  exact and_comm

theorem valueBytes_append {bytes : Bytes} (h : ∀ b ∈ bytes, b ≠ 32) (rest : Bytes) :
    valueBytes (bytes ++ rest) = bytes.length + valueBytes rest := by
  induction bytes with
  | nil => simp
  | cons b bytes ih =>
      obtain ⟨hb, hbytes⟩ := List.forall_mem_cons.mp h
      rw [List.cons_append, valueBytes, if_neg fun hspace => hb hspace.1, ih hbytes,
        List.length_cons]
      omega

/-- A value ends at the same place. -/
theorem valueBytes_utf8 (text : List Char) :
    valueBytes (utf8 text) = (utf8 (text.take (valueLength text))).length := by
  induction text with
  | nil => rfl
  | cons c text ih =>
      rw [utf8_cons]
      by_cases hc : c = ' '
      · subst hc
        have hspace : String.utf8EncodeChar ' ' = [32] := rfl
        rw [hspace, List.singleton_append, valueBytes, valueLength, startsKey_utf8]
        by_cases hfield : startsField text = true
        · rw [if_pos ⟨rfl, hfield⟩, if_pos ⟨rfl, hfield⟩]
          rfl
        · rw [if_neg fun h => hfield h.2, if_neg fun h => hfield h.2, ih, List.take_succ_cons,
            utf8_cons, hspace, List.length_append]
          exact Nat.add_comm ..
      · have hbytes : ∀ b ∈ String.utf8EncodeChar c, b ≠ 32 := fun _ hb =>
          mt (eq_iff_of_mem_utf8EncodeChar (by decide) hb).mp hc
        rw [valueBytes_append hbytes, ih, valueLength, if_neg fun h => hc h.1, List.take_succ_cons,
          utf8_cons, List.length_append]

/-- Behind a value is nothing, or a space and a key. -/
theorem drop_valueLength (text : List Char) : text.drop (valueLength text) = [] ∨
    ∃ rest, text.drop (valueLength text) = ' ' :: rest ∧ startsField rest = true := by
  induction text with
  | nil => exact .inl rfl
  | cons c text ih =>
      rw [valueLength]
      split_ifs with h
      · exact .inr ⟨text, by rw [h.1, List.drop_zero], h.2⟩
      · exact ih

theorem extensionFields_nil : extensionFields [] = [] := by
  rw [extensionFields]
  rfl

theorem extensionFields_space (rest : List Char) :
    extensionFields (' ' :: rest) = extensionFields rest := by
  conv_lhs => rw [extensionFields]
  rfl

/-- The first field of a text that begins with one. -/
theorem extensionFields_of_startsField {key : List Char} (hkey : ∀ c ∈ key, isKeyChar c = true)
    (hne : key ≠ []) (rest : List Char) : extensionFields (key ++ '=' :: rest) =
      (key, Decimal.trim (rest.take (valueLength rest))) ::
        extensionFields (rest.drop (valueLength rest)) := by
  have htake : (key ++ '=' :: rest).takeWhile isKeyChar = key := by
    rw [List.takeWhile_append_of_pos hkey]
    exact List.append_nil key
  have hdrop : (key ++ '=' :: rest).dropWhile isKeyChar = '=' :: rest := by
    rw [List.dropWhile_append_of_pos hkey]
    rfl
  rw [extensionFields]
  split
  · next h => rw [hdrop] at h; exact nomatch h
  · next c tail h =>
    rw [hdrop] at h
    cases h
    rw [htake, if_pos ⟨rfl, hne⟩]

theorem extensionFields_of_word (hword : text.dropWhile isKeyChar = []) :
    extensionFields text = [] := by
  rw [extensionFields]
  split
  · rfl
  · next c rest h => rw [hword] at h; exact nomatch h

theorem extensionFields_of_noField (hword : text.dropWhile isKeyChar = c :: rest)
    (hfield : startsField text = false) : extensionFields text = extensionFields rest := by
  conv_lhs => rw [extensionFields]
  split
  · next h => rw [hword] at h; exact nomatch h
  · next c' rest' h =>
    rw [hword] at h
    cases h
    refine if_neg fun hstarts => ?_
    have htrue : startsField text = true := by
      rw [startsField, hword, hstarts.1]
      simp [hstarts.2]
    rw [hfield] at htrue
    exact nomatch htrue

theorem startsField_iff : startsField text = true ↔ ∃ key rest, text = key ++ '=' :: rest ∧
    (∀ c ∈ key, isKeyChar c = true) ∧ key ≠ [] := by
  rw [startsField, Bool.and_eq_true, decide_eq_true_eq, decide_eq_true_eq]
  constructor
  · rintro ⟨hne, hhead⟩
    obtain ⟨rest, hrest⟩ := List.head?_eq_some_iff.mp hhead
    refine ⟨text.takeWhile isKeyChar, rest, ?_, fun c hc => List.mem_takeWhile_imp hc, hne⟩
    rw [← hrest, List.takeWhile_append_dropWhile]
  · rintro ⟨key, rest, rfl, hkey, hne⟩
    rw [List.takeWhile_append_of_pos hkey, List.dropWhile_append_of_pos hkey]
    exact ⟨fun hnil => hne (List.append_eq_nil_iff.mp hnil).1, rfl⟩

end Extension

/-! ## The loops over an extension -/

section Loops

variable {extensions before after : List Char}

theorem keyPositions_end {i : ℕ} (h : (utf8 extensions).length ≤ i) :
    keyPositions extensions i = some [] := by
  rw [keyPositions]
  exact if_neg (Nat.not_lt.mpr h)

/-- A byte of no key, also one inside a character, is stepped over. -/
theorem keyPositions_step {i : ℕ} {b : UInt8} (hb : (utf8 extensions)[i]? = some b)
    (hkey : isKeyByte b = false) : keyPositions extensions i = keyPositions extensions (i + 1) := by
  obtain ⟨hi, -⟩ := List.getElem?_eq_some_iff.mp hb
  have hstop : skipWhile (utf8 extensions) isKeyByte i = i :=
    KeyValue.skipWhile_eq_self hb (by simp [hkey])
  conv_lhs => rw [keyPositions]
  rw [if_pos hi, hstop]
  exact if_neg fun h => lt_irrefl _ h.2

theorem keyPositions_skip {first more last : Bytes}
    (hbytes : utf8 extensions = first ++ more ++ last) (hkey : ∀ b ∈ more, isKeyByte b = false) :
    keyPositions extensions first.length =
      keyPositions extensions (first.length + more.length) := by
  induction more generalizing first with
  | nil => rfl
  | cons b more ih =>
      obtain ⟨hb, hmore⟩ := List.forall_mem_cons.mp hkey
      have hget : (utf8 extensions)[first.length]? = some b := by simp [hbytes]
      have hnext := @ih (first ++ [b]) (by simp [hbytes]) hmore
      rw [List.length_append, List.length_singleton] at hnext
      rw [keyPositions_step hget hb, hnext, List.length_cons, Nat.add_assoc, Nat.add_comm 1]

/-- A word that no equals sign follows is stepped over, and the character behind it. -/
theorem keyPositions_noField {c : Char} {rest : List Char}
    (hword : after.dropWhile isKeyChar = c :: rest) (hfield : startsField after = false) :
    keyPositions (before ++ after) (utf8 before).length =
      keyPositions (before ++ after)
        (utf8 (before ++ (after.takeWhile isKeyChar ++ [c]))).length := by
  have hc : isKeyChar c = false := by
    have hhead := List.head?_dropWhile_not isKeyChar after
    rw [hword] at hhead
    exact hhead
  have hafter : after = after.takeWhile isKeyChar ++ c :: rest := by
    rw [← hword, List.takeWhile_append_dropWhile]
  have hstop := skipWhile_utf8 isKeyByte_eq before after
  generalize hkey : after.takeWhile isKeyChar = word at *
  cases hchar : String.utf8EncodeChar c with
  | nil => exact absurd hchar String.utf8EncodeChar_ne_nil
  | cons b more =>
      have hbytes : utf8 (before ++ after) = utf8 (before ++ word) ++ (b :: more) ++ utf8 rest := by
        rw [hafter, ← hchar]
        simp
      have hi : (utf8 before).length < (utf8 (before ++ after)).length := by
        rw [hbytes]
        simp
      have hnot : ¬((utf8 (before ++ after))[(utf8 (before ++ word)).length]? = some 61 ∧
          (utf8 (before ++ word)).length > (utf8 before).length) := by
        rintro ⟨hequals, hlt⟩
        rw [hafter, ← List.append_assoc] at hequals
        obtain ⟨tail, htail⟩ := (getElem?_utf8_eq_some_iff (by decide)).mp hequals
        have hne : word ≠ [] := by
          rintro rfl
          simp at hlt
        have hstarts : startsField after = true := by
          rw [startsField, hkey, hword, htail]
          simp [hne]
        rw [hfield] at hstarts
        exact nomatch hstarts
      have hskip := @keyPositions_skip (before ++ after) (utf8 (before ++ word) ++ [b]) more
        (utf8 rest) (by simp [hbytes])
        fun b' hb' => (isKeyByte_eq c b' (hchar ▸ List.mem_cons_of_mem b hb')).trans hc
      have hlength : (utf8 (before ++ (word ++ [c]))).length =
          (utf8 (before ++ word) ++ [b]).length + more.length := by
        rw [← List.append_assoc, utf8_append, List.length_append, utf8_cons, hchar]
        simp
        omega
      conv_lhs => rw [keyPositions]
      rw [if_pos hi, hstop, if_neg hnot, hlength, ← hskip, List.length_append,
        List.length_singleton]

theorem keyPositions_word (hword : after.dropWhile isKeyChar = []) :
    keyPositions (before ++ after) (utf8 before).length = some [] := by
  have htake : after.takeWhile isKeyChar = after := by
    rw [← List.append_nil (after.takeWhile isKeyChar), ← hword, List.takeWhile_append_dropWhile]
  have hstop := skipWhile_utf8 isKeyByte_eq before after
  rw [htake] at hstop
  by_cases hi : (utf8 before).length < (utf8 (before ++ after)).length
  · rw [keyPositions, if_pos hi, hstop, if_neg]
    · exact keyPositions_end (Nat.le_succ _)
    · rintro ⟨hequals, -⟩
      obtain ⟨hlt, -⟩ := List.getElem?_eq_some_iff.mp hequals
      exact lt_irrefl _ hlt
  · exact keyPositions_end (Nat.not_lt.mp hi)

/-- At a key the loop takes the key and goes on behind its value. -/
theorem keyPositions_field {key rest : List Char} (hkey : ∀ c ∈ key, isKeyChar c = true)
    (hne : key ≠ []) (hafter : after = key ++ '=' :: rest) :
    keyPositions (before ++ after) (utf8 before).length =
      (keyPositions (before ++ after)
        (utf8 (before ++ (key ++ '=' :: rest.take (valueLength rest)))).length).map
          fun positions => (key, (utf8 (before ++ (key ++ ['=']))).length) :: positions := by
  subst hafter
  have htake : (key ++ '=' :: rest).takeWhile isKeyChar = key := by
    rw [List.takeWhile_append_of_pos hkey]
    exact List.append_nil key
  have hstop := skipWhile_utf8 isKeyByte_eq before (key ++ '=' :: rest)
  rw [htake] at hstop
  have hpos : 0 < (utf8 key).length := by
    obtain ⟨c, key, rfl⟩ := List.exists_cons_of_ne_nil hne
    simp [c.utf8Size_pos]
  have hi : (utf8 before).length < (utf8 (before ++ (key ++ '=' :: rest))).length := by
    simp only [utf8_append, List.length_append]
    omega
  have hlt : (utf8 (before ++ key)).length > (utf8 before).length := by
    rw [utf8_length_append]
    omega
  have hequals : (utf8 (before ++ (key ++ '=' :: rest)))[(utf8 (before ++ key)).length]? =
      some 61 := by
    rw [← List.append_assoc]
    exact (getElem?_utf8_eq_some_iff (by decide)).mpr ⟨rest, rfl⟩
  have hstart : (utf8 (before ++ (key ++ ['=']))).length = (utf8 (before ++ key)).length + 1 := by
    rw [← List.append_assoc, utf8_length_append]
    rfl
  have hdrop : (utf8 (before ++ (key ++ '=' :: rest))).drop
      ((utf8 (before ++ key)).length + 1) = utf8 rest := by
    have hsplit := drop_utf8 (before ++ (key ++ ['='])) rest
    rw [hstart] at hsplit
    simpa using hsplit
  have hnext : (utf8 (before ++ (key ++ '=' :: rest.take (valueLength rest)))).length =
      (utf8 (before ++ key)).length + 1 + valueBytes (utf8 rest) := by
    rw [valueBytes_utf8, ← hstart, ← utf8_length_append]
    simp
  conv_lhs => rw [keyPositions]
  rw [if_pos hi, hstop, if_pos ⟨hequals, hlt⟩, slice_utf8]
  simp only [Option.bind_eq_bind, Option.bind_some, hdrop, hnext, hstart]
  cases keyPositions (before ++ (key ++ '=' :: rest))
    ((utf8 (before ++ key)).length + 1 + valueBytes (utf8 rest)) <;> rfl

/-- What the loops make of the text behind an index. -/
structure Scanned (extensions : List Char) (i : ℕ) (after : List Char)
    (positions : List (List Char × ℕ)) : Prop where
  found : keyPositions extensions i = some positions
  values : valuesOf extensions positions = some (extensionFields after)
  /-- Behind a space, the next key is as long as it should be. -/
  next : ∀ rest, after = ' ' :: rest → startsField rest = true →
    ∃ key more, positions = (key, i + 1 + (utf8 key).length + 1) :: more
  first : startsField after = true →
    ∃ key more, positions = (key, i + (utf8 key).length + 1) :: more
  none : after = [] → positions = []

/-- A value ends before the space of the next key, or with the text. -/
theorem valueEnd_eq {positions : List (List Char × ℕ)} {start : ℕ}
    (hscanned : Scanned (before ++ after) (utf8 before).length after positions)
    (hafter : after = [] ∨ ∃ rest, after = ' ' :: rest ∧ startsField rest = true)
    (hstart : start ≤ (utf8 before).length) :
    valueEnd (before ++ after) start positions = (utf8 before).length := by
  rcases hafter with rfl | ⟨rest, rfl, hfield⟩
  · rw [hscanned.none rfl, valueEnd, List.append_nil]
  · obtain ⟨key, more, rfl⟩ := hscanned.next rest rfl hfield
    rw [valueEnd]
    omega

theorem startsField_space (rest : List Char) : startsField (' ' :: rest) = false := rfl

/-- **The loops read the fields**, and slice at characters only. -/
theorem exists_scanned (before after : List Char) :
    ∃ positions, Scanned (before ++ after) (utf8 before).length after positions := by
  induction hn : after.length using Nat.strong_induction_on generalizing before after with
  | _ n ih =>
    cases hfield : startsField after with
    | true =>
        -- a key starts here, and its value ends where `valueLength` says
        obtain ⟨key, rest, hafter, hkey, hne⟩ := startsField_iff.mp hfield
        obtain ⟨positions, hscanned⟩ := ih (rest.drop (valueLength rest)).length
          (by rw [← hn, hafter]; simp; omega)
          (before ++ (key ++ '=' :: rest.take (valueLength rest))) _ rfl
        have htext : before ++ (key ++ '=' :: rest.take (valueLength rest)) ++
            rest.drop (valueLength rest) = before ++ after := by
          rw [hafter]
          simp
        have hbefore : (before ++ (key ++ ['='])) ++ rest.take (valueLength rest) =
            before ++ (key ++ '=' :: rest.take (valueLength rest)) := by simp
        have hle : (utf8 (before ++ (key ++ ['=']))).length ≤
            (utf8 (before ++ (key ++ '=' :: rest.take (valueLength rest)))).length := by
          rw [← hbefore, utf8_length_append (before ++ (key ++ ['=']))]
          exact Nat.le_add_right ..
        have hend := valueEnd_eq hscanned (drop_valueLength rest) hle
        have hslice := slice_utf8 (before ++ (key ++ ['='])) (rest.take (valueLength rest))
          (rest.drop (valueLength rest))
        rw [← List.append_assoc, hbefore] at hslice
        rw [htext] at hscanned hend hslice
        refine ⟨(key, (utf8 (before ++ (key ++ ['=']))).length) :: positions, ?_, ?_, ?_, ?_, ?_⟩
        · rw [keyPositions_field hkey hne hafter, hscanned.found]
          rfl
        · rw [valuesOf, hend, hslice, hscanned.values, hafter,
            extensionFields_of_startsField hkey hne]
          rfl
        · rintro rest' rfl -
          rw [startsField_space] at hfield
          exact nomatch hfield
        · refine fun _ => ⟨key, positions, ?_⟩
          rw [← List.append_assoc, utf8_length_append, utf8_length_append]
          rfl
        · intro hnil
          rw [hnil] at hfield
          exact nomatch hfield
    | false =>
        -- no key starts here: the character is passed over
        have hfirst : startsField after = true → ∀ p : Prop, p := fun h => by
          rw [hfield] at h
          exact nomatch h
        cases hword : after.dropWhile isKeyChar with
        | nil =>
            refine ⟨[], keyPositions_word hword, ?_, ?_, fun h => hfirst h _, fun _ => rfl⟩
            · rw [extensionFields_of_word hword]
              rfl
            · rintro rest rfl -
              exact nomatch hword
        | cons c rest =>
            have hafter : after.takeWhile isKeyChar ++ c :: rest = after := by
              rw [← hword, List.takeWhile_append_dropWhile]
            have htext : before ++ (after.takeWhile isKeyChar ++ [c]) ++ rest =
                before ++ after := by
              conv_rhs => rw [← hafter]
              simp
            obtain ⟨positions, hscanned⟩ := ih rest.length
              (by rw [← hn, ← hafter]; simp; omega)
              (before ++ (after.takeWhile isKeyChar ++ [c])) rest rfl
            rw [htext] at hscanned
            refine ⟨positions, ?_, ?_, ?_, fun h => hfirst h _, ?_⟩
            · rw [keyPositions_noField hword hfield, hscanned.found]
            · rw [hscanned.values, extensionFields_of_noField hword hfield]
            · rintro rest' rfl hrest'
              obtain ⟨rfl, rfl⟩ := List.cons.inj hword
              obtain ⟨key, more, hpositions⟩ := hscanned.first hrest'
              refine ⟨key, more, ?_⟩
              rw [hpositions, utf8_length_append]
              rfl
            · rintro rfl
              exact nomatch hword

/-- **The scan of an extension slices at characters.** -/
theorem parseCefExtensions_eq (text : List Char) :
    parseCefExtensions text = some (extensionFields text) := by
  rw [parseCefExtensions]
  cases text with
  | nil => rw [extensionFields_nil]; rfl
  | cons c text =>
      obtain ⟨positions, hscanned⟩ := exists_scanned [] (c :: text)
      have hfound := hscanned.found
      rw [List.nil_append, utf8_nil, List.length_nil] at hfound
      rw [if_neg (by simp), hfound]
      exact hscanned.values

end Loops

/-! ## Counting characters -/

section Characters

variable {before after : List Char}

/-- An entry of the object. -/
def entryOf (pair : List Char × List Char) : String × Value := (String.ofList pair.1, string pair.2)

theorem valueLength_le (text : List Char) : valueLength text ≤ text.length := by
  induction text with
  | nil => exact Nat.le_refl 0
  | cons c text ih =>
      rw [valueLength, List.length_cons]
      split_ifs <;> omega

/-- `Scanned`, for positions that count characters. -/
structure Counted (extensions : List Char) (i : ℕ) (after : List Char)
    (positions : List (List Char × ℕ)) : Prop where
  values : Dsl.cefFields extensions positions = (extensionFields after).map entryOf
  next : ∀ rest, after = ' ' :: rest → startsField rest = true →
    ∃ key more, positions = (key, i + 1 + key.length + 1) :: more
  first : startsField after = true → ∃ key more, positions = (key, i + key.length + 1) :: more
  none : after = [] → positions = []

theorem counted_keyPositions {fuel : ℕ} (before after : List Char) (hfuel : after.length ≤ fuel) :
    Counted (before ++ after) before.length after
      (Dsl.keyPositions fuel before.length after) := by
  induction fuel generalizing before after with
  | zero =>
      obtain rfl := List.eq_nil_of_length_eq_zero (Nat.le_zero.mp hfuel)
      refine ⟨?_, (fun _ h => by cases h), (fun h => by cases h), fun _ => rfl⟩
      rw [extensionFields_nil]
      rfl
  | succ fuel ih =>
      have hafter := List.takeWhile_append_dropWhile (p := isKeyChar) (l := after)
      rw [Dsl.keyPositions]
      cases hword : after.dropWhile isKeyChar with
      | nil =>
          refine ⟨?_, ?_, fun h => ?_, fun _ => rfl⟩
          · rw [extensionFields_of_word hword]
            rfl
          · rintro rest rfl -
            cases hword
          · rw [startsField, hword] at h
            simp at h
      | cons c rest =>
          rw [hword] at hafter
          generalize hkey : after.takeWhile isKeyChar = key at hafter
          have hlength := congrArg List.length hafter
          rw [List.length_append, List.length_cons] at hlength
          dsimp only
          -- a key starts here, or the scan goes on behind the character
          by_cases hfield : c = '=' ∧ key ≠ []
          · obtain ⟨rfl, hne⟩ := hfield
            have hword : ∀ c ∈ key, isKeyChar c = true := fun c hc =>
              List.mem_takeWhile_imp (hkey ▸ hc)
            have hskipped := valueLength_le rest
            have hposition : (before ++ (key ++ '=' :: rest.take (valueLength rest))).length =
                before.length + key.length + 1 + valueLength rest := by
              simp
              omega
            -- the positions in the rest of the text are those behind this key and its value
            have hcounted := ih (before ++ (key ++ '=' :: rest.take (valueLength rest)))
              (rest.drop (valueLength rest)) (by rw [List.length_drop]; omega)
            have htext : before ++ (key ++ '=' :: rest.take (valueLength rest)) ++
                rest.drop (valueLength rest) = before ++ after := by
              rw [← hafter]
              simp
            rw [htext, hposition] at hcounted
            have hslice : ((before ++ after).take
                (before.length + key.length + 1 + valueLength rest)).drop
                  (before.length + key.length + 1) = rest.take (valueLength rest) := by
              have hsplit : before ++ (key ++ '=' :: rest.take (valueLength rest)) =
                  before ++ (key ++ ['=']) ++ rest.take (valueLength rest) := by simp
              rw [← htext, List.take_left' hposition, hsplit]
              exact List.drop_left' (by simp; omega)
            have hread : extensionFields after =
                (key, Decimal.trim (rest.take (valueLength rest))) ::
                  extensionFields (rest.drop (valueLength rest)) := by
              rw [← hafter, extensionFields_of_startsField hword hne]
            rw [if_pos ⟨rfl, hne⟩]
            refine ⟨?_, ?_, fun _ => ⟨key, _, rfl⟩, ?_⟩
            · rw [hread, List.map_cons, ← hcounted.values, entryOf, string, ← hslice]
              -- the value ends with the text, or before the next key
              rcases drop_valueLength rest with hdrop | ⟨rest', hdrop, hrest'⟩
              · have hend : (before ++ after).length =
                    before.length + key.length + 1 + valueLength rest := by
                  rw [← htext, hdrop, List.append_nil, hposition]
                rw [hcounted.none hdrop, ← hend]
                rfl
              · obtain ⟨next, more, hpositions⟩ := hcounted.next rest' hdrop hrest'
                have hend : max (before.length + key.length + 1 + valueLength rest + 1 +
                    next.length + 1 - (next.length + 2)) (before.length + key.length + 1) =
                      before.length + key.length + 1 + valueLength rest := by omega
                rw [hpositions, Dsl.cefFields, hend]
            · rintro rest' rfl -
              obtain ⟨c, word, rfl⟩ := List.exists_cons_of_ne_nil hne
              obtain ⟨rfl, -⟩ := List.cons.inj hafter
              exact absurd (hword ' ' List.mem_cons_self) (by decide)
            · rintro rfl
              simp at hafter
          · rw [if_neg hfield]
            have hfield' : startsField after = false := by
              rw [startsField, hkey, hword]
              simp only [Bool.and_eq_false_iff, decide_eq_false_iff_not]
              exact (not_and_or.mp hfield).symm.imp id fun h heq => h (Option.some.inj heq)
            have hcounted := ih (before ++ (key ++ [c])) rest (by omega)
            have htext : before ++ (key ++ [c]) ++ rest = before ++ after := by
              rw [← hafter]
              simp
            have hposition : (before ++ (key ++ [c])).length = before.length + key.length + 1 := by
              simp
              omega
            rw [htext, hposition] at hcounted
            refine ⟨?_, ?_, fun h => ?_, ?_⟩
            · rw [hcounted.values, extensionFields_of_noField hword hfield']
            · rintro rest' rfl hrest'
              obtain ⟨rfl, rfl⟩ := List.cons.inj hword
              obtain rfl : [] = key := hkey
              exact hcounted.first hrest'
            · rw [hfield'] at h
              cases h
            · rintro rfl
              cases hword
/-- **Counting characters or bytes is the same**: the object read field by field. -/
theorem parseCefExtensions_chars (text : List Char) :
    (parseCefExtensions text).map (List.map entryOf) = some (Dsl.parseCefExtensions text) := by
  have hcounted := counted_keyPositions [] text le_rfl
  rw [parseCefExtensions_eq, Option.map_some, ← hcounted.values]
  rfl

end Characters

/-! ## Rendering -/

/-- A header field with its backslashes and pipes escaped. -/
def escapeHeader (field : List Char) : List Char :=
  field.flatMap fun c => if c = '\\' ∨ c = '|' then ['\\', c] else [c]

/-- Pairs with blanks between them. -/
def renderExtension (pairs : List (List Char × List Char)) : List Char :=
  List.intercalate [' '] (pairs.map fun pair => pair.1 ++ '=' :: pair.2)

/-- A message. -/
def render (headers : Fin 7 → List Char) (pairs : List (List Char × List Char)) : List Char :=
  ['C', 'E', 'F', ':'] ++ (List.intercalate ['|'] (List.ofFn fun i => escapeHeader (headers i)) ++
    '|' :: renderExtension pairs)

/-- A pair that the look-ahead tells from the next one. -/
structure IsPair (key value : List Char) : Prop where
  key_ne : key ≠ []
  word : ∀ c ∈ key, isKeyChar c = true
  head : ∀ c ∈ value.head?, Decimal.isWhiteSpace c = false
  last : ∀ c ∈ value.getLast?, Decimal.isWhiteSpace c = false
  noKey : ∀ before after, value = before ++ ' ' :: after → startsField after = false

section Headers

variable {field rest : List Char} {c : Char}

theorem splitPipe_pipe (rest : List Char) : splitPipe ('|' :: rest) = some ([], rest) := by
  cases rest <;> rfl

theorem splitPipe_plain (hbackslash : c ≠ '\\') (hpipe : c ≠ '|') (hrest : rest ≠ []) :
    splitPipe (c :: rest) = (splitPipe rest).map fun parts => (c :: parts.1, parts.2) := by
  obtain ⟨c', rest, rfl⟩ := List.exists_cons_of_ne_nil hrest
  rw [splitPipe, if_neg hbackslash, if_neg hpipe]

/-- An escaped field ends at its pipe. -/
theorem splitPipe_escapeHeader (field rest : List Char) :
    splitPipe (escapeHeader field ++ '|' :: rest) = some (escapeHeader field, rest) := by
  induction field with
  | nil => exact splitPipe_pipe rest
  | cons c field ih =>
      rw [escapeHeader, List.flatMap_cons, ← escapeHeader]
      split_ifs with hc
      · rw [List.append_assoc, List.cons_append, List.singleton_append, splitPipe, if_pos rfl, ih]
        rfl
      · rw [not_or] at hc
        rw [List.append_assoc, List.singleton_append, splitPipe_plain hc.1 hc.2 (by simp), ih]
        rfl

theorem unescapeChars_cons (hc : c ≠ '\\') (rest : List Char) :
    unescapeChars (c :: rest) = c :: unescapeChars rest := by
  rw [unescapeChars] <;> simp [hc]

theorem unescapeChars_escapeHeader (field : List Char) :
    unescapeChars (escapeHeader field) = field := by
  induction field with
  | nil => rfl
  | cons c field ih =>
      rw [escapeHeader, List.flatMap_cons, ← escapeHeader]
      split_ifs with hc
      · rcases hc with rfl | rfl <;> rw [List.cons_append, List.singleton_append, unescapeChars, ih]
          <;> rfl
      · rw [not_or] at hc
        rw [List.singleton_append, unescapeChars_cons hc.1, ih]

theorem unescapeChars_of_notMem (hfield : '\\' ∉ field) : unescapeChars field = field := by
  induction field with
  | nil => rfl
  | cons c field ih =>
      obtain ⟨hc, hfield⟩ := List.ne_and_not_mem_of_not_mem_cons hfield
      rw [unescapeChars_cons hc.symm, ih hfield]

/-- **Escaping is undone.** -/
theorem unescapeHeaderField_escapeHeader (field : List Char) :
    unescapeHeaderField (escapeHeader field) = field := by
  rw [unescapeHeaderField]
  split_ifs with hmem
  · exact unescapeChars_escapeHeader field
  · rw [← unescapeChars_of_notMem hmem, unescapeChars_escapeHeader]

theorem splitParts_escaped {n : ℕ} (headers : Fin n → List Char) (rest : List Char) :
    splitParts n ((List.ofFn headers).flatMap (fun field => escapeHeader field ++ ['|']) ++ rest) =
      some (some (fun i => escapeHeader (headers i), rest)) := by
  induction n with
  | zero =>
      rw [splitParts]
      congr 3
      funext i
      exact i.elim0
  | succ n ih =>
      rw [List.ofFn_succ, List.flatMap_cons, List.append_assoc, List.append_assoc,
        List.singleton_append, splitParts, splitUnescapedPipe_eq, splitPipe_escapeHeader]
      simp only [Option.bind_eq_bind, Option.bind_some, ih]
      congr 3
      funext i
      refine Fin.cases rfl (fun i => rfl) i

theorem intercalate_append (fields : List (List Char)) (hne : fields ≠ []) (rest : List Char) :
    List.intercalate ['|'] fields ++ '|' :: rest =
      fields.flatMap (fun field => field ++ ['|']) ++ rest := by
  induction fields with
  | nil => exact absurd rfl hne
  | cons first fields ih =>
      cases fields with
      | nil => simp [List.intercalate]
      | cons second fields =>
          have htail := ih (List.cons_ne_nil second fields)
          rw [List.intercalate_cons_cons, List.flatMap_cons, List.append_assoc, List.append_assoc,
            htail]
          simp

end Headers

section Values

variable {value tail rest key : List Char}

/-- A space ends a word, so nothing behind it makes a key of it. -/
theorem startsField_append_space (hvalue : startsField value = false) (rest : List Char) :
    startsField (value ++ ' ' :: rest) = false := by
  refine Bool.eq_false_iff.mpr fun hfield => ?_
  obtain ⟨key, tail, heq, hkey, hne⟩ := startsField_iff.mp hfield
  rcases List.append_eq_append_iff.mp heq with ⟨more, hmore, htail⟩ | ⟨more, hmore, htail⟩
  · cases more with
    | nil => exact absurd (List.cons.inj htail).1 (by decide)
    | cons c more =>
        obtain ⟨rfl, -⟩ := List.cons.inj htail
        exact absurd (hkey ' ' (hmore ▸ by simp)) (by decide)
  · cases more with
    | nil => exact absurd (List.cons.inj htail).1 (by decide)
    | cons c more =>
        obtain ⟨rfl, -⟩ := List.cons.inj htail
        rw [startsField_iff.mpr ⟨key, more, hmore, hkey, hne⟩] at hvalue
        exact nomatch hvalue

/-- **A value without a key in it ends where the next field begins.** -/
theorem valueLength_append
    (hnoKey : ∀ before after, value = before ++ ' ' :: after → startsField after = false)
    (htail : tail = [] ∨ ∃ rest, tail = ' ' :: rest ∧ startsField rest = true) :
    valueLength (value ++ tail) = value.length := by
  induction value with
  | nil =>
      rcases htail with rfl | ⟨rest, rfl, hfield⟩
      · rfl
      · rw [List.nil_append, valueLength, if_pos ⟨rfl, hfield⟩]
        rfl
  | cons c value ih =>
      have hrest := ih fun before after h => hnoKey (c :: before) after (by rw [h]; rfl)
      have hnot : ¬(c = ' ' ∧ startsField (value ++ tail) = true) := by
        rintro ⟨rfl, hfield⟩
        have hvalue := hnoKey [] value rfl
        rcases htail with rfl | ⟨rest, rfl, -⟩
        · rw [List.append_nil, hvalue] at hfield
          exact nomatch hfield
        · rw [startsField_append_space hvalue] at hfield
          exact nomatch hfield
      rw [List.cons_append, valueLength, if_neg hnot, hrest, List.length_cons]

/-- A field is read, and what is behind it is read on. -/
theorem extensionFields_pair (hpair : IsPair key value)
    (htail : tail = [] ∨ ∃ rest, tail = ' ' :: rest ∧ startsField rest = true) :
    extensionFields (key ++ '=' :: (value ++ tail)) = (key, value) :: extensionFields tail := by
  rw [extensionFields_of_startsField hpair.word hpair.key_ne,
    valueLength_append hpair.noKey htail, List.take_left, List.drop_left,
    Decimal.trim_eq_self hpair.head hpair.last]

theorem renderExtension_cons_cons (first second : List Char × List Char)
    (pairs : List (List Char × List Char)) : renderExtension (first :: second :: pairs) =
      first.1 ++ '=' :: (first.2 ++ ' ' :: renderExtension (second :: pairs)) := by
  rw [renderExtension, List.map_cons, List.map_cons, List.intercalate_cons_cons, renderExtension,
    List.map_cons]
  simp

theorem startsField_renderExtension {pairs : List (List Char × List Char)} (hne : pairs ≠ [])
    (hpairs : ∀ pair ∈ pairs, IsPair pair.1 pair.2) :
    startsField (renderExtension pairs) = true := by
  obtain ⟨first, pairs, rfl⟩ := List.exists_cons_of_ne_nil hne
  have hfirst := hpairs first List.mem_cons_self
  rw [startsField_iff]
  cases pairs with
  | nil => exact ⟨first.1, first.2, by simp [renderExtension, List.intercalate], hfirst.word,
      hfirst.key_ne⟩
  | cons second pairs =>
      exact ⟨first.1, _, renderExtension_cons_cons first second pairs, hfirst.word, hfirst.key_ne⟩

/-- **The pairs are read back in order.** -/
theorem extensionFields_render {pairs : List (List Char × List Char)}
    (hpairs : ∀ pair ∈ pairs, IsPair pair.1 pair.2) :
    extensionFields (renderExtension pairs) = pairs := by
  induction pairs with
  | nil => exact extensionFields_nil
  | cons first pairs ih =>
      obtain ⟨hfirst, hrest⟩ := List.forall_mem_cons.mp hpairs
      cases pairs with
      | nil =>
          have hread := extensionFields_pair hfirst (.inl rfl)
          rw [List.append_nil, extensionFields_nil] at hread
          simpa [renderExtension, List.intercalate] using hread
      | cons second pairs =>
          have hnext := startsField_renderExtension (List.cons_ne_nil second pairs) hrest
          have hread := extensionFields_pair hfirst (.inr ⟨_, rfl, hnext⟩)
          rw [extensionFields_space, ih hrest] at hread
          rw [renderExtension_cons_cons, hread]

end Values

/-! ## The round trip -/

/-- What a message says: the seven header fields, the text of the extension, and its pairs in
order. -/
def messageOf (headers : Fin 7 → List Char) (pairs : List (List Char × List Char)) : Value :=
  .object [("version", .string (String.ofList (headers 0))),
    ("device_vendor", .string (String.ofList (headers 1))),
    ("device_product", .string (String.ofList (headers 2))),
    ("device_version", .string (String.ofList (headers 3))),
    ("signature_id", .string (String.ofList (headers 4))),
    ("name", .string (String.ofList (headers 5))),
    ("severity", .string (String.ofList (headers 6))),
    ("extension_raw", .string (String.ofList (renderExtension pairs))),
    ("extension", .object (pairs.map fun pair =>
      (String.ofList pair.1, .string (String.ofList pair.2))))]

section RoundTrip

variable {headers : Fin 7 → List Char} {pairs : List (List Char × List Char)}

theorem renderExtension_ne_nil (hne : pairs ≠ []) (hpairs : ∀ pair ∈ pairs, IsPair pair.1 pair.2) :
    renderExtension pairs ≠ [] := by
  intro hnil
  have hstarts := startsField_renderExtension hne hpairs
  rw [hnil] at hstarts
  exact nomatch hstarts

theorem parseImpl_render (rt : Runtime)
    (hseverity : ∀ n, Dsl.Parser.parseInt64 (headers 6) ≠ .ok n) (hne : pairs ≠ [])
    (hpairs : ∀ pair ∈ pairs, IsPair pair.1 pair.2) :
    parseImpl rt (.string (String.ofList (render headers pairs))) none =
      some (.ok (messageOf headers pairs)) := by
  have hextension : ¬(renderExtension pairs).isEmpty = true := by
    rw [List.isEmpty_iff]
    exact renderExtension_ne_nil hne hpairs
  have hparts : splitParts 7 (List.intercalate ['|']
      (List.ofFn fun i => escapeHeader (headers i)) ++ '|' :: renderExtension pairs) =
      some (some (fun i => escapeHeader (headers i), renderExtension pairs)) := by
    rw [intercalate_append _ (by simp), ← splitParts_escaped]
    congr 2
  have hseverityValue : severityValue (headers 6) = string (headers 6) := by
    unfold severityValue
    cases hparse : Dsl.Parser.parseInt64 (headers 6) with
    | ok n => exact absurd hparse (hseverity n)
    | error message => rfl
  rw [parseImpl, valToStr_string]
  dsimp only
  rw [String.toList_ofList, render]
  simp only [List.cons_append, List.nil_append, hparts, Option.bind_eq_bind, Option.bind_some,
    if_neg hextension, parseCefExtensions_eq, extensionFields_render hpairs]
  rw [withDefaults, objectOf, if_neg hextension]
  simp only [unescapeHeaderField_escapeHeader, hseverityValue]
  rfl

/-- **Parsing inverts rendering**, and no text makes the scan of an extension slice outside it or
inside a character. -/
theorem cef_round_trip (rt : Runtime) :
    (∀ (headers : Fin 7 → List Char) (pairs : List (List Char × List Char)),
      (∀ n, Dsl.Parser.parseInt64 (headers 6) ≠ .ok n) → pairs ≠ [] →
      (∀ pair ∈ pairs, IsPair pair.1 pair.2) →
        parseImpl rt (.string (String.ofList (render headers pairs))) none =
          some (.ok (messageOf headers pairs))) ∧
    ∀ text : List Char, ∃ pairs, parseCefExtensions text = some pairs :=
  ⟨fun _ _ hseverity hne hpairs => parseImpl_render rt hseverity hne hpairs,
    fun text => ⟨_, parseCefExtensions_eq text⟩⟩

/-- A vendor with a pipe, a product with a backslash, and a severity that is a word. -/
def someHeaders : Fin 7 → List Char := fun i =>
  ["0".toList, "a|b".toList, "c\\d".toList, "1.0".toList, "100".toList, "login".toList,
    "High".toList].get i

/-- Two pairs whose values have spaces and equals signs in them. -/
def somePairs : List (List Char × List Char) :=
  [("src".toList, "a=b and c".toList), ("msg".toList, "x = y\\z".toList)]

/-- Whether a value has a key in it can be seen from its tails. -/
theorem noKey_of_tails {value : List Char}
    (h : ∀ tail ∈ value.tails, tail.head? = some ' ' → startsField tail.tail = false) :
    ∀ before after, value = before ++ ' ' :: after → startsField after = false := by
  rintro before after rfl
  exact h (' ' :: after) ((List.mem_tails _ _).mpr (List.suffix_append _ _)) rfl

theorem isPair_of_mem_somePairs : ∀ pair ∈ somePairs, IsPair pair.1 pair.2 := by
  simp only [somePairs, List.forall_mem_cons]
  refine ⟨⟨by decide, by decide, by decide, by decide, noKey_of_tails (by decide)⟩,
    ⟨by decide, by decide, by decide, by decide, noKey_of_tails (by decide)⟩,
    List.forall_mem_nil _⟩

theorem cef_round_trip_message :
    parseImpl Dsl.binary64 (.string (String.ofList (render someHeaders somePairs))) none =
      some (.ok (.object [("version", .string "0"), ("device_vendor", .string "a|b"),
        ("device_product", .string "c\\d"), ("device_version", .string "1.0"),
        ("signature_id", .string "100"), ("name", .string "login"), ("severity", .string "High"),
        ("extension_raw", .string "src=a=b and c msg=x = y\\z"),
        ("extension", .object [("src", .string "a=b and c"), ("msg", .string "x = y\\z")])])) := by
  have hseverity : Dsl.Parser.parseInt64 (someHeaders 6) =
      .error "invalid digit found in string" := by decide
  have hparse := (cef_round_trip Dsl.binary64).1 someHeaders somePairs (fun n hn => by
    rw [hseverity] at hn
    cases hn) (List.cons_ne_nil _ _) isPair_of_mem_somePairs
  exact hparse

end RoundTrip

end Limpid.Functions.Cef
