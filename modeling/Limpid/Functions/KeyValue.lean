import Limpid.Functions.ParseKv

/-!
# Key-value pairs, rendered and parsed

The scanner of `parse_kv` computes `fields` (`parseKvPairs_eq`), because the bytes it stops at are
ASCII and so are characters.  On `fields` two things are shown: pairs that are rendered are read
back (`fields_render`), and where an entry with an empty key comes from (`exists_emptyKey_iff`):
from an `=` that ends the text, where the key is not checked.
-/

namespace Limpid.Functions.KeyValue

/-! ## The scanner reads fields -/

theorem isCharBoundary_length (before after : List Char) :
    isCharBoundary (before ++ after) (utf8 before).length = true := by
  rw [isCharBoundary, splitAtByte_utf8]
  rfl

theorem slice_utf8 (before part after : List Char) :
    slice (before ++ (part ++ after)) (utf8 before).length (utf8 (before ++ part)).length =
      some part := by
  rw [slice, ← List.append_assoc, splitAtByte_utf8]
  simp only [Option.bind_eq_bind, Option.bind_some]
  rw [splitAtByte_utf8]
  rfl

/-- A slice between characters is not moved. -/
theorem safeSlice_utf8 (before part after : List Char) :
    safeSlice (before ++ (part ++ after)) (utf8 before).length (utf8 (before ++ part)).length =
      some part := by
  have hle : (utf8 before).length ≤ (utf8 (before ++ (part ++ after))).length := by
    rw [utf8_append, List.length_append]
    omega
  have hle' : (utf8 (before ++ part)).length ≤ (utf8 (before ++ (part ++ after))).length := by
    rw [← List.append_assoc, utf8_append (before ++ part), List.length_append]
    omega
  obtain ⟨n, hn⟩ : ∃ n, (utf8 (before ++ part)).length = (utf8 before).length + n :=
    ⟨(utf8 part).length, utf8_length_append ..⟩
  have hstart := isCharBoundary_length before (part ++ after)
  have hstop := isCharBoundary_length (before ++ part) after
  rw [List.append_assoc, hn] at hstop
  have hfirst : (List.range' (utf8 before).length (n + 1)).find?
      (isCharBoundary (before ++ (part ++ after))) = some (utf8 before).length := by
    rw [List.range'_succ, List.find?_cons, hstart]
  have hlast : (List.range' (utf8 before).length (n + 1)).reverse.find?
      (isCharBoundary (before ++ (part ++ after))) = some ((utf8 before).length + n) := by
    rw [List.range'_1_concat, List.reverse_append, List.reverse_singleton, List.singleton_append,
      List.find?_cons, hstop]
  have hsize : (utf8 before).length + n + 1 - (utf8 before).length = n + 1 := by omega
  rw [safeSlice, min_eq_left hle, min_eq_left hle', hn, hsize, hfirst, Option.getD_some, hsize,
    hlast, Option.getD_some, ← hn]
  exact slice_utf8 before part after

theorem drop_utf8 (before after : List Char) :
    (utf8 (before ++ after)).drop (utf8 before).length = utf8 after := by
  rw [utf8_append, List.drop_left]

/-- A loop over bytes stops at the character at which the loop over characters does. -/
theorem skipWhile_utf8 {p : UInt8 → Bool} {p' : Char → Bool}
    (h : ∀ c, ∀ b ∈ String.utf8EncodeChar c, p b = p' c) (before after : List Char) :
    skipWhile (utf8 (before ++ after)) p (utf8 before).length =
      (utf8 (before ++ after.takeWhile p')).length := by
  rw [skipWhile, drop_utf8, takeWhile_utf8 h, utf8_append, List.length_append]

/-- Bytes that are no quote and no backslash are stepped over one by one. -/
theorem skipQuoted_append {bytes : Bytes} (h : ∀ b ∈ bytes, b ≠ 34 ∧ b ≠ 92) (rest : Bytes) :
    skipQuoted (bytes ++ rest) = bytes.length + skipQuoted rest := by
  induction bytes with
  | nil => simp
  | cons b bytes ih =>
      obtain ⟨⟨hquote, hbackslash⟩, hbytes⟩ := List.forall_mem_cons.mp h
      rw [List.cons_append, List.length_cons]
      cases hrest : bytes ++ rest with
      | nil =>
          obtain ⟨rfl, rfl⟩ := List.append_eq_nil_iff.mp hrest
          simp [skipQuoted, hquote]
      | cons b' rest' =>
          rw [skipQuoted, if_neg hquote, if_neg hbackslash, ← hrest, ih hbytes]
          omega

/-- A character that is not ASCII in these bytes. -/
theorem ne_of_mem_utf8EncodeChar {c : Char} (hquote : c ≠ '"') (hbackslash : c ≠ '\\') :
    ∀ b ∈ String.utf8EncodeChar c, b ≠ 34 ∧ b ≠ 92 := by
  intro b hb
  constructor
  · rintro rfl
    exact hquote (eq_ofNat_of_utf8EncodeChar (utf8EncodeChar_of_mem (by decide) hb))
  · rintro rfl
    exact hbackslash (eq_ofNat_of_utf8EncodeChar (utf8EncodeChar_of_mem (by decide) hb))

theorem skipQuoted_utf8EncodeChar {c : Char} (hquote : c ≠ '"') (hbackslash : c ≠ '\\')
    (rest : Bytes) :
    skipQuoted (String.utf8EncodeChar c ++ rest) =
      (String.utf8EncodeChar c).length + skipQuoted rest :=
  skipQuoted_append (ne_of_mem_utf8EncodeChar hquote hbackslash) rest

/-- Behind a backslash a character is stepped over also when only its first byte is escaped. -/
theorem skipQuoted_escape (c : Char) (rest : Bytes) :
    skipQuoted (92 :: (String.utf8EncodeChar c ++ rest)) =
      1 + (String.utf8EncodeChar c).length + skipQuoted rest := by
  cases hchar : String.utf8EncodeChar c with
  | nil => exact absurd hchar String.utf8EncodeChar_ne_nil
  | cons b more =>
      have hmore : ∀ b' ∈ more, b' ≠ 34 ∧ b' ≠ 92 := fun b' hb' =>
        ⟨ne_of_mem_tail hchar hb' (by decide), ne_of_mem_tail hchar hb' (by decide)⟩
      rw [List.cons_append, skipQuoted, if_neg (by decide), if_pos rfl, skipQuoted_append hmore,
        List.length_cons]
      omega

theorem skipQuoted_utf8 (text : List Char) :
    skipQuoted (utf8 text) = (utf8 (splitQuoted text).1).length := by
  have hquote : String.utf8EncodeChar '"' = [34] := rfl
  have hbackslash : String.utf8EncodeChar '\\' = [92] := rfl
  fun_induction splitQuoted text with
  | case1 => rfl
  | case2 => rfl
  | case3 c hc =>
      by_cases hc' : c = '\\'
      · rw [hc']
        rfl
      · rw [utf8_cons, skipQuoted_utf8EncodeChar hc hc']
        simp [skipQuoted]
  | case4 c' rest =>
      rw [utf8_cons, hquote, List.singleton_append, utf8_cons]
      cases hchar : String.utf8EncodeChar c' with
      | nil => exact absurd hchar String.utf8EncodeChar_ne_nil
      | cons b more => rfl
  | case5 c' rest _ ih =>
      rw [utf8_cons, hbackslash, List.singleton_append, utf8_cons, skipQuoted_escape, ih]
      simp [hbackslash]
      omega
  | case6 c c' rest hc hc' ih =>
      rw [utf8_cons, skipQuoted_utf8EncodeChar hc hc', ih, utf8_cons, List.length_append]

/-- A quoted value ends at a quote, or with the text. -/
theorem splitQuoted_rest (text : List Char) :
    (splitQuoted text).2 = [] ∨ ∃ rest, (splitQuoted text).2 = '"' :: rest := by
  fun_induction splitQuoted text with
  | case1 => exact .inl rfl
  | case2 => exact .inr ⟨[], rfl⟩
  | case3 => exact .inl rfl
  | case4 c' rest => exact .inr ⟨c' :: rest, rfl⟩
  | case5 _ _ _ ih => exact ih
  | case6 _ _ _ _ _ ih => exact ih

section Fields

variable {sep : Char} {text : List Char}

/-- The text ends with the `=`. -/
theorem splitField_end (h : text.dropWhile (inKey sep) = ['=']) :
    splitField sep text = (some (text.takeWhile (inKey sep), []), []) := by
  rw [splitField, h]
  rfl

theorem splitField_value {c : Char} {rest : List Char}
    (h : text.dropWhile (inKey sep) = '=' :: c :: rest) :
    splitField sep text =
      (if (text.takeWhile (inKey sep)).isEmpty then none
        else some (text.takeWhile (inKey sep), (splitValue sep (c :: rest)).1),
        (splitValue sep (c :: rest)).2) := by
  rw [splitField, h]
  rfl

/-- There is no `=` before the separator. -/
theorem splitField_other (h : ¬ ∃ rest, text.dropWhile (inKey sep) = '=' :: rest) :
    splitField sep text = (none, (text.dropWhile (inKey sep)).dropWhile (· ≠ sep)) := by
  unfold splitField
  split
  · rename_i heq
    exact absurd ⟨_, heq⟩ h
  · rename_i heq
    exact absurd ⟨_, heq⟩ h
  · rfl

/-- Only separators are left. -/
theorem fields_nil (h : text.dropWhile (· = sep) = []) : fields sep text = [] := by
  rw [fields]
  split
  · rfl
  · rename_i heq
    exact absurd (h.symm.trans heq) (List.cons_ne_nil _ _).symm

theorem fields_cons {c : Char} {rest : List Char} (h : text.dropWhile (· = sep) = c :: rest) :
    fields sep text =
      (splitField sep (c :: rest)).1.toList ++ fields sep (splitField sep (c :: rest)).2 := by
  rw [fields]
  split
  · rename_i heq
    exact absurd (h.symm.trans heq) (List.cons_ne_nil _ _)
  · rename_i heq
    rw [← heq, h]

end Fields

section Scanner

variable {sep : UInt8}

/-- The value is read, and the loop goes on behind it. -/
theorem scanValue_utf8 (hsep : sep < 128) (before after : List Char) :
    ∃ consumed, after = consumed ++ (splitValue (Char.ofNat sep.toNat) after).2 ∧
      scanValue (before ++ after) sep (utf8 before).length =
        some ((splitValue (Char.ofNat sep.toNat) after).1,
          (utf8 (before ++ consumed)).length) := by
  have hsize : (utf8 (before ++ ['"'])).length = (utf8 before).length + 1 := by
    rw [utf8_length_append]
    rfl
  unfold scanValue
  dsimp only
  -- a quoted value is read up to the closing quote, or to the end without one
  by_cases hquote : (utf8 (before ++ after))[(utf8 before).length]? = some 34
  · obtain ⟨quoted, rfl⟩ := (getElem?_utf8_eq_some_iff (by decide)).mp hquote
    have hchar : Char.ofNat (34 : UInt8).toNat = '"' := rfl
    have hvalue : splitValue (Char.ofNat sep.toNat) ('"' :: quoted) =
        ((splitQuoted quoted).1, (splitQuoted quoted).2.tail) := rfl
    rw [if_pos hquote, hchar, hvalue]
    obtain ⟨value, rest, hsplit⟩ : ∃ value rest, splitQuoted quoted = (value, rest) := ⟨_, _, rfl⟩
    have happend := splitQuoted_append quoted
    have hrest := splitQuoted_rest quoted
    have hskip := skipQuoted_utf8 quoted
    rw [hsplit] at happend hrest hskip
    subst happend
    have htext : before ++ '"' :: (value ++ rest) = (before ++ ['"']) ++ (value ++ rest) := by simp
    have hslice := safeSlice_utf8 (before ++ ['"']) value rest
    rw [htext, ← hsize, drop_utf8, hskip, ← utf8_length_append, hslice, hsplit]
    rcases hrest with hnil | ⟨rest', hcons⟩
    · dsimp only at hnil
      subst hnil
      refine ⟨'"' :: value, by simp, ?_⟩
      simp
    · dsimp only at hcons
      subst hcons
      refine ⟨'"' :: (value ++ ['"']), by simp, ?_⟩
      have hclose : String.utf8EncodeChar '"' = [34] := rfl
      simp [hclose]
      omega
  · have hnot : ∀ quoted, after ≠ '"' :: quoted := fun quoted heq =>
      hquote ((getElem?_utf8_eq_some_iff (by decide)).mpr ⟨quoted, heq⟩)
    have hvalue : splitValue (Char.ofNat sep.toNat) after =
        (after.takeWhile (· ≠ Char.ofNat sep.toNat),
          after.dropWhile (· ≠ Char.ofNat sep.toNat)) := by
      unfold splitValue
      split
      · rename_i quoted
        exact absurd rfl (hnot _)
      · rfl
    -- no byte of a longer character is the separator
    have hbytes : ∀ c, ∀ b ∈ String.utf8EncodeChar c,
        decide (b ≠ sep) = decide (c ≠ Char.ofNat sep.toNat) := fun c b hb =>
      decide_eq_decide.mpr (not_congr (eq_iff_of_mem_utf8EncodeChar hsep hb))
    have hslice := safeSlice_utf8 before (after.takeWhile (· ≠ Char.ofNat sep.toNat))
      (after.dropWhile (· ≠ Char.ofNat sep.toNat))
    rw [List.takeWhile_append_dropWhile] at hslice
    rw [if_neg hquote, hvalue, skipWhile_utf8 hbytes, hslice]
    exact ⟨_, List.takeWhile_append_dropWhile.symm, rfl⟩

/-- **A field is read, and the loop goes on behind it.** -/
theorem scanField_utf8 (hsep : sep < 128) (before after : List Char) :
    ∃ consumed, after = consumed ++ (splitField (Char.ofNat sep.toNat) after).2 ∧
      scanField (before ++ after) sep (utf8 before).length =
        some ((splitField (Char.ofNat sep.toNat) after).1,
          (utf8 (before ++ consumed)).length) := by
  have hkey : ∀ c, ∀ b ∈ String.utf8EncodeChar c,
      (decide (b ≠ 61) && decide (b ≠ sep)) = inKey (Char.ofNat sep.toNat) c := by
    intro c b hb
    have hequals := eq_iff_of_mem_utf8EncodeChar (b := 61) (by decide) hb
    have hseparator := eq_iff_of_mem_utf8EncodeChar hsep hb
    have hchar : Char.ofNat (61 : UInt8).toNat = '=' := rfl
    rw [hchar] at hequals
    simp only [inKey, ne_eq, hequals, hseparator]
  have hother : ∀ c, ∀ b ∈ String.utf8EncodeChar c,
      decide (b ≠ sep) = decide (c ≠ Char.ofNat sep.toNat) := fun c b hb =>
    decide_eq_decide.mpr (not_congr (eq_iff_of_mem_utf8EncodeChar hsep hb))
  obtain ⟨key, hkeyEq⟩ : ∃ key, after.takeWhile (inKey (Char.ofNat sep.toNat)) = key := ⟨_, rfl⟩
  obtain ⟨rest, hrestEq⟩ : ∃ rest, after.dropWhile (inKey (Char.ofNat sep.toNat)) = rest := ⟨_, rfl⟩
  have hafter : key ++ rest = after := by
    rw [← hkeyEq, ← hrestEq, List.takeWhile_append_dropWhile]
  have hstop := skipWhile_utf8 hkey before after
  rw [hkeyEq] at hstop
  have hslice := safeSlice_utf8 before key rest
  rw [hafter] at hslice
  have hequals : (utf8 (before ++ after))[(utf8 (before ++ key)).length]? = some 61 ↔
      ∃ rest', rest = '=' :: rest' := by
    rw [← hafter, ← List.append_assoc]
    exact getElem?_utf8_eq_some_iff (by decide)
  have hsize : (utf8 (before ++ key)).length + 1 = (utf8 (before ++ (key ++ ['=']))).length := by
    rw [← List.append_assoc, utf8_length_append (before ++ key)]
    rfl
  unfold scanField
  dsimp only
  rw [hstop]
  by_cases hrest : ∃ rest', rest = '=' :: rest'
  · rw [if_neg (not_not.mpr (hequals.mpr hrest)), hslice, hsize]
    obtain ⟨rest', rfl⟩ := hrest
    simp only [Option.bind_eq_bind, Option.bind_some]
    cases rest' with
    | nil =>
        -- the text ends with the `=`
        rw [splitField_end hrestEq, hkeyEq, hafter, if_pos le_rfl]
        exact ⟨after, by simp, rfl⟩
    | cons c rest' =>
        have htext : before ++ after = (before ++ (key ++ ['='])) ++ (c :: rest') := by
          rw [← hafter]
          simp
        have hlt : ¬ (utf8 (before ++ (key ++ ['=']))).length ≥
            (utf8 (before ++ after)).length := by
          have hpos := c.utf8Size_pos
          rw [htext, utf8_length_append (before ++ (key ++ ['='])), utf8_cons, List.length_append,
            String.length_utf8EncodeChar]
          omega
        obtain ⟨consumed, hconsumed, hscan⟩ :=
          scanValue_utf8 hsep (before ++ (key ++ ['='])) (c :: rest')
        rw [if_neg hlt, splitField_value hrestEq, hkeyEq, htext, hscan]
        refine ⟨key ++ '=' :: consumed, ?_, ?_⟩
        · rw [← hafter]
          simp [← hconsumed]
        · simp
  · have hskip := skipWhile_utf8 hother (before ++ key) rest
    rw [List.append_assoc, hafter] at hskip
    rw [if_pos (fun h => hrest (hequals.mp h)), hskip,
      splitField_other (fun h => hrest (hrestEq ▸ h)), hrestEq]
    refine ⟨key ++ rest.takeWhile (· ≠ Char.ofNat sep.toNat), ?_, ?_⟩
    · rw [List.append_assoc, List.takeWhile_append_dropWhile, hafter]
    · rw [List.append_assoc]

theorem scanPairs_next {text : List Char} {i next : ℕ} {pair : Option (List Char × List Char)}
    (hlt : skipWhile (utf8 text) (· = sep) i < (utf8 text).length)
    (h : scanField text sep (skipWhile (utf8 text) (· = sep) i) = some (pair, next)) :
    scanPairs text sep i = (scanPairs text sep next).map (pair.toList ++ ·) := by
  rw [scanPairs, dif_pos hlt]
  split
  · rename_i heq
    exact absurd (h.symm.trans heq) (Option.some_ne_none _)
  · rename_i heq
    cases h.symm.trans heq
    rfl

/-- The loop reads the fields of what is left; the induction is on its length. -/
theorem scanPairs_utf8 (hsep : sep < 128) (before after : List Char) :
    scanPairs (before ++ after) sep (utf8 before).length =
      some (fields (Char.ofNat sep.toNat) after) := by
  obtain ⟨n, hn⟩ : ∃ n, after.length ≤ n := ⟨_, le_rfl⟩
  induction n generalizing before after with
  | zero =>
      obtain rfl := List.eq_nil_of_length_eq_zero (Nat.le_zero.mp hn)
      have hle := le_skipWhile (utf8 (before ++ [])) (· = sep) (utf8 before).length
      rw [scanPairs, dif_neg (by simpa using hle), fields_nil rfl]
  | succ n ih =>
      have hequal : ∀ c, ∀ b ∈ String.utf8EncodeChar c,
          decide (b = sep) = decide (c = Char.ofNat sep.toNat) := fun c b hb =>
        decide_eq_decide.mpr (eq_iff_of_mem_utf8EncodeChar hsep hb)
      have hstart := skipWhile_utf8 hequal before after
      obtain ⟨skipped, hskipped⟩ :
          ∃ skipped, after.takeWhile (· = Char.ofNat sep.toNat) = skipped := ⟨_, rfl⟩
      have happend := List.takeWhile_append_dropWhile (p := (· = Char.ofNat sep.toNat)) (l := after)
      rw [hskipped] at hstart happend
      cases hrest : after.dropWhile (· = Char.ofNat sep.toNat) with
      | nil =>
          rw [hrest, List.append_nil] at happend
          rw [scanPairs, hstart, dif_neg (by rw [happend]; omega), fields_nil hrest]
      | cons c rest =>
          have hc : c ≠ Char.ofNat sep.toNat := by
            have hhead := List.head?_dropWhile_not (· = Char.ofNat sep.toNat) after
            rw [hrest] at hhead
            exact of_decide_eq_false hhead
          rw [hrest] at happend
          have htext : before ++ after = (before ++ skipped) ++ (c :: rest) := by
            rw [← happend, List.append_assoc]
          have hlt : (utf8 (before ++ skipped)).length < (utf8 (before ++ after)).length := by
            have hpos := c.utf8Size_pos
            rw [htext, utf8_length_append (before ++ skipped), utf8_cons, List.length_append,
              String.length_utf8EncodeChar]
            omega
          obtain ⟨consumed, hconsumed, hscan⟩ :=
            scanField_utf8 hsep (before ++ skipped) (c :: rest)
          have hshorter := length_splitField_lt rest hc
          have hle := (List.dropWhile_suffix (· = Char.ofNat sep.toNat) (l := after)).length_le
          rw [hrest] at hle
          rw [← htext, ← hstart] at hscan
          rw [← hstart] at hlt
          rw [scanPairs_next hlt hscan, fields_cons hrest]
          have hnext : before ++ after = (before ++ skipped ++ consumed) ++
              (splitField (Char.ofNat sep.toNat) (c :: rest)).2 := by
            rw [htext, List.append_assoc (before ++ skipped), ← hconsumed]
          rw [hnext, ih _ _ (by omega)]
          rfl

/-- **The scanner reads the fields of a text, and no slice panics.** -/
theorem parseKvPairs_eq (hsep : sep < 128) (text : List Char) :
    parseKvPairs text sep = some (fields (Char.ofNat sep.toNat) text) :=
  scanPairs_utf8 hsep [] text

end Scanner

/-! ## Rendering -/

/-- A key and a value that can be written with the separator. -/
structure Pair (sep : Char) where
  key : List Char
  value : List Char
  key_nonempty : key ≠ []
  key_clean : ∀ c ∈ key, c ≠ '=' ∧ c ≠ sep
  value_clean : ∀ c ∈ value, c ≠ '"' ∧ c ≠ '\\'

/-- Bare, or in quotes when it is empty or holds the separator. -/
def renderValue (sep : Char) (value : List Char) : List Char :=
  if value = [] ∨ sep ∈ value then '"' :: (value ++ ['"']) else value

namespace Pair

variable {sep : Char} (pair : Pair sep)

/-- A pair as it is written. -/
def render : List Char := pair.key ++ '=' :: renderValue sep pair.value

/-- A pair without what it satisfies. -/
def toProd : List Char × List Char := (pair.key, pair.value)

end Pair

/-- Pairs with the separator between them. -/
def renderPairs {sep : Char} (pairs : List (Pair sep)) : List Char :=
  List.intercalate [sep] (pairs.map Pair.render)

section RoundTrip

variable {sep : Char}

/-- The end of the text, or the separator. -/
def IsTail (sep : Char) (tail : List Char) : Prop := tail = [] ∨ ∃ rest, tail = sep :: rest

theorem takeWhile_append_tail {p : Char → Bool} {text tail : List Char} (htext : ∀ c ∈ text, p c)
    (htail : ∀ c ∈ tail.head?, p c = false) :
    (text ++ tail).takeWhile p = text ∧ (text ++ tail).dropWhile p = tail := by
  rw [List.takeWhile_append_of_pos htext, List.dropWhile_append_of_pos htext]
  cases tail with
  | nil => exact ⟨List.append_nil text, rfl⟩
  | cons c tail =>
      have hc : ¬ p c = true := by
        rw [htail c rfl]
        exact Bool.false_ne_true
      rw [List.takeWhile_cons_of_neg hc, List.dropWhile_cons_of_neg hc, List.append_nil]
      exact ⟨rfl, rfl⟩

/-- A value with no quote and no backslash in it ends at the next quote. -/
theorem splitQuoted_clean {value : List Char} (h : ∀ c ∈ value, c ≠ '"' ∧ c ≠ '\\')
    (tail : List Char) : splitQuoted (value ++ '"' :: tail) = (value, '"' :: tail) := by
  induction value with
  | nil =>
      cases tail with
      | nil => rfl
      | cons c tail => rw [List.nil_append, splitQuoted, if_pos rfl]
  | cons c value ih =>
      obtain ⟨⟨hquote, hbackslash⟩, hvalue⟩ := List.forall_mem_cons.mp h
      have hrest := ih hvalue
      rw [List.cons_append]
      cases hvalueTail : value ++ '"' :: tail with
      | nil => exact absurd hvalueTail (by simp)
      | cons c' rest =>
          rw [hvalueTail] at hrest
          rw [splitQuoted, if_neg hquote, if_neg hbackslash, hrest]

theorem splitValue_render {value tail : List Char} (h : ∀ c ∈ value, c ≠ '"' ∧ c ≠ '\\')
    (htail : IsTail sep tail) :
    splitValue sep (renderValue sep value ++ tail) = (value, tail) := by
  unfold renderValue
  split_ifs with hquoted
  · have hsplit := splitQuoted_clean h tail
    rw [List.cons_append, List.append_assoc, List.singleton_append, splitValue, hsplit]
    rfl
  · obtain ⟨hne, hsep⟩ := not_or.mp hquoted
    have hbare : splitValue sep (value ++ tail) =
        ((value ++ tail).takeWhile (· ≠ sep), (value ++ tail).dropWhile (· ≠ sep)) := by
      cases value with
      | nil => exact absurd rfl hne
      | cons c value =>
          obtain ⟨⟨hquote, -⟩, -⟩ := List.forall_mem_cons.mp h
          unfold splitValue
          split
          · rename_i heq
            exact absurd (List.cons.inj heq).1 hquote
          · rfl
    have hall : ∀ c ∈ value, decide (c ≠ sep) = true := by
      intro c hc
      refine decide_eq_true ?_
      rintro rfl
      exact hsep hc
    have hhead : ∀ c ∈ tail.head?, decide (c ≠ sep) = false := by
      rintro c hc
      rcases htail with rfl | ⟨rest, rfl⟩
      · exact absurd hc (Option.not_mem_none _)
      · obtain rfl := Option.some.inj hc
        simp
    obtain ⟨htake, hdrop⟩ := takeWhile_append_tail hall hhead
    rw [hbare, htake, hdrop]

theorem renderValue_ne_nil (value : List Char) : renderValue sep value ≠ [] := by
  unfold renderValue
  split_ifs with hquoted
  · exact List.cons_ne_nil _ _
  · exact (not_or.mp hquoted).1

/-- **A rendered pair is the field that a text begins with.** -/
theorem splitField_render (pair : Pair sep) {tail : List Char} (htail : IsTail sep tail) :
    splitField sep (pair.render ++ tail) = (some pair.toProd, tail) := by
  have hkey : ∀ c ∈ pair.key, inKey sep c = true := by
    intro c hc
    obtain ⟨hequals, hsep⟩ := pair.key_clean c hc
    simp [inKey, hequals, hsep]
  have htext : pair.render ++ tail = pair.key ++ '=' :: (renderValue sep pair.value ++ tail) := by
    rw [Pair.render, List.append_assoc, List.cons_append]
  obtain ⟨htake, hdrop⟩ := @takeWhile_append_tail _ _
    ('=' :: (renderValue sep pair.value ++ tail)) hkey (by simp [inKey])
  rw [← htext] at htake hdrop
  have hvalue := splitValue_render pair.value_clean htail
  cases hrest : renderValue sep pair.value ++ tail with
  | nil => exact absurd (List.append_eq_nil_iff.mp hrest).1 (renderValue_ne_nil _)
  | cons c rest =>
      rw [hrest] at hdrop hvalue
      rw [splitField_value hdrop, htake, hvalue, if_neg (by simpa using pair.key_nonempty)]
      rfl

/-- A separator before a field is skipped. -/
theorem fields_separator (text : List Char) : fields sep (sep :: text) = fields sep text := by
  have hdrop : (sep :: text).dropWhile (· = sep) = text.dropWhile (· = sep) :=
    List.dropWhile_cons_of_pos (by simp)
  cases htext : text.dropWhile (· = sep) with
  | nil => rw [fields_nil (hdrop.trans htext), fields_nil htext]
  | cons c rest => rw [fields_cons (hdrop.trans htext), fields_cons htext]

theorem fields_pair (pair : Pair sep) {tail : List Char} (htail : IsTail sep tail) :
    fields sep (pair.render ++ tail) = pair.toProd :: fields sep tail := by
  obtain ⟨c, key, hkey⟩ := List.exists_cons_of_ne_nil pair.key_nonempty
  have hc : c ≠ sep := (pair.key_clean c (hkey ▸ List.mem_cons_self)).2
  obtain ⟨rest, hrest⟩ : ∃ rest, pair.render ++ tail = c :: rest := by
    rw [Pair.render, hkey]
    exact ⟨_, rfl⟩
  have hdrop : (pair.render ++ tail).dropWhile (· = sep) = c :: rest := by
    rw [hrest]
    exact List.dropWhile_cons_of_neg (by simpa using hc)
  rw [fields_cons hdrop, ← hrest, splitField_render pair htail]
  rfl

/-- **Rendered pairs are read back.** -/
theorem fields_render (pairs : List (Pair sep)) :
    fields sep (renderPairs pairs) = pairs.map Pair.toProd := by
  induction pairs with
  | nil => exact fields_nil rfl
  | cons pair pairs ih =>
      cases pairs with
      | nil =>
          have hend : fields sep [] = [] := fields_nil rfl
          have hpair := fields_pair pair (.inl rfl)
          rw [List.append_nil, hend] at hpair
          rw [renderPairs, List.map_singleton, List.intercalate_singleton]
          exact hpair
      | cons next pairs =>
          have htext : renderPairs (pair :: next :: pairs) =
              pair.render ++ sep :: renderPairs (next :: pairs) := by
            simp [renderPairs, List.intercalate_cons_cons]
          rw [htext, fields_pair pair (.inr ⟨_, rfl⟩), fields_separator, ih]
          rfl

end RoundTrip

/-! ## Empty keys -/

/-- Where a text is cut: before a key, in a key, behind the `=` of a key, in a bare value, inside
quotes, or behind a backslash inside quotes. -/
inductive Place where
  | start | key | value | bare | quoted | escaped
deriving DecidableEq

/-- Where the scan stands after a character. -/
def Place.next (sep : Char) : Place → Char → Place
  | start, c => if c = sep then start else if c = '=' then value else key
  | key, c => if c = '=' then value else if c = sep then start else key
  | value, c => if c = '"' then quoted else if c = sep then start else bare
  | bare, c => if c = sep then start else bare
  | quoted, c => if c = '"' then start else if c = '\\' then escaped else quoted
  | escaped, _ => quoted

/-- An `=` that ends the text, where a key would begin. -/
def EndsAtKey (sep : Char) (place : Place) (text : List Char) : Prop :=
  ∃ before, text = before ++ ['='] ∧ '=' ≠ sep ∧ before.foldl (Place.next sep) place = .start

section EmptyKeys

variable {sep : Char} {place : Place}

theorem not_endsAtKey_nil : ¬ EndsAtKey sep place [] := by
  rintro ⟨before, h, -⟩
  exact absurd h (by simp)

theorem endsAtKey_cons_iff {c : Char} {text : List Char} :
    EndsAtKey sep place (c :: text) ↔
      (c = '=' ∧ text = [] ∧ '=' ≠ sep ∧ place = .start) ∨
        EndsAtKey sep (place.next sep c) text := by
  constructor
  · rintro ⟨before, heq, hsep, hplace⟩
    cases before with
    | nil =>
        obtain ⟨rfl, rfl⟩ := List.cons.inj heq
        exact .inl ⟨rfl, rfl, hsep, hplace⟩
    | cons c' before =>
        obtain ⟨rfl, rfl⟩ := List.cons.inj heq
        exact .inr ⟨before, rfl, hsep, hplace⟩
  · rintro (⟨rfl, rfl, hsep, hplace⟩ | ⟨before, rfl, hsep, hplace⟩)
    · exact ⟨[], rfl, hsep, hplace⟩
    · exact ⟨c :: before, rfl, hsep, hplace⟩

/-- Inside a key or a value no key begins. -/
theorem endsAtKey_step {c : Char} {text : List Char} (h : place ≠ .start) :
    EndsAtKey sep place (c :: text) ↔ EndsAtKey sep (place.next sep c) text := by
  rw [endsAtKey_cons_iff]
  simp [h]

/-- Characters that stay at a place inside a field. -/
theorem endsAtKey_append {text : List Char} (hplace : place ≠ .start)
    (h : ∀ c ∈ text, place.next sep c = place) (rest : List Char) :
    EndsAtKey sep place (text ++ rest) ↔ EndsAtKey sep place rest := by
  induction text with
  | nil => rfl
  | cons c text ih =>
      obtain ⟨hc, htext⟩ := List.forall_mem_cons.mp h
      rw [List.cons_append, endsAtKey_step hplace, hc, ih htext]

theorem endsAtKey_separator (text : List Char) :
    EndsAtKey sep .start (sep :: text) ↔ EndsAtKey sep .start text := by
  have hnext : Place.start.next sep sep = .start := if_pos rfl
  rw [endsAtKey_cons_iff, hnext]
  constructor
  · rintro (⟨hc, -, hsep, -⟩ | h)
    · exact absurd hc.symm hsep
    · exact h
  · exact .inr

theorem endsAtKey_dropSeparators (text : List Char) :
    EndsAtKey sep .start text ↔ EndsAtKey sep .start (text.dropWhile (· = sep)) := by
  induction text with
  | nil => rfl
  | cons c text ih =>
      by_cases hc : c = sep
      · subst hc
        rw [endsAtKey_separator, ih, List.dropWhile_cons_of_pos (by simp)]
      · rw [List.dropWhile_cons_of_neg (by simpa using hc)]

/-- A bare value ends at the separator, before which a key begins. -/
theorem endsAtKey_bare (text : List Char) :
    EndsAtKey sep .bare text ↔ EndsAtKey sep .start (text.dropWhile (· ≠ sep)) := by
  have hstay : ∀ c ∈ text.takeWhile (· ≠ sep), Place.bare.next sep c = .bare := by
    intro c hc
    have hne := List.mem_takeWhile_imp hc
    exact if_neg (by simpa using hne)
  conv_lhs => rw [← List.takeWhile_append_dropWhile (p := (· ≠ sep)) (l := text)]
  rw [endsAtKey_append (by decide) hstay]
  cases hrest : text.dropWhile (· ≠ sep) with
  | nil => exact iff_of_false not_endsAtKey_nil not_endsAtKey_nil
  | cons c rest =>
      obtain rfl : c = sep := by
        have hhead := List.head?_dropWhile_not (· ≠ sep) text
        rw [hrest] at hhead
        simpa using hhead
      rw [endsAtKey_separator, endsAtKey_step (by decide)]
      exact iff_of_eq (congrArg (EndsAtKey c · rest) (if_pos rfl))

theorem endsAtKey_quoted (text : List Char) :
    EndsAtKey sep .quoted text ↔ EndsAtKey sep .start (splitQuoted text).2.tail := by
  fun_induction splitQuoted text with
  | case1 => exact iff_of_false not_endsAtKey_nil not_endsAtKey_nil
  | case2 =>
      rw [endsAtKey_step (by decide)]
      exact iff_of_false not_endsAtKey_nil not_endsAtKey_nil
  | case3 c hc =>
      rw [endsAtKey_step (by decide)]
      exact iff_of_false not_endsAtKey_nil not_endsAtKey_nil
  | case4 c' rest =>
      rw [endsAtKey_step (by decide)]
      exact Iff.rfl
  | case5 c' rest _ ih =>
      rw [endsAtKey_step (by decide)]
      exact (endsAtKey_step (by decide : Place.escaped ≠ .start)).trans ih
  | case6 c c' rest hquote hbackslash ih =>
      have hnext : Place.quoted.next sep c = .quoted := by
        rw [Place.next, if_neg hquote, if_neg hbackslash]
      rw [endsAtKey_step (by decide), hnext]
      exact ih

theorem endsAtKey_value (text : List Char) :
    EndsAtKey sep .value text ↔ EndsAtKey sep .start (splitValue sep text).2 := by
  unfold splitValue
  split
  · rename_i quoted
    rw [endsAtKey_step (by decide)]
    exact endsAtKey_quoted quoted
  · rename_i hnot
    dsimp only
    cases text with
    | nil => exact iff_of_false not_endsAtKey_nil not_endsAtKey_nil
    | cons c rest =>
        have hquote : c ≠ '"' := fun hc => hnot rest (by rw [hc])
        rw [endsAtKey_step (by decide), Place.next, if_neg hquote]
        split_ifs with hc
        · subst hc
          rw [List.dropWhile_cons_of_neg (by simp), endsAtKey_separator]
        · rw [List.dropWhile_cons_of_pos (by simpa using hc), endsAtKey_bare]

theorem endsAtKey_equals (rest : List Char) :
    EndsAtKey sep .key ('=' :: rest) ↔ EndsAtKey sep .value rest := by
  rw [endsAtKey_step (by decide)]
  rfl

/-- A key that is not followed by an `=` ends at the separator, or with the text. -/
theorem endsAtKey_noValue {text : List Char} (h : ∀ c ∈ text.head?, inKey sep c = false)
    (hnot : ¬ ∃ rest, text = '=' :: rest) :
    EndsAtKey sep .key text ↔ EndsAtKey sep .start (text.dropWhile (· ≠ sep)) := by
  cases text with
  | nil => exact iff_of_false not_endsAtKey_nil not_endsAtKey_nil
  | cons c rest =>
      have hequals : c ≠ '=' := fun hc => hnot ⟨rest, by rw [hc]⟩
      obtain rfl : c = sep := by
        have hhead := h c rfl
        simpa [inKey, hequals] using hhead
      rw [endsAtKey_step (by decide), Place.next, if_neg hequals, if_pos rfl,
        List.dropWhile_cons_of_neg (by simp), endsAtKey_separator]

/-- A key with a character in it is not empty, and one without begins with the `=`. -/
theorem endsAtKey_field {c : Char} {rest : List Char} (hc : c ≠ sep) :
    EndsAtKey sep .start (c :: rest) ↔
      (∃ pair ∈ (splitField sep (c :: rest)).1, pair.1 = []) ∨
        EndsAtKey sep .start (splitField sep (c :: rest)).2 := by
  -- an empty key
  by_cases hequals : c = '='
  · subst hequals
    have hnext : Place.start.next sep '=' = .value := by
      rw [Place.next, if_neg hc, if_pos rfl]
    have hdrop : ('=' :: rest).dropWhile (inKey sep) = '=' :: rest :=
      List.dropWhile_cons_of_neg (by simp [inKey])
    have htake : ('=' :: rest).takeWhile (inKey sep) = [] :=
      List.takeWhile_cons_of_neg (by simp [inKey])
    rw [endsAtKey_cons_iff, hnext]
    cases rest with
    | nil =>
        rw [splitField_end hdrop, htake]
        exact iff_of_true (.inl ⟨rfl, rfl, hc, rfl⟩) (.inl ⟨_, rfl, rfl⟩)
    | cons c' rest =>
        rw [splitField_value hdrop, htake, endsAtKey_value]
        simp
  · have hin : inKey sep c = true := by simp [inKey, hequals, hc]
    have hnext : Place.start.next sep c = .key := by
      rw [Place.next, if_neg hc, if_neg hequals]
    have htake : (c :: rest).takeWhile (inKey sep) = c :: rest.takeWhile (inKey sep) :=
      List.takeWhile_cons_of_pos hin
    have hdrop : (c :: rest).dropWhile (inKey sep) = rest.dropWhile (inKey sep) :=
      List.dropWhile_cons_of_pos hin
    have hstay : ∀ c' ∈ rest.takeWhile (inKey sep), Place.key.next sep c' = .key := by
      intro c' hc'
      have hin' := List.mem_takeWhile_imp hc'
      simp only [inKey, ne_eq, Bool.and_eq_true, decide_eq_true_eq] at hin'
      rw [Place.next, if_neg hin'.1, if_neg hin'.2]
    have hkey : EndsAtKey sep .start (c :: rest) ↔
        EndsAtKey sep .key (rest.dropWhile (inKey sep)) := by
      rw [endsAtKey_cons_iff, hnext, or_iff_right (fun h => hequals h.1)]
      conv_lhs => rw [← List.takeWhile_append_dropWhile (p := inKey sep) (l := rest)]
      exact endsAtKey_append (by decide) hstay _
    rw [hkey, ← hdrop]
    -- the key ends in an equals sign, or the field has no value
    by_cases hvalue : ∃ after, (c :: rest).dropWhile (inKey sep) = '=' :: after
    · obtain ⟨after, heq⟩ := hvalue
      rw [heq, endsAtKey_equals]
      cases after with
      | nil =>
          rw [splitField_end heq, htake]
          exact iff_of_false not_endsAtKey_nil (by simp [not_endsAtKey_nil])
      | cons c' after =>
          rw [splitField_value heq, htake, endsAtKey_value]
          simp
    · have hhead : ∀ c' ∈ ((c :: rest).dropWhile (inKey sep)).head?, inKey sep c' = false := by
        intro c' hc'
        have hnot := List.head?_dropWhile_not (inKey sep) (c :: rest)
        rw [Option.mem_def.mp hc'] at hnot
        exact hnot
      rw [endsAtKey_noValue hhead hvalue, splitField_other hvalue]
      simp

/-- **An entry has an empty key exactly when the text ends with an `=` where a key would begin.** -/
theorem exists_emptyKey_iff (text : List Char) :
    (∃ pair ∈ fields sep text, pair.1 = []) ↔ EndsAtKey sep .start text := by
  obtain ⟨n, hn⟩ : ∃ n, text.length ≤ n := ⟨_, le_rfl⟩
  induction n generalizing text with
  | zero =>
      obtain rfl := List.eq_nil_of_length_eq_zero (Nat.le_zero.mp hn)
      rw [fields_nil rfl]
      exact iff_of_false (by simp) not_endsAtKey_nil
  | succ n ih =>
      rw [endsAtKey_dropSeparators]
      cases hrest : text.dropWhile (· = sep) with
      | nil =>
          rw [fields_nil hrest]
          exact iff_of_false (by simp) not_endsAtKey_nil
      | cons c rest =>
          have hc : c ≠ sep := by
            have hhead := List.head?_dropWhile_not (· = sep) text
            rw [hrest] at hhead
            exact of_decide_eq_false hhead
          have hle := (List.dropWhile_suffix (· = sep) (l := text)).length_le
          rw [hrest] at hle
          have hlt := length_splitField_lt rest hc
          rw [fields_cons hrest, endsAtKey_field hc, ← ih _ (by omega)]
          simp only [List.mem_append, Option.mem_toList, or_and_right, exists_or, Option.mem_def]

end EmptyKeys

/-- A separator that `separator_byte` lets through. -/
structure Separator where
  byte : UInt8
  ascii : byte < 128

/-- The character of a separator. -/
def Separator.char (sep : Separator) : Char := Char.ofNat sep.byte.toNat

/-- **Rendered pairs are parsed back; no slice panics; and an entry has an empty key only where the
text ends with an `=` that would begin a key.** -/
theorem parseKvPairs_correct_iff (sep : Separator) :
    (∀ pairs : List (Pair sep.char),
      parseKvPairs (renderPairs pairs) sep.byte = some (pairs.map Pair.toProd)) ∧
    ∀ text : List Char, ∃ pairs, parseKvPairs text sep.byte = some pairs ∧
      ((∀ pair ∈ pairs, pair.1 ≠ []) ↔ ¬ EndsAtKey sep.char .start text) := by
  constructor
  · intro pairs
    rw [parseKvPairs_eq sep.ascii]
    exact congrArg some (fields_render pairs)
  · intro text
    refine ⟨fields sep.char text, parseKvPairs_eq sep.ascii text, ?_⟩
    rw [← exists_emptyKey_iff]
    simp only [not_exists, not_and, ne_eq]

/-- The text `=` gives an entry with an empty key. -/
theorem emptyKey_kept : parseKvPairs ['='] 32 = some [([], [])] := by
  have hfield : splitField ' ' ['='] = (some ([], []), []) := rfl
  have hend : fields ' ' [] = [] := fields_nil rfl
  rw [parseKvPairs_eq (by decide)]
  show some (fields ' ' ['=']) = _
  rw [fields_cons rfl, hfield, hend]
  rfl

end Limpid.Functions.KeyValue
