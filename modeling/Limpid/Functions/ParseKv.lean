import Mathlib.Data.List.TakeWhile
import Limpid.Functions.Primitives

/-!
# `parse_kv`

`functions/primitives/parse_kv.rs`.  The scanner steps over the bytes of a text and cuts it with
`safe_slice`, which moves to the next character and would panic if there were none; a slice that
panics is `none`, and so is what is computed from it.

`fields` is what the scanner is for: it reads the same pairs from the characters of the text, with
no index in it.  With a separator that is ASCII, which `separator_byte` makes sure of, the scanner
computes it (`parseKvPairs_eq`): every index it slices at is at a character.
-/

namespace Limpid.Functions.KeyValue

open Dsl (Runtime Value)

/-! ## The scanner -/

/-- `is_char_boundary`. -/
def isCharBoundary (text : List Char) (i : ℕ) : Bool := (splitAtByte i text).isSome

/-- `&text[start..stop]`. -/
def slice (text : List Char) (start stop : ℕ) : Option (List Char) := do
  let (head, _) ← splitAtByte stop text
  let (_, part) ← splitAtByte start head
  some part

/-- `safe_slice`: the bounds are moved to boundaries of characters. -/
def safeSlice (text : List Char) (start stop : ℕ) : Option (List Char) :=
  let s := min start (utf8 text).length
  let e := min stop (utf8 text).length
  let s := ((List.range' s (e + 1 - s)).find? (isCharBoundary text)).getD e
  let e := ((List.range' s (e + 1 - s)).reverse.find? (isCharBoundary text)).getD s
  slice text s e

/-- The index after the bytes from `i` on that satisfy `p`. -/
def skipWhile (bytes : Bytes) (p : UInt8 → Bool) (i : ℕ) : ℕ :=
  i + ((bytes.drop i).takeWhile p).length

/-- How many bytes the loop inside quotes steps over; a backslash takes the next byte with it. -/
def skipQuoted : Bytes → ℕ
  | [] => 0
  | [b] => if b = 34 then 0 else 1
  | b :: b' :: rest =>
    if b = 34 then 0
    else if b = 92 then skipQuoted rest + 2
    else skipQuoted (b' :: rest) + 1

/-- The value behind the `=`, and where the loop goes on. -/
def scanValue (text : List Char) (sep : UInt8) (i : ℕ) : Option (List Char × ℕ) :=
  let bytes := utf8 text
  if bytes[i]? = some 34 then do
    let stop := i + 1 + skipQuoted (bytes.drop (i + 1))
    let value ← safeSlice text (i + 1) stop
    some (value, if stop < bytes.length then stop + 1 else stop)
  else do
    let stop := skipWhile bytes (· ≠ sep) i
    let value ← safeSlice text i stop
    some (value, stop)

/-- The body of the loop of `parse_kv_pairs` from a key on: the pair, and where the loop goes on. -/
def scanField (text : List Char) (sep : UInt8) (keyStart : ℕ) :
    Option (Option (List Char × List Char) × ℕ) :=
  let bytes := utf8 text
  let i := skipWhile bytes (fun b => b ≠ 61 && b ≠ sep) keyStart
  if bytes[i]? ≠ some 61 then some (none, skipWhile bytes (· ≠ sep) i)
  else do
    let key ← safeSlice text keyStart i
    -- at the end of the text the key is not checked
    if i + 1 ≥ bytes.length then some (some (key, []), i + 1)
    else do
      let (value, next) ← scanValue text sep (i + 1)
      some (if key.isEmpty then none else some (key, value), next)

theorem le_skipWhile (bytes : Bytes) (p : UInt8 → Bool) (i : ℕ) : i ≤ skipWhile bytes p i :=
  Nat.le_add_right ..

/-- A byte that satisfies the predicate is stepped over. -/
theorem lt_skipWhile {bytes : Bytes} {p : UInt8 → Bool} {i : ℕ} {b : UInt8} (h : bytes[i]? = some b)
    (hp : p b) : i < skipWhile bytes p i := by
  obtain ⟨hi, rfl⟩ := List.getElem?_eq_some_iff.mp h
  rw [skipWhile, List.drop_eq_getElem_cons hi, List.takeWhile_cons_of_pos hp, List.length_cons]
  omega

theorem getElem?_length_takeWhile {α : Type} (p : α → Bool) (l : List α) :
    l[(l.takeWhile p).length]? = (l.dropWhile p).head? := by
  have h := List.takeWhile_append_dropWhile (p := p) (l := l)
  calc l[(l.takeWhile p).length]?
      = (l.takeWhile p ++ l.dropWhile p)[(l.takeWhile p).length]? := by rw [h]
    _ = (l.dropWhile p)[0]? := by rw [List.getElem?_append_right le_rfl, Nat.sub_self]
    _ = (l.dropWhile p).head? := List.head?_eq_getElem?.symm

/-- A byte that does not is where the loop stops. -/
theorem not_of_getElem?_skipWhile {bytes : Bytes} {p : UInt8 → Bool} {i : ℕ} {b : UInt8}
    (h : bytes[skipWhile bytes p i]? = some b) : p b = false := by
  rw [skipWhile, ← List.getElem?_drop, getElem?_length_takeWhile] at h
  have hhead := List.head?_dropWhile_not p (bytes.drop i)
  rw [h] at hhead
  exact hhead

theorem skipWhile_eq_self {bytes : Bytes} {p : UInt8 → Bool} {i : ℕ} {b : UInt8}
    (h : bytes[i]? = some b) (hp : ¬ p b) : skipWhile bytes p i = i := by
  obtain ⟨hi, rfl⟩ := List.getElem?_eq_some_iff.mp h
  rw [skipWhile, List.drop_eq_getElem_cons hi, List.takeWhile_cons_of_neg hp]
  rfl

theorem le_of_scanValue {text value : List Char} {sep : UInt8} {i next : ℕ}
    (h : scanValue text sep i = some (value, next)) : i ≤ next := by
  unfold scanValue at h
  dsimp only at h
  split at h
  · obtain ⟨slice, -, h⟩ := Option.bind_eq_some_iff.mp h
    obtain rfl := (Prod.mk.inj (Option.some.inj h)).2
    split <;> omega
  · obtain ⟨slice, -, h⟩ := Option.bind_eq_some_iff.mp h
    obtain rfl := (Prod.mk.inj (Option.some.inj h)).2
    exact le_skipWhile ..

/-- The loop goes on behind the key. -/
theorem lt_of_scanField {text : List Char} {sep : UInt8} {i next : ℕ} {b : UInt8}
    {pair : Option (List Char × List Char)} (hb : (utf8 text)[i]? = some b) (hsep : b ≠ sep)
    (h : scanField text sep i = some (pair, next)) : i < next := by
  have hkey := le_skipWhile (utf8 text) (fun b => b ≠ 61 && b ≠ sep) i
  unfold scanField at h
  dsimp only at h
  split_ifs at h with hequals hend
  · by_cases hb' : b = 61
    · -- the key is empty, and what ends it is this byte
      rw [skipWhile_eq_self hb (by simp [hb'])] at hequals
      exact absurd (hb' ▸ hb) hequals
    · obtain rfl := (Prod.mk.inj (Option.some.inj h)).2
      exact (lt_skipWhile hb (by simp [hb', hsep])).trans_le (le_skipWhile ..)
  · obtain ⟨key, -, h⟩ := Option.bind_eq_some_iff.mp h
    obtain rfl := (Prod.mk.inj (Option.some.inj h)).2
    omega
  · obtain ⟨key, -, h⟩ := Option.bind_eq_some_iff.mp h
    obtain ⟨⟨value, stop⟩, hvalue, h⟩ := Option.bind_eq_some_iff.mp h
    obtain rfl := (Prod.mk.inj (Option.some.inj h)).2
    have hle := le_of_scanValue hvalue
    omega

/-- The loop of `parse_kv_pairs` from an index on. -/
def scanPairs (text : List Char) (sep : UInt8) (i : ℕ) : Option (List (List Char × List Char)) :=
  let start := skipWhile (utf8 text) (· = sep) i
  if _hstart : start < (utf8 text).length then
    match _h : scanField text sep start with
    | none => none
    | some (pair, next) => (scanPairs text sep next).map (pair.toList ++ ·)
  else some []
termination_by (utf8 text).length - i
decreasing_by
  have hsep : (utf8 text)[start] ≠ sep :=
    of_decide_eq_false (not_of_getElem?_skipWhile (List.getElem?_eq_getElem _hstart))
  have hlt := lt_of_scanField (List.getElem?_eq_getElem _hstart) hsep _h
  have hle : i ≤ start := le_skipWhile ..
  omega

/-- `parse_kv_pairs`. -/
def parseKvPairs (text : List Char) (sep : UInt8) : Option (List (List Char × List Char)) :=
  scanPairs text sep 0

/-! ## The function -/

section Function

variable (rt : Runtime)

/-- The separator that an argument names. -/
def separatorByte (s : String) : Except String UInt8 :=
  let refused :=
    .error s!"parse_kv(): separator must be a single ASCII byte, got {rt.debug s}"
  match utf8 s.toList with
  | [b] => if b < 128 then .ok b else refused
  | _ => refused

/-- The separator and the defaults among the arguments behind the text. -/
def arguments (second third : Option Value) : Except String (UInt8 × Option Value) :=
  match second, third with
  | none, _ => .ok (32, none)
  | some (.string s), defaults => (separatorByte rt s).map fun sep => (sep, defaults)
  | some (.object entries), none => .ok (32, some (.object entries))
  | some .null, none => .ok (32, some .null)
  | some other, _ =>
    .error ("parse_kv(): second argument must be a separator string or a hash literal, got " ++
      other.typeName)

/-- The object of the pairs, with the defaults. -/
def objectOf (pairs : List (List Char × List Char)) (defaults : Option Value) :
    Except String Value :=
  let parsed := Value.object (pairs.map fun pair =>
    (String.ofList pair.1, .string (String.ofList pair.2)))
  match defaults with
  | none => .ok parsed
  | some (.object given) => applyDefaults "parse_kv" (some (.object given)) parsed
  | some .null => applyDefaults "parse_kv" (some .null) parsed
  | some other =>
    .error ("parse_kv(): defaults argument must be a hash literal, got " ++ other.typeName)

/-- `parse_kv(text[, separator][, defaults])`: none when a slice panics. -/
def parseKv (text : Value) (second third : Option Value) : Option (Except String Value) :=
  match valToStr rt text with
  | .error message => some (.error message)
  | .ok text =>
    match arguments rt second third with
    | .error message => some (.error message)
    | .ok (sep, defaults) =>
      (parseKvPairs text.toList sep).map fun pairs => objectOf pairs defaults

theorem ascii_of_separatorByte {s : String} {sep : UInt8} (h : separatorByte rt s = .ok sep) :
    sep < 128 := by
  unfold separatorByte at h
  dsimp only at h
  split at h
  · split_ifs at h with hlt
    obtain rfl := Except.ok.inj h
    exact hlt
  · exact nomatch h

/-- **The scanner gets a separator that is ASCII.** -/
theorem ascii_of_arguments {second third defaults : Option Value} {sep : UInt8}
    (h : arguments rt second third = .ok (sep, defaults)) : sep < 128 := by
  unfold arguments at h
  split at h
  · cases h
    decide
  · rename_i s
    cases hsep : separatorByte rt s with
    | error message => rw [hsep] at h; exact nomatch h
    | ok b =>
        rw [hsep] at h
        cases h
        exact ascii_of_separatorByte rt hsep
  · cases h
    decide
  · cases h
    decide
  · exact nomatch h

end Function

/-! ## The fields of a text -/

/-- A quoted value from behind its first quote, and what is behind it. -/
def splitQuoted : List Char → List Char × List Char
  | [] => ([], [])
  | [c] => if c = '"' then ([], [c]) else ([c], [])
  | c :: c' :: rest =>
    if c = '"' then ([], c :: c' :: rest)
    else if c = '\\' then (c :: c' :: (splitQuoted rest).1, (splitQuoted rest).2)
    else (c :: (splitQuoted (c' :: rest)).1, (splitQuoted (c' :: rest)).2)

/-- A value from behind its `=`, and what is behind it. -/
def splitValue (sep : Char) : List Char → List Char × List Char
  | '"' :: quoted => ((splitQuoted quoted).1, (splitQuoted quoted).2.tail)
  | text => (text.takeWhile (· ≠ sep), text.dropWhile (· ≠ sep))

/-- What ends a key. -/
def inKey (sep c : Char) : Bool := c ≠ '=' && c ≠ sep

/-- The pair that a text begins with, and what is behind it. -/
def splitField (sep : Char) (text : List Char) :
    Option (List Char × List Char) × List Char :=
  match text.dropWhile (inKey sep) with
  | '=' :: [] => (some (text.takeWhile (inKey sep), []), [])
  | '=' :: c :: rest =>
    let key := text.takeWhile (inKey sep)
    let value := splitValue sep (c :: rest)
    (if key.isEmpty then none else some (key, value.1), value.2)
  | rest => (none, rest.dropWhile (· ≠ sep))

theorem splitQuoted_append (text : List Char) :
    (splitQuoted text).1 ++ (splitQuoted text).2 = text := by
  fun_induction splitQuoted text with
  | case1 => rfl
  | case2 => rfl
  | case3 => rfl
  | case4 => rfl
  | case5 c' rest _ ih => simp [ih]
  | case6 c c' rest _ _ ih => simp [ih]

theorem length_splitValue_le (sep : Char) (text : List Char) :
    (splitValue sep text).2.length ≤ text.length := by
  unfold splitValue
  split
  · rename_i quoted
    have hlength := congrArg List.length (splitQuoted_append quoted)
    rw [List.length_append] at hlength
    rw [List.length_tail, List.length_cons]
    omega
  · exact (List.dropWhile_suffix _).length_le

/-- What is behind a field is shorter. -/
theorem length_splitField_lt {sep c : Char} (rest : List Char) (hc : c ≠ sep) :
    (splitField sep (c :: rest)).2.length < (c :: rest).length := by
  have hle := (List.dropWhile_suffix (inKey sep) (l := c :: rest)).length_le
  unfold splitField
  split
  · exact Nat.succ_pos _
  · rename_i c' rest' heq
    have hvalue := length_splitValue_le sep (c' :: rest')
    rw [heq, List.length_cons] at hle
    dsimp only
    omega
  · rename_i heq₁ heq₂
    by_cases hequals : c = '='
    · -- then the field has an empty key
      rw [hequals, List.dropWhile_cons_of_neg (by simp [inKey])] at heq₁ heq₂
      cases rest with
      | nil => exact absurd rfl heq₁
      | cons c' rest => exact absurd rfl (heq₂ c' rest)
    · rw [List.dropWhile_cons_of_pos (by simp [inKey, hequals, hc])]
      have hsuffix := (List.dropWhile_suffix (· ≠ sep) (l := rest.dropWhile (inKey sep))).length_le
      have hrest := (List.dropWhile_suffix (inKey sep) (l := rest)).length_le
      rw [List.length_cons]
      dsimp only
      omega

/-- The pairs of a text. -/
def fields (sep : Char) (text : List Char) : List (List Char × List Char) :=
  match _h : text.dropWhile (· = sep) with
  | [] => []
  | c :: rest =>
    (splitField sep (c :: rest)).1.toList ++ fields sep (splitField sep (c :: rest)).2
termination_by text.length
decreasing_by
  have hc : c ≠ sep := by
    have hhead := List.head?_dropWhile_not (· = sep) text
    rw [_h] at hhead
    exact of_decide_eq_false hhead
  have hle := (List.dropWhile_suffix (· = sep) (l := text)).length_le
  rw [_h] at hle
  exact (length_splitField_lt rest hc).trans_le hle

end Limpid.Functions.KeyValue
