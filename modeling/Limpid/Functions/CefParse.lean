import Limpid.Dsl.Parser
import Limpid.Dsl.ReadPath
import Limpid.Functions.KeyValue

/-!
# `cef.parse`

`functions/cef/parse.rs`.  The header is split at the pipes that no backslash stands before, and
the extension at the keys that a look-ahead finds.  Both loops step over the bytes of the text and
slice it at their indices; a slice outside the text or inside a character panics and is `none`, and
so is what is computed from it.

`splitPipe` and `extensionFields` read the same from characters, with no index in them, and the
loops compute them (`splitUnescapedPipe_eq`, `parseCefExtensions_eq`): every index they slice at is
at a character.
-/

namespace Limpid.Functions.Cef

open Dsl (Runtime Value isKeyChar startsField valueLength)
open KeyValue (slice skipWhile)

/-! ## The header -/

/-- The index at which `split_unescaped_pipe` finds a separator.  A backslash takes the next byte
with it. -/
def pipeIndex : Bytes → Option ℕ
  | [] => none
  | [b] => if b = 124 then some 0 else none
  | b :: b' :: rest =>
    if b = 92 then (pipeIndex rest).map (· + 2)
    else if b = 124 then some 0
    else (pipeIndex (b' :: rest)).map (· + 1)

/-- `split_unescaped_pipe`: the text before a bar that no backslash precedes, and after it. -/
def splitUnescapedPipe (input : List Char) : Option (Option (List Char × List Char)) :=
  match pipeIndex (utf8 input) with
  | none => some none
  | some i => do
    let field ← slice input 0 i
    let rest ← slice input (i + 1) (utf8 input).length
    some (some (field, rest))

/-- The loop of `unescape_header_field`. -/
def unescapeChars : List Char → List Char
  | [] => []
  | ['\\'] => ['\\']
  | '\\' :: c :: rest =>
    (match c with
      | '|' => ['|']
      | '\\' => ['\\']
      | other => ['\\', other]) ++ unescapeChars rest
  | c :: rest => c :: unescapeChars rest

/-- `unescape_header_field`. -/
def unescapeHeaderField (field : List Char) : List Char :=
  if '\\' ∈ field then unescapeChars field else field

/-- The loop over the slots. -/
def splitParts : (n : ℕ) → List Char → Option (Option ((Fin n → List Char) × List Char))
  | 0, remaining => some (some (Fin.elim0, remaining))
  | n + 1, remaining => do
    match ← splitUnescapedPipe remaining with
    | none => some none
    | some (field, rest) => do
      match ← splitParts n rest with
      | none => some none
      | some (parts, remaining) => some (some (Fin.cons field parts, remaining))

/-! ## The extension -/

/-- `is_ascii_alphanumeric`, or an underscore. -/
def isKeyByte (b : UInt8) : Bool :=
  (48 ≤ b && b ≤ 57) || (65 ≤ b && b ≤ 90) || (97 ≤ b && b ≤ 122) || b = 95

/-- Whether the look-ahead finds a key and an equals sign. -/
def startsKey (bytes : Bytes) : Bool :=
  let word := (bytes.takeWhile isKeyByte).length
  bytes[word]? = some 61 && 0 < word

/-- How many bytes of a value the inner loop steps over. -/
def valueBytes : Bytes → ℕ
  | [] => 0
  | b :: rest => if b = 32 ∧ startsKey rest then 0 else valueBytes rest + 1

/-- The outer loop from an index on: `key_positions`. -/
def keyPositions (extensions : List Char) (i : ℕ) : Option (List (List Char × ℕ)) :=
  let bytes := utf8 extensions
  if i < bytes.length then
    let stop := skipWhile bytes isKeyByte i
    if bytes[stop]? = some 61 ∧ stop > i then do
      let key ← slice extensions i stop
      let start := stop + 1
      let rest ← keyPositions extensions (start + valueBytes (bytes.drop start))
      some ((key, start) :: rest)
    else keyPositions extensions (stop + 1)
  else some []
termination_by (utf8 extensions).length - i
decreasing_by
  all_goals
    have hlt : i < (utf8 extensions).length := ‹_›
    have hle : i ≤ skipWhile (utf8 extensions) isKeyByte i := KeyValue.le_skipWhile ..
    omega

/-- Where a value ends: at the space before the next key, or with the text. -/
def valueEnd (extensions : List Char) (start : ℕ) : List (List Char × ℕ) → ℕ
  | (nextKey, nextStart) :: _ => max (nextStart - ((utf8 nextKey).length + 2)) start
  | [] => (utf8 extensions).length

/-- The second loop. -/
def valuesOf (extensions : List Char) :
    List (List Char × ℕ) → Option (List (List Char × List Char))
  | [] => some []
  | (key, start) :: rest => do
    let value ← slice extensions start (valueEnd extensions start rest)
    let pairs ← valuesOf extensions rest
    some ((key, Decimal.trim value) :: pairs)

/-- `parse_cef_extensions`. -/
def parseCefExtensions (extensions : List Char) : Option (List (List Char × List Char)) :=
  if extensions.isEmpty then some []
  else (keyPositions extensions 0).bind (valuesOf extensions)

/-! ## The function -/

section Function

variable (rt : Runtime)

/-- A value of a text. -/
def string (text : List Char) : Value := .string (String.ofList text)

/-- An integer where the text is one. -/
def severityValue (text : List Char) : Value :=
  match Dsl.Parser.parseInt64 text with
  | .ok n => .int n
  | .error _ => string text

/-- The extension pairs as an object. -/
def extensionObject (pairs : List (List Char × List Char)) : Value :=
  .object (pairs.map fun pair => (String.ofList pair.1, string pair.2))

instance neZeroSeven : NeZero 7 := ⟨by decide⟩

/-- The object of the header fields, and of the extension if there is one. -/
def objectOf (parts : Fin 7 → List Char) (remaining : List Char)
    (pairs : List (List Char × List Char)) : Value :=
  .object ([("version", string (unescapeHeaderField (parts 0))),
    ("device_vendor", string (unescapeHeaderField (parts 1))),
    ("device_product", string (unescapeHeaderField (parts 2))),
    ("device_version", string (unescapeHeaderField (parts 3))),
    ("signature_id", string (unescapeHeaderField (parts 4))),
    ("name", string (unescapeHeaderField (parts 5))),
    ("severity", severityValue (unescapeHeaderField (parts 6)))] ++
    if remaining.isEmpty then []
    else [("extension_raw", string remaining), ("extension", extensionObject pairs)])

/-- The parsed object over the defaults. -/
def withDefaults (defaults : Option Value) (parsed : Value) : Except String Value :=
  match defaults with
  | none => .ok parsed
  | some (.object given) => applyDefaults "cef.parse" (some (.object given)) parsed
  | some .null => applyDefaults "cef.parse" (some .null) parsed
  | some other =>
    .error ("cef.parse(): second argument must be a hash literal, got " ++ other.typeName)

/-- `parse_impl`: none when a slice panics. -/
def parseImpl (text : Value) (defaults : Option Value) : Option (Except String Value) :=
  match valToStr rt text with
  | .error message => some (.error message)
  | .ok text =>
    match text.toList with
    | 'C' :: 'E' :: 'F' :: ':' :: body => do
      match ← splitParts 7 body with
      | none => some (.error "cef.parse(): incomplete CEF header")
      | some (parts, remaining) =>
        let pairs ← if remaining.isEmpty then some [] else parseCefExtensions remaining
        some (withDefaults defaults (objectOf parts remaining pairs))
    | _ => some (.error "cef.parse(): input does not start with \x60CEF:\x60")

end Function

end Limpid.Functions.Cef
