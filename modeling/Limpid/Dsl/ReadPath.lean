import Limpid.Decimal
import Limpid.Dsl.Eval
import Limpid.Dsl.Settle

/-!
# Reading a path before and after an event leaves the evaluation

A path of keys read in a value of the evaluator takes the first entry of each key; after the value
has been converted to an `OwnedValue` the last entry of each key is left.  `follow` goes down a
path with either way of picking an entry, and says where it ends: at a value, at a key that is not
there, or at bytes, in which no key is looked up.

Reading before and after agree exactly when both ways of picking end alike (`read_agrees_iff`).
That they need not was known for the header of a CEF message, whose extension fields have therefore
been given an object of their own; but an extension field may itself come twice
(`parseCefExtensions`).
-/

namespace Limpid.Dsl

open Entries

/-! ## Reading -/

/-- `Value::get`. -/
def Value.get (key : String) : Value → Option Value
  | .object entries => entries.lookup key
  | _ => none

/-- The value at a path through objects. -/
def Value.getPath : List String → Value → Option Value
  | [], value => some value
  | key :: rest, value => (value.get key).bind (getPath rest)

/-- The entry of an object's map. -/
def OwnedValue.get (key : String) : OwnedValue → Option OwnedValue
  | .object entries => entries.lookup key
  | _ => none

/-- The owned value at a path through objects. -/
def OwnedValue.getPath : List String → OwnedValue → Option OwnedValue
  | [], value => some value
  | key :: rest, value => (value.get key).bind (getPath rest)

/-- Reading a path and converting what is found is converting and reading the path.  A path is
read by `get`, and by the evaluator, for which a view of the converted value is read. -/
def ReadAgrees (path : List String) (value : Value) : Prop :=
  (value.getPath path).map Value.toOwnedValue = value.toOwnedValue.getPath path ∧
    (resolveWorkspacePath path value).map Value.toOwnedValue =
      (resolveWorkspacePath path value.toOwnedValue.viewIn).map Value.toOwnedValue

/-! ## Values alike -/

/-- The same up to entries that are overridden: the same scalars, arrays alike element by element,
objects with the same keys in the order of first occurrence and with last entries alike. -/
inductive Value.Alike : Value → Value → Prop
  | null : Alike .null .null
  | bool (b : Bool) : Alike (.bool b) (.bool b)
  | int (n : Int64) : Alike (.int n) (.int n)
  | float (n : F64) : Alike (.float n) (.float n)
  | string (s : String) : Alike (.string s) (.string s)
  | bytes (data : Bytes) : Alike (.bytes data) (.bytes data)
  | timestamp (instant : Timestamp) : Alike (.timestamp instant) (.timestamp instant)
  | array {first second : List Value} (hlength : first.length = second.length)
      (h : ∀ (i : ℕ) a b, first[i]? = some a → second[i]? = some b → Alike a b) :
      Alike (.array first) (.array second)
  | object {first second : List (String × Value)}
      (hkeys : keys (collect first) = keys (collect second))
      (h : ∀ key a b, last key first = some a → last key second = some b → Alike a b) :
      Alike (.object first) (.object second)

/-- Alike values are converted to the same. -/
theorem Value.Alike.toOwnedValue_eq {first second : Value} (h : first.Alike second) :
    first.toOwnedValue = second.toOwnedValue := by
  induction h with
  | @array first second hlength _ ih =>
      rw [toOwnedValue_array, toOwnedValue_array]
      refine congrArg OwnedValue.array (List.ext_getElem? fun i => ?_)
      rw [List.getElem?_map, List.getElem?_map]
      by_cases hi : i < first.length
      · have ha : first[i]? = some first[i] := List.getElem?_eq_getElem hi
        have hb : second[i]? = some second[i] := List.getElem?_eq_getElem (hlength ▸ hi)
        rw [ha, hb]
        exact congrArg some (ih i _ _ ha hb)
      · rw [List.getElem?_eq_none (by omega), List.getElem?_eq_none (by omega)]
  | @object first second hkeys _ ih =>
      rw [toOwnedValue_object, toOwnedValue_object, ← mapValues_collect, ← mapValues_collect]
      refine congrArg OwnedValue.object (ext_of_lookup ?_ ?_ fun key => ?_)
      · rw [keys_mapValues, keys_mapValues, hkeys]
      · rw [keys_mapValues]
        exact nodup_collect first
      · rw [lookup_mapValues, lookup_mapValues, lookup_collect, lookup_collect]
        have hmem : last key first = none ↔ last key second = none := by
          rw [last_eq_none_iff_notMem_collect, last_eq_none_iff_notMem_collect, hkeys]
        cases ha : last key first with
        | none => rw [hmem.mp ha]
        | some a =>
            cases hb : last key second with
            | none => rw [hmem.mpr hb] at ha; exact absurd ha (by simp)
            | some b => exact congrArg some (ih key a b ha hb)
  | _ => rfl

theorem Value.alike_of_toOwnedValue_eq {first second : Value}
    (h : first.toOwnedValue = second.toOwnedValue) : first.Alike second := by
  induction first using Value.induction generalizing second with
  | array items ih =>
      cases second with
      | array others =>
          rw [toOwnedValue_array, toOwnedValue_array] at h
          have hitems := OwnedValue.array.inj h
          have hlength : items.length = others.length := by
            simpa using congrArg List.length hitems
          refine .array hlength fun i a b ha hb => ih a (List.mem_of_getElem? ha) ?_
          have hi : (items.map toOwnedValue)[i]? = (others.map toOwnedValue)[i]? := by rw [hitems]
          rw [List.getElem?_map, List.getElem?_map, ha, hb] at hi
          exact Option.some.inj hi
      | _ => exact OwnedValue.noConfusion h
  | object entries ih =>
      cases second with
      | object others =>
          rw [toOwnedValue_object, toOwnedValue_object] at h
          have hentries := OwnedValue.object.inj h
          rw [← mapValues_collect, ← mapValues_collect] at hentries
          refine .object ?_ fun key a b ha hb => ih (key, a) (mem_of_last ha) ?_
          · have hkeys := congrArg keys hentries
            rwa [keys_mapValues, keys_mapValues] at hkeys
          · have hvalue := congrArg (List.lookup key) hentries
            rw [lookup_mapValues, lookup_mapValues, lookup_collect, lookup_collect, ha, hb]
              at hvalue
            exact Option.some.inj hvalue
      | _ => exact OwnedValue.noConfusion h
  | null =>
      cases second with
      | null => exact .null
      | _ => exact OwnedValue.noConfusion h
  | bool b =>
      cases second with
      | bool _ => exact OwnedValue.bool.inj h ▸ .bool b
      | _ => exact OwnedValue.noConfusion h
  | int n =>
      cases second with
      | int _ => exact OwnedValue.int.inj h ▸ .int n
      | _ => exact OwnedValue.noConfusion h
  | float n =>
      cases second with
      | float _ => exact OwnedValue.float.inj h ▸ .float n
      | _ => exact OwnedValue.noConfusion h
  | string s =>
      cases second with
      | string _ => exact OwnedValue.string.inj h ▸ .string s
      | _ => exact OwnedValue.noConfusion h
  | bytes data =>
      cases second with
      | bytes _ => exact OwnedValue.bytes.inj h ▸ .bytes data
      | _ => exact OwnedValue.noConfusion h
  | timestamp instant =>
      cases second with
      | timestamp _ => exact OwnedValue.timestamp.inj h ▸ .timestamp instant
      | _ => exact OwnedValue.noConfusion h

theorem Value.alike_iff {first second : Value} :
    first.Alike second ↔ first.toOwnedValue = second.toOwnedValue :=
  ⟨Alike.toOwnedValue_eq, alike_of_toOwnedValue_eq⟩

/-! ## Where a path ends -/

/-- What a reader comes to at the end of a path. -/
inductive PathEnd where
  | value (value : Value)
  | missing
  /-- At bytes, with a key still to look up. -/
  | bytes (key : String)

/-- Go down a path, given how an entry is picked. -/
def follow (pick : String → List (String × Value) → Option Value) : List String → Value → PathEnd
  | [], value => .value value
  | key :: rest, .object entries =>
      match pick key entries with
      | some value => follow pick rest value
      | none => .missing
  | key :: _, .bytes _ => .bytes key
  | _ :: _, _ => .missing

/-- The end of a path along first entries. -/
def followFirst : List String → Value → PathEnd :=
  follow fun key entries => entries.lookup key

/-- The end of a path along last entries. -/
def followLast : List String → Value → PathEnd := follow last

namespace PathEnd

/-- The value, if there is one. -/
def found : PathEnd → Option Value
  | .value v => some v
  | _ => none

/-- As the evaluator has it: what is not there is null. -/
def result : PathEnd → Except String Value
  | .value v => .ok v
  | .missing => .ok .null
  | .bytes key => .error s!"cannot access field `{key}` on a bytes value"

/-- The value at the end is changed. -/
def map (f : Value → Value) : PathEnd → PathEnd
  | .value v => .value (f v)
  | .missing => .missing
  | .bytes key => .bytes key

/-- The same end, up to entries that are overridden. -/
inductive Alike : PathEnd → PathEnd → Prop
  | value {first second : Value} (h : first.Alike second) : Alike (.value first) (.value second)
  | missing : Alike .missing .missing
  | bytes (key : String) : Alike (.bytes key) (.bytes key)

end PathEnd

theorem Value.getPath_eq (path : List String) (value : Value) :
    value.getPath path = (followFirst path value).found := by
  induction path generalizing value with
  | nil => rfl
  | cons key rest ih =>
      cases value with
      | object entries =>
          rw [getPath, get, followFirst, follow]
          cases entries.lookup key with
          | none => rfl
          | some value => exact ih value
      | _ => rfl

theorem resolveWorkspacePath_null (path : List String) :
    resolveWorkspacePath path .null = .ok .null := by
  cases path <;> rfl

theorem resolveWorkspacePath_eq (path : List String) (value : Value) :
    resolveWorkspacePath path value = (followFirst path value).result := by
  induction path generalizing value with
  | nil => rfl
  | cons key rest ih =>
      cases value with
      | object entries =>
          rw [resolveWorkspacePath, entry, followFirst, follow]
          cases entries.lookup key with
          | none => exact resolveWorkspacePath_null rest
          | some value => exact ih value
      | _ => rfl

/-- An owned value has the last entry of each key. -/
theorem OwnedValue.getPath_toOwnedValue (path : List String) (value : Value) :
    value.toOwnedValue.getPath path = (followLast path value).found.map Value.toOwnedValue := by
  induction path generalizing value with
  | nil => rfl
  | cons key rest ih =>
      cases value with
      | object entries =>
          rw [Value.toOwnedValue_object, getPath, get, lookup_collect, last_mapValues, followLast,
            follow]
          cases last key entries with
          | none => rfl
          | some value => exact ih value
      | _ => rfl

theorem followFirst_settle (path : List String) (value : Value) :
    followFirst path value.settle = (followLast path value).map Value.settle := by
  induction path generalizing value with
  | nil => rfl
  | cons key rest ih =>
      cases value with
      | object entries =>
          rw [Value.settle_object, followFirst, follow, lookup_collect, last_mapValues, followLast,
            follow]
          cases last key entries with
          | none => rfl
          | some value => exact ih value
      | _ => rfl

/-! ## The comparison -/

theorem result_map_settle (stop : PathEnd) :
    (stop.map Value.settle).result.map Value.toOwnedValue =
      stop.result.map Value.toOwnedValue := by
  cases stop with
  | value found =>
      exact congrArg Except.ok (OwnedValue.toOwnedValue_viewIn found.wellFormed_toOwnedValue)
  | missing => rfl
  | bytes key => rfl

/-- The text names the key. -/
theorem bytesMessage_injective {first second : String}
    (h : s!"cannot access field `{first}` on a bytes value" =
      s!"cannot access field `{second}` on a bytes value") : first = second := by
  have hlist : ("cannot access field `" ++ first ++ "` on a bytes value").toList =
      ("cannot access field `" ++ second ++ "` on a bytes value").toList :=
    congrArg String.toList h
  simp only [String.toList_append] at hlist
  exact String.toList_inj.mp (List.append_cancel_left (List.append_cancel_right hlist))

theorem PathEnd.alike_iff (first second : PathEnd) :
    first.Alike second ↔
      first.found.map Value.toOwnedValue = second.found.map Value.toOwnedValue ∧
        first.result.map Value.toOwnedValue = second.result.map Value.toOwnedValue := by
  constructor
  · rintro (h | _ | _)
    · have heq := Value.alike_iff.mp h
      exact ⟨congrArg some heq, congrArg Except.ok heq⟩
    · exact ⟨rfl, rfl⟩
    · exact ⟨rfl, rfl⟩
  · rintro ⟨hfound, hresult⟩
    cases first with
    | value found =>
        cases second with
        | value other => exact .value (Value.alike_iff.mpr (Option.some.inj hfound))
        | _ => exact nomatch hfound
    | missing =>
        cases second with
        | missing => exact .missing
        | value other => exact nomatch hfound
        | bytes key => exact nomatch hresult
    | bytes key =>
        cases second with
        | bytes other =>
            obtain rfl := bytesMessage_injective (Except.error.inj hresult)
            exact .bytes key
        | value other => exact nomatch hfound
        | missing => exact nomatch hresult

/-- **Reading a path before and after the conversion** agree exactly when the first and the last
entries along it end alike. -/
theorem read_agrees_iff (value : Value) (path : List String) :
    ReadAgrees path value ↔ (followFirst path value).Alike (followLast path value) := by
  rw [ReadAgrees, Value.getPath_eq, OwnedValue.getPath_toOwnedValue, resolveWorkspacePath_eq,
    resolveWorkspacePath_eq, PathEnd.alike_iff, ← result_map_settle (followLast path value),
    ← followFirst_settle]
  rfl

/-! ## The extension fields of a CEF message -/

/-- A letter or digit of ASCII, or an underscore. -/
def isKeyChar (c : Char) : Bool := c.isAlphanum || c = '_'

/-- Whether text begins with a key and an equals sign. -/
def startsField (text : List Char) : Bool :=
  text.takeWhile isKeyChar ≠ [] && (text.dropWhile isKeyChar).head? = some '='

/-- The length of a value: it ends at the end of the text or at a space before a field. -/
def valueLength : List Char → ℕ
  | [] => 0
  | c :: rest => if c = ' ' ∧ startsField rest then 0 else valueLength rest + 1

/-- The scan of `parse_cef_extensions`: each key with the position where its value starts.  Every
turn goes past at least one character, so the length of the text is fuel enough. -/
def keyPositions : ℕ → ℕ → List Char → List (List Char × ℕ)
  | 0, _, _ => []
  | fuel + 1, position, text =>
      let key := text.takeWhile isKeyChar
      match text.dropWhile isKeyChar with
      | [] => []
      | c :: rest =>
          let next := position + key.length + 1
          if c = '=' ∧ key ≠ [] then
            let skipped := valueLength rest
            (key, next) :: keyPositions fuel (next + skipped) (rest.drop skipped)
          else keyPositions fuel next rest

/-- The fields, each value reaching to where the next key starts. -/
def cefFields (extensions : List Char) : List (List Char × ℕ) → List (String × Value)
  | [] => []
  | (key, start) :: rest =>
      let stop := match rest with
        | (nextKey, nextStart) :: _ => max (nextStart - (nextKey.length + 2)) start
        | [] => extensions.length
      (String.ofList key,
        .string (String.ofList (Decimal.trim ((extensions.take stop).drop start)))) ::
        cefFields extensions rest

/-- `parse_cef_extensions`: what it pushes into the builder.  Positions count characters. -/
def parseCefExtensions (extensions : List Char) : List (String × Value) :=
  cefFields extensions (keyPositions extensions.length 0 extensions)

/-- Two fields of the same name. -/
def repeatedText : List Char := "src=10.0.0.1 src=10.0.0.2 dst=8.8.8.8".toList

theorem parseCefExtensions_repeatedText :
    parseCefExtensions repeatedText =
      [("src", .string "10.0.0.1"), ("src", .string "10.0.0.2"), ("dst", .string "8.8.8.8")] := by
  have hkeys : keyPositions repeatedText.length 0 repeatedText =
      [("src".toList, 4), ("src".toList, 17), ("dst".toList, 30)] := by decide +kernel
  have hfirst : String.ofList (Decimal.trim ((repeatedText.take
      (max (17 - ("src".toList.length + 2)) 4)).drop 4)) = "10.0.0.1" := by decide +kernel
  have hsecond : String.ofList (Decimal.trim ((repeatedText.take
      (max (30 - ("dst".toList.length + 2)) 17)).drop 17)) = "10.0.0.2" := by decide +kernel
  have hthird : String.ofList (Decimal.trim ((repeatedText.take
      repeatedText.length).drop 30)) = "8.8.8.8" := by decide +kernel
  rw [parseCefExtensions, hkeys]
  simp only [cefFields, hfirst, hsecond, hthird, String.ofList_toList]

/-- The extension object of such a message. -/
def repeatedFields : Value := .object (parseCefExtensions repeatedText)

theorem repeatedFields_read_differs :
    repeatedFields.getPath ["src"] = some (.string "10.0.0.1") ∧
      repeatedFields.toOwnedValue.getPath ["src"] = some (.string "10.0.0.2") ∧
        ¬ReadAgrees ["src"] repeatedFields := by
  have hfields : repeatedFields = .object [("src", .string "10.0.0.1"),
      ("src", .string "10.0.0.2"), ("dst", .string "8.8.8.8")] :=
    congrArg Value.object parseCefExtensions_repeatedText
  have hfirst : repeatedFields.getPath ["src"] = some (.string "10.0.0.1") := by
    rw [hfields]
    rfl
  have hlast : repeatedFields.toOwnedValue.getPath ["src"] = some (.string "10.0.0.2") := by
    rw [hfields]
    rfl
  refine ⟨hfirst, hlast, fun hagrees => ?_⟩
  have hsame := hagrees.1
  rw [hfirst, hlast] at hsame
  have hstring : OwnedValue.string "10.0.0.1" = .string "10.0.0.2" := Option.some.inj hsame
  exact absurd (OwnedValue.string.inj hstring) (by decide)

end Limpid.Dsl
