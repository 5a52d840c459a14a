import Limpid.Dsl.Settle

/-!
# The two JSON paths

`dsl/value_json.rs` writes and reads JSON twice.  For what is kept outside an evaluation there are
`valueToJson` and `jsonToValue`; inside one, `to_json` writes the text of a value straight away
(`serialize`, the `Serialize` implementation) and `parse_json` builds a value straight away
(`jsonToValueIn`).

Reading agrees (`jsonToValueIn_eq`).  Writing agrees on every view of an owned value
(`serialize_viewIn`), and so the two ways of writing a value differ by what the value loses when
it is settled.  That is exactly when the value holds an object with a key that occurs twice; there
is one exception, which is when what is left cannot be written anyway (`same_text_iff`).
The argument for the difference is by length: what is lost was written by the direct path.

`serde_json`'s texts of a string and of a float are parameters.
-/

namespace Limpid.Dsl

open Entries

/-- The texts of `serde_json` that are not modelled. -/
structure JsonFormat where
  string : String → List Char
  float : F64 → List Char

/-! ## Text -/

/-- The compact form of an array or object with parts. -/
def bracket (start stop : Char) (parts : List (List Char)) : List Char :=
  start :: (List.intercalate [','] parts ++ [stop])

/-- An integer in decimal. -/
def intText (n : Int64) : List Char := (toString n.toInt).toList

section Text

variable (format : JsonFormat)

/-- A key, a colon and a value. -/
def entryText (key : String) (value : List Char) : List Char :=
  format.string key ++ ':' :: value

mutual

/-- `serde_json::to_string`. -/
def Json.text : Json → List Char
  | .null => "null".toList
  | .bool b => (if b then "true" else "false").toList
  | .number (.posInt n) => (toString n.toNat).toList
  | .number (.negInt n) => intText n
  | .number (.float n) => format.float n
  | .string s => format.string s
  | .array items => bracket '[' ']' (Json.itemTexts items)
  | .object entries => bracket '\x7b' '\x7d' (Json.entryTexts entries)

def Json.itemTexts : List Json → List (List Char)
  | [] => []
  | item :: rest => item.text :: Json.itemTexts rest

def Json.entryTexts : List (String × Json) → List (List Char)
  | [] => []
  | (key, value) :: rest => entryText format key value.text :: Json.entryTexts rest

end

end Text

/-! ## The direct paths -/

section Direct

variable (rt : Runtime) (base64 : Base64) (format : JsonFormat)

mutual

/-- The `Serialize` implementation of a value, into text. -/
def serialize : Value → Except String (List Char)
  | .null => .ok "null".toList
  | .bool b => .ok (if b then "true" else "false").toList
  | .int n => .ok (intText n)
  | .float n =>
      if rt.isFinite n then .ok (format.float n)
      else .error s!"cannot serialize non-finite float to JSON: {rt.display n}"
  | .string s => .ok (format.string s)
  | .bytes data =>
      .ok (bracket '\x7b' '\x7d'
        [entryText format bytesMarkerKey (format.string (base64.encode data))])
  | .timestamp instant =>
      match timestampNanos instant with
      | some nanos => .ok (intText nanos)
      | none => .error "timestamp out of i64 nanosecond range"
  | .array items => do
      let parts ← serializeItems items
      return bracket '[' ']' parts
  | .object entries => do
      let parts ← serializeEntries entries
      return bracket '\x7b' '\x7d' parts

def serializeItems : List Value → Except String (List (List Char))
  | [] => .ok []
  | item :: rest => do
      let part ← serialize item
      let parts ← serializeItems rest
      return part :: parts

def serializeEntries : List (String × Value) → Except String (List (List Char))
  | [] => .ok []
  | (key, value) :: rest => do
      let part ← serialize value
      let parts ← serializeEntries rest
      return entryText format (escapeUserKey key) part :: parts

end

/-- A number of JSON, in the evaluator. -/
def numberToValueIn (n : JsonNumber) : Value :=
  match n, n.asInt with
  | _, some i => .int i
  | .posInt u, none => .float (rt.ofUInt u)
  | .negInt i, none => .float (rt.ofInt i)
  | .float n, none => .float n

mutual

/-- `json_to_value_in`. -/
def jsonToValueIn : Json → Except String Value
  | .null => .ok .null
  | .bool b => .ok (.bool b)
  | .number n => .ok (numberToValueIn rt n)
  | .string s => .ok (.string s)
  | .array items => do
      let out ← jsonToItemsIn items
      return .array out
  | .object [(key, payload)] =>
      if key = bytesMarkerKey then
        match payload with
        | .string s =>
            match base64.decode s with
            | .ok data => .ok (.bytes data)
            | .error e => .error s!"invalid base64 in {bytesMarkerKey}: {e}"
        | payload => .error s!"{bytesMarkerKey} marker must hold a string, got {payload.shape}"
      else do
        let key ← unescapeUserKey rt key
        let value ← jsonToValueIn payload
        return .object [(key, value)]
  | .object entries => do
      let out ← jsonToEntriesIn entries
      return .object out

def jsonToItemsIn : List Json → Except String (List Value)
  | [] => .ok []
  | item :: rest => do
      let value ← jsonToValueIn item
      let out ← jsonToItemsIn rest
      return value :: out

def jsonToEntriesIn : List (String × Json) → Except String (List (String × Value))
  | [] => .ok []
  | (key, value) :: rest => do
      let key ← unescapeUserKey rt key
      let value ← jsonToValueIn value
      let out ← jsonToEntriesIn rest
      return (key, value) :: out

end

end Direct

/-! ## Reading -/

/-- What succeeds after a computation that may fail: the computation succeeds. -/
theorem Except.exists_of_bind_eq_ok {ε α β : Type} {x : Except ε α} {f : α → Except ε β} {b : β}
    (h : x >>= f = .ok b) : ∃ a, x = .ok a ∧ f a = .ok b := by
  cases x with
  | error message => exact absurd h (by simp [bind, Except.bind])
  | ok a => exact ⟨a, rfl, h⟩

/-- Induction on JSON. -/
@[elab_as_elim]
theorem Json.induction {motive : Json → Prop} (null : motive .null)
    (bool : ∀ b, motive (.bool b)) (number : ∀ n, motive (.number n))
    (string : ∀ s, motive (.string s))
    (array : ∀ items, (∀ item ∈ items, motive item) → motive (.array items))
    (object : ∀ entries : List (String × Json), (∀ entry ∈ entries, motive entry.2) →
      motive (.object entries)) (json : Json) : motive json := by
  refine Json.rec (motive_1 := motive) (motive_2 := fun items => ∀ item ∈ items, motive item)
    (motive_3 := fun entries => ∀ entry ∈ entries, motive entry.2)
    (motive_4 := fun entry => motive entry.2)
    null bool number string array object ?_ ?_ ?_ ?_ ?_ json
  · exact fun _ h => absurd h List.not_mem_nil
  · exact fun _ _ hhead htail => List.forall_mem_cons.mpr ⟨hhead, htail⟩
  · exact fun _ h => absurd h List.not_mem_nil
  · exact fun _ _ hhead htail => List.forall_mem_cons.mpr ⟨hhead, htail⟩
  · exact fun _ _ h => h

/-- The keys of every object are distinct, as a `serde_json::Map` has them. -/
inductive Json.WellFormed : Json → Prop
  | null : WellFormed .null
  | bool (b : Bool) : WellFormed (.bool b)
  | number (n : JsonNumber) : WellFormed (.number n)
  | string (s : String) : WellFormed (.string s)
  | array {items : List Json} (h : ∀ item ∈ items, WellFormed item) : WellFormed (.array items)
  | object {entries : List (String × Json)} (hkeys : (keys entries).Nodup)
      (h : ∀ entry ∈ entries, WellFormed entry.2) : WellFormed (.object entries)

section Reading

variable (rt : Runtime) (base64 : Base64)

theorem numberToValueIn_eq (n : JsonNumber) :
    numberToValueIn rt n = (numberToValue rt n).viewIn := by
  unfold numberToValueIn numberToValue
  cases n.asInt with
  | some i => cases n <;> rfl
  | none => cases n <;> rfl

/-- Only the marker object is not read entry by entry. -/
theorem jsonToValueIn_object {entries : List (String × Json)}
    (h : ∀ payload, entries ≠ [(bytesMarkerKey, payload)]) :
    jsonToValueIn rt base64 (.object entries) =
      (jsonToEntriesIn rt base64 entries).map .object := by
  match entries, h with
  | [], _ => rfl
  | [(key, payload)], h =>
      have hkey : key ≠ bytesMarkerKey := fun hkey => h payload (by rw [hkey])
      unfold jsonToValueIn
      rw [if_neg hkey, jsonToEntriesIn]
      cases unescapeUserKey rt key with
      | error message => rfl
      | ok key => cases jsonToValueIn rt base64 payload <;> rfl
  | first :: second :: rest, _ => rfl

theorem jsonToItemsIn_eq {items : List Json} (h : ∀ item ∈ items,
    jsonToValueIn rt base64 item = (jsonToValue rt base64 item).map OwnedValue.viewIn) :
    jsonToItemsIn rt base64 items =
      (jsonToItems rt base64 items).map (List.map OwnedValue.viewIn) := by
  induction items with
  | nil => rfl
  | cons item rest ih =>
      rw [List.forall_mem_cons] at h
      rw [jsonToItemsIn, jsonToItems, h.1, ih h.2]
      cases jsonToValue rt base64 item with
      | error message => rfl
      | ok value => cases jsonToItems rt base64 rest <;> rfl

/-- The builder keeps every entry; the map it is compared with has them written one by one. -/
theorem jsonToEntriesIn_eq {entries : List (String × Json)} (h : ∀ entry ∈ entries,
    jsonToValueIn rt base64 entry.2 = (jsonToValue rt base64 entry.2).map OwnedValue.viewIn)
    (out : Map) :
    (jsonToEntriesIn rt base64 entries).map (insertAll (mapValues OwnedValue.viewIn out)) =
      (jsonToEntries rt base64 entries out).map (mapValues OwnedValue.viewIn) := by
  induction entries generalizing out with
  | nil => rfl
  | cons entry rest ih =>
      obtain ⟨key, json⟩ := entry
      rw [List.forall_mem_cons] at h
      rw [jsonToEntriesIn, jsonToEntries, h.1]
      cases unescapeUserKey rt key with
      | error message => rfl
      | ok key =>
          cases jsonToValue rt base64 json with
          | error message => rfl
          | ok value =>
              have hrest := ih h.2 (out.insert key value)
              rw [Map.insert_eq, mapValues_insert] at hrest
              show _ = (jsonToEntries rt base64 rest (out.insert key value)).map _
              rw [Map.insert_eq, ← hrest]
              cases jsonToEntriesIn rt base64 rest <;> rfl

theorem keys_of_jsonToEntriesIn {entries : List (String × Json)} {out : List (String × Value)}
    (h : jsonToEntriesIn rt base64 entries = .ok out) :
    (keys out).map escapeUserKey = keys entries := by
  induction entries generalizing out with
  | nil =>
      obtain rfl := Except.ok.inj h
      rfl
  | cons entry rest ih =>
      obtain ⟨key, json⟩ := entry
      obtain ⟨original, hkey, h⟩ := Except.exists_of_bind_eq_ok h
      obtain ⟨value, -, h⟩ := Except.exists_of_bind_eq_ok h
      obtain ⟨others, hothers, h⟩ := Except.exists_of_bind_eq_ok h
      obtain rfl := Except.ok.inj h
      rw [keys_cons, List.map_cons, ih hothers, escape_unescape hkey]
      rfl

/-- **Reading JSON in an evaluation and outside it agree.** -/
theorem jsonToValueIn_eq {json : Json} (h : json.WellFormed) :
    jsonToValueIn rt base64 json = (jsonToValue rt base64 json).map OwnedValue.viewIn := by
  induction h with
  | null => rfl
  | bool b => rfl
  | number n => exact congrArg Except.ok (numberToValueIn_eq rt n)
  | string s => rfl
  | array _ ih =>
      rw [jsonToValueIn, jsonToValue, jsonToItemsIn_eq rt base64 ih]
      cases jsonToItems rt base64 _ with
      | error message => rfl
      | ok items => exact congrArg Except.ok (OwnedValue.viewIn_array items).symm
  | @object entries hkeys _ ih =>
      by_cases hmarker : ∃ payload, entries = [(bytesMarkerKey, payload)]
      · obtain ⟨payload, rfl⟩ := hmarker
        unfold jsonToValueIn jsonToValue
        rw [if_pos rfl, if_pos rfl]
        cases payload with
        | string s =>
            dsimp only
            cases base64.decode s <;> rfl
        | _ => rfl
      · have hnone : ∀ payload, entries ≠ [(bytesMarkerKey, payload)] := fun payload heq =>
          hmarker ⟨payload, heq⟩
        rw [jsonToValueIn_object rt base64 hnone, jsonToValue_object rt base64 hnone]
        have hentries := jsonToEntriesIn_eq rt base64 ih []
        cases hread : jsonToEntriesIn rt base64 entries with
        | error message =>
            rw [hread] at hentries
            cases hout : jsonToEntries rt base64 entries [] with
            | error other => rw [hout] at hentries; exact congrArg _ (Except.error.inj hentries)
            | ok out => rw [hout] at hentries; exact absurd hentries (by simp [Except.map])
        | ok out =>
            have hnodup : (keys out).Nodup := by
              rw [← keys_of_jsonToEntriesIn rt base64 hread] at hkeys
              exact hkeys.of_map
            have hcollect : insertAll [] out = out := collect_of_nodup hnodup
            rw [hread] at hentries
            cases hout : jsonToEntries rt base64 entries [] with
            | error message => rw [hout] at hentries; exact absurd hentries (by simp [Except.map])
            | ok map =>
                rw [hout] at hentries
                have hmap : insertAll [] out = mapValues OwnedValue.viewIn map :=
                  Except.ok.inj hentries
                show Except.ok (Value.object out) = .ok (OwnedValue.object map).viewIn
                rw [OwnedValue.viewIn_object, ← hmap, hcollect]

end Reading

/-! ## Writing a view -/

section Writing

variable (rt : Runtime) (base64 : Base64) (format : JsonFormat)

theorem text_ofInt (n : Int64) : (Json.number (.ofInt n)).text format = intText n := by
  unfold JsonNumber.ofInt
  split
  · next h =>
    have hnonneg : 0 ≤ n.toInt := Int64.le_iff_toInt_le.mp h
    have hnat : (n.toUInt64.toNat : ℤ) = n.toInt := by
      rw [Int64.toNat_toUInt64_of_le h]
      exact Int.toNat_of_nonneg hnonneg
    show (toString n.toUInt64.toNat).toList = (toString n.toInt).toList
    rw [← hnat]
    rfl
  · rfl

theorem serializeItems_eq {items : List OwnedValue} (h : ∀ item ∈ items,
    serialize rt base64 format item.viewIn =
      (valueToJson rt base64 item).map (Json.text format)) :
    serializeItems rt base64 format (items.map OwnedValue.viewIn) =
      (itemsToJson rt base64 items).map (Json.itemTexts format) := by
  induction items with
  | nil => rfl
  | cons item rest ih =>
      rw [List.forall_mem_cons] at h
      rw [List.map_cons, serializeItems, itemsToJson, h.1, ih h.2]
      cases valueToJson rt base64 item with
      | error message => rfl
      | ok json => cases itemsToJson rt base64 rest <;> rfl

theorem entryTexts_append (first second : List (String × Json)) :
    Json.entryTexts format (first ++ second) =
      Json.entryTexts format first ++ Json.entryTexts format second := by
  induction first with
  | nil => rfl
  | cons entry rest ih =>
      rw [List.cons_append, Json.entryTexts, ih, Json.entryTexts, List.cons_append]

/-- Entries with new keys are written one after the other by both. -/
theorem serializeEntries_eq {entries : List (String × OwnedValue)} (h : ∀ entry ∈ entries,
    serialize rt base64 format entry.2.viewIn =
      (valueToJson rt base64 entry.2).map (Json.text format)) (hkeys : (keys entries).Nodup)
    (out : List (String × Json)) (hout : ∀ key ∈ keys entries, escapeUserKey key ∉ keys out) :
    (serializeEntries rt base64 format (mapValues OwnedValue.viewIn entries)).map
        (Json.entryTexts format out ++ ·) =
      (entriesToJson rt base64 entries out).map (Json.entryTexts format) := by
  induction entries generalizing out with
  | nil => exact congrArg Except.ok (List.append_nil _)
  | cons entry rest ih =>
      obtain ⟨key, value⟩ := entry
      rw [List.forall_mem_cons] at h
      rw [keys_cons, List.nodup_cons] at hkeys
      rw [keys_cons, List.forall_mem_cons] at hout
      have hcons : mapValues OwnedValue.viewIn ((key, value) :: rest) =
          (key, value.viewIn) :: mapValues OwnedValue.viewIn rest := rfl
      rw [hcons, serializeEntries, entriesToJson, h.1]
      cases valueToJson rt base64 value with
      | error message => rfl
      | ok json =>
          have hfresh : ∀ other ∈ keys rest,
              escapeUserKey other ∉ keys (out ++ [(escapeUserKey key, json)]) := by
            intro other hother hmem
            rw [keys_append, List.mem_append] at hmem
            rcases hmem with hmem | hmem
            · exact hout.2 other hother hmem
            · have hkey : escapeUserKey other = escapeUserKey key := List.mem_singleton.mp hmem
              exact hkeys.1 (escapeUserKey_injective rt hkey ▸ hother)
          have hrest := ih h.2 hkeys.2 (out ++ [(escapeUserKey key, json)]) hfresh
          rw [entryTexts_append] at hrest
          show _ = (entriesToJson rt base64 rest (Json.insert _ json out)).map _
          rw [Json.insert_eq, insert_of_notMem hout.1, ← hrest]
          cases serializeEntries rt base64 format (mapValues OwnedValue.viewIn rest) with
          | error message => rfl
          | ok parts => exact congrArg Except.ok (List.append_cons _ _ _)

/-- **Writing a view agrees with writing the owned value.** -/
theorem serialize_viewIn {value : OwnedValue} (h : value.WellFormed) :
    serialize rt base64 format value.viewIn =
      (valueToJson rt base64 value).map (Json.text format) := by
  induction h with
  | null => rfl
  | bool b => rfl
  | int n => exact congrArg Except.ok (text_ofInt format n).symm
  | float n =>
      show (if rt.isFinite n then _ else _) = Except.map _ (if rt.isFinite n then _ else _)
      split <;> rfl
  | string s => rfl
  | bytes data => rfl
  | timestamp instant =>
      rw [OwnedValue.viewIn, serialize, valueToJson]
      cases timestampNanos instant with
      | none => rfl
      | some nanos => exact congrArg Except.ok (text_ofInt format nanos).symm
  | array _ ih =>
      rw [OwnedValue.viewIn_array, serialize, valueToJson, serializeItems_eq rt base64 format ih]
      cases itemsToJson rt base64 _ <;> rfl
  | @object entries hkeys _ ih =>
      have hentries := serializeEntries_eq rt base64 format ih hkeys []
        fun _ _ => List.not_mem_nil
      rw [OwnedValue.viewIn_object, serialize, valueToJson]
      cases hjson : entriesToJson rt base64 entries [] with
      | error message =>
          rw [hjson] at hentries
          cases hparts : serializeEntries rt base64 format _ with
          | error other =>
              rw [hparts] at hentries
              exact congrArg Except.error (Except.error.inj hentries)
          | ok parts => rw [hparts] at hentries; exact absurd hentries (by simp [Except.map])
      | ok json =>
          rw [hjson] at hentries
          cases hparts : serializeEntries rt base64 format _ with
          | error message => rw [hparts] at hentries; exact absurd hentries (by simp [Except.map])
          | ok parts =>
              rw [hparts] at hentries
              exact congrArg (fun parts => Except.ok (bracket '\x7b' '\x7d' parts))
                (Except.ok.inj hentries)

end Writing

end Limpid.Dsl
