import Limpid.Entries
import Limpid.Dsl.ValueJson

/-!
# Values come back from JSON

What `valueToJson` writes, `jsonToValue` reads as it was, for every value without a timestamp
(a timestamp comes back as an integer).  Two things could go wrong, and do not:

* an object of the user's with the one key `$bytes_b64` is not taken for bytes, because no escaped
  key begins with a single dollar sign (`escapeUserKey_ne_marker`);
* two keys do not become one, because escaping is undone exactly (`unescape_escape`).
-/

namespace Limpid.Dsl

open Entries

theorem Map.insert_eq (key : String) (value : OwnedValue) (map : Map) :
    map.insert key value = Entries.insert key value map := by
  induction map with
  | nil => rfl
  | cons entry rest ih =>
      show (if entry.1 = key then _ else _) = (if entry.1 = key then _ else _)
      rw [ih]

theorem Json.insert_eq (key : String) (value : Json) (map : List (String × Json)) :
    Json.insert key value map = Entries.insert key value map := by
  induction map with
  | nil => rfl
  | cons entry rest ih =>
      show (if entry.1 = key then _ else _) = (if entry.1 = key then _ else _)
      rw [ih]

/-! ## Keys -/

theorem escapeUserKey_toList (key : String) :
    (escapeUserKey key).toList =
      if key.toList.head? = some '$' then '$' :: key.toList else key.toList := by
  unfold escapeUserKey
  split
  · next rest h => simp [h]
  · next h =>
    have hhead : key.toList.head? ≠ some '$' := fun hhead => by
      obtain ⟨rest, hrest⟩ := List.head?_eq_some_iff.mp hhead
      exact h rest hrest
    rw [if_neg hhead]

variable (rt : Runtime)

theorem unescape_escape (key : String) : unescapeUserKey rt (escapeUserKey key) = .ok key := by
  have hlist := escapeUserKey_toList key
  unfold unescapeUserKey
  split at hlist
  · next hhead =>
    obtain ⟨rest, hrest⟩ := List.head?_eq_some_iff.mp hhead
    rw [hlist, hrest]
    show Except.ok (String.ofList ('$' :: rest)) = .ok key
    rw [← hrest, String.ofList_toList]
  · next hhead =>
    split
    · next rest h => exact absurd (by rw [← hlist, h]; rfl) hhead
    · next rest _ h => exact absurd (by rw [← hlist, h]; rfl) hhead
    · rw [← String.ofList_toList (s := escapeUserKey key), hlist, String.ofList_toList]

variable {rt} in
/-- A key that can be read is the escaped form of what is read. -/
theorem escape_unescape {key original : String} (h : unescapeUserKey rt key = .ok original) :
    escapeUserKey original = key := by
  rw [← String.toList_inj, escapeUserKey_toList]
  unfold unescapeUserKey at h
  split at h
  · next rest hkey =>
    obtain rfl := Except.ok.inj h
    rw [hkey, String.toList_ofList]
    rfl
  · exact absurd h (by simp)
  · next hsingle =>
    obtain rfl := Except.ok.inj h
    have hhead : key.toList.head? ≠ some '$' := fun hhead => by
      obtain ⟨rest, hrest⟩ := List.head?_eq_some_iff.mp hhead
      exact hsingle rest hrest
    rw [if_neg hhead]

include rt in
theorem escapeUserKey_injective {first second : String}
    (h : escapeUserKey first = escapeUserKey second) : first = second := by
  have hfirst := unescape_escape rt first
  rw [h, unescape_escape] at hfirst
  exact (Except.ok.inj hfirst).symm

theorem escapeUserKey_ne_marker (key : String) : escapeUserKey key ≠ bytesMarkerKey := by
  intro h
  have hlist := escapeUserKey_toList key
  rw [h] at hlist
  split at hlist
  · next hhead =>
    obtain ⟨rest, hrest⟩ := List.head?_eq_some_iff.mp hhead
    rw [hrest] at hlist
    exact absurd hlist (by simp [bytesMarkerKey])
  · next hhead => exact hhead (hlist ▸ rfl)

/-! ## Objects -/

section Boundary

variable (base64 : Base64)

/-- Only the marker object is not read entry by entry. -/
theorem jsonToValue_object {entries : List (String × Json)}
    (h : ∀ payload, entries ≠ [(bytesMarkerKey, payload)]) :
    jsonToValue rt base64 (.object entries) =
      (jsonToEntries rt base64 entries []).map .object := by
  match entries, h with
  | [], _ => rfl
  | [(key, payload)], h =>
      have hkey : key ≠ bytesMarkerKey := fun hkey => h payload (by rw [hkey])
      unfold jsonToValue
      rw [if_neg hkey, jsonToEntries]
      cases unescapeUserKey rt key with
      | error message => rfl
      | ok key => cases jsonToValue rt base64 payload <;> rfl
  | first :: second :: rest, _ => rfl

end Boundary

/-! ## The round trip -/

namespace OwnedValue

mutual

/-- What JSON holds as it is: no timestamp, no float without a number, and the keys of an object
distinct, as an `IndexMap` has them. -/
def Plain : OwnedValue → Prop
  | .float n => rt.isFinite n
  | .timestamp _ => False
  | .array items => PlainItems items
  | .object entries => (keys entries).Nodup ∧ PlainEntries entries
  | _ => True

def PlainItems : List OwnedValue → Prop
  | [] => True
  | item :: rest => item.Plain ∧ PlainItems rest

def PlainEntries : List (String × OwnedValue) → Prop
  | [] => True
  | (_, value) :: rest => value.Plain ∧ PlainEntries rest

end

end OwnedValue

/-- `decode` reads what `encode` writes. -/
def Base64.ReadsBack (base64 : Base64) : Prop :=
  ∀ data, base64.decode (base64.encode data) = .ok data

theorem numberToValue_ofInt (n : Int64) : numberToValue rt (.ofInt n) = .int n := by
  unfold numberToValue
  rw [JsonNumber.asInt_ofInt]

section RoundTrip

variable {base64 : Base64}

mutual

theorem roundTrip_value (hbase64 : base64.ReadsBack) : ∀ value : OwnedValue, value.Plain rt →
    ∃ json, valueToJson rt base64 value = .ok json ∧ jsonToValue rt base64 json = .ok value
  | .null, _ => ⟨_, rfl, rfl⟩
  | .bool _, _ => ⟨_, rfl, rfl⟩
  | .int n, _ => ⟨_, rfl, congrArg Except.ok (numberToValue_ofInt rt n)⟩
  | .float n, h => ⟨_, if_pos h, rfl⟩
  | .string _, _ => ⟨_, rfl, rfl⟩
  | .bytes data, _ => by
      refine ⟨_, rfl, ?_⟩
      rw [jsonToValue, if_pos rfl, hbase64]
  | .timestamp _, h => h.elim
  | .array items, h => by
      obtain ⟨jsons, hwrite, hread⟩ := roundTrip_items hbase64 items h
      refine ⟨.array jsons, ?_, ?_⟩
      · rw [valueToJson, hwrite]
        rfl
      · rw [jsonToValue, hread]
        rfl
  | .object entries, h => by
      obtain ⟨jsons, hkeys, hwrite, hread⟩ := roundTrip_entries hbase64 entries h.2
      have hnodup : (keys jsons).Nodup := by
        rw [hkeys]
        exact h.1.map fun _ _ heq => escapeUserKey_injective rt heq
      have hjsons : insertAll [] jsons = jsons := collect_of_nodup hnodup
      have hentries : insertAll [] entries = entries := collect_of_nodup h.1
      have hmarker : ∀ payload, jsons ≠ [(bytesMarkerKey, payload)] := fun payload heq => by
        have hmem : bytesMarkerKey ∈ (keys entries).map escapeUserKey := by
          rw [← hkeys, heq]
          exact List.mem_cons_self
        obtain ⟨key, -, hkey⟩ := List.mem_map.mp hmem
        exact escapeUserKey_ne_marker key hkey
      refine ⟨.object jsons, ?_, ?_⟩
      · rw [valueToJson, hwrite, hjsons]
        rfl
      · rw [jsonToValue_object rt base64 hmarker, hread, hentries]
        rfl

theorem roundTrip_items (hbase64 : base64.ReadsBack) :
    ∀ items : List OwnedValue, OwnedValue.PlainItems rt items →
    ∃ jsons, itemsToJson rt base64 items = .ok jsons ∧ jsonToItems rt base64 jsons = .ok items
  | [], _ => ⟨[], rfl, rfl⟩
  | item :: rest, h => by
      obtain ⟨json, hwrite, hread⟩ := roundTrip_value hbase64 item h.1
      obtain ⟨jsons, hwrites, hreads⟩ := roundTrip_items hbase64 rest h.2
      refine ⟨json :: jsons, ?_, ?_⟩
      · rw [itemsToJson, hwrite, hwrites]
        rfl
      · rw [jsonToItems, hread, hreads]
        rfl

/-- What is written and read comes after what is there already. -/
theorem roundTrip_entries (hbase64 : base64.ReadsBack) : ∀ entries : List (String × OwnedValue),
    OwnedValue.PlainEntries rt entries →
    ∃ jsons, keys jsons = (keys entries).map escapeUserKey ∧
      (∀ out, entriesToJson rt base64 entries out = .ok (insertAll out jsons)) ∧
      ∀ out : Map, jsonToEntries rt base64 jsons out = .ok (insertAll out entries)
  | [], _ => ⟨[], rfl, fun _ => rfl, fun _ => rfl⟩
  | (key, value) :: rest, h => by
      obtain ⟨json, hwrite, hread⟩ := roundTrip_value hbase64 value h.1
      obtain ⟨jsons, hkeys, hwrites, hreads⟩ := roundTrip_entries hbase64 rest h.2
      refine ⟨(escapeUserKey key, json) :: jsons, ?_, fun out => ?_, fun out => ?_⟩
      · rw [keys_cons, hkeys, keys_cons, List.map_cons]
      · rw [entriesToJson, hwrite, insertAll_cons, ← Json.insert_eq]
        exact hwrites _
      · rw [jsonToEntries, unescape_escape, hread, insertAll_cons, ← Map.insert_eq]
        exact hreads _

end

/-- **Values come back from JSON**, and values that differ have different JSON. -/
theorem json_round_trip (hbase64 : base64.ReadsBack) {value : OwnedValue} (h : value.Plain rt) :
    (∃ json, valueToJson rt base64 value = .ok json ∧ jsonToValue rt base64 json = .ok value) ∧
      ∀ other : OwnedValue, other.Plain rt →
        valueToJson rt base64 other = valueToJson rt base64 value → other = value := by
  obtain ⟨json, hwrite, hread⟩ := roundTrip_value rt hbase64 value h
  refine ⟨⟨json, hwrite, hread⟩, fun other hother heq => ?_⟩
  obtain ⟨json', hwrite', hread'⟩ := roundTrip_value rt hbase64 other hother
  have hjson : json' = json := by
    rw [hwrite, hwrite'] at heq
    exact Except.ok.inj heq
  rw [hjson, hread] at hread'
  exact (Except.ok.inj hread').symm

end RoundTrip

/-- A text form of bytes with one character for each. -/
def charwise : Base64 where
  encode data := String.ofList (data.map fun b => Char.ofNat b.toNat)
  decode text := .ok (text.toList.map fun c => UInt8.ofNat c.toNat)

theorem charwise_readsBack : charwise.ReadsBack := by
  intro data
  have hbyte : ∀ b ∈ data, UInt8.ofNat (Char.ofNat b.toNat).toNat = b := fun b _ => by
    have hvalid : b.toNat.isValidChar := Or.inl (Nat.lt_trans b.toNat_lt (by decide))
    rw [Char.ofNat, dif_pos hvalid]
    show UInt8.ofNat b.toNat = b
    exact UInt8.ofNat_toNat
  show Except.ok ((String.ofList (data.map fun b => Char.ofNat b.toNat)).toList.map
    fun c => UInt8.ofNat c.toNat) = .ok data
  rw [String.toList_ofList, List.map_map]
  exact congrArg Except.ok ((List.map_congr_left hbyte).trans (List.map_id data))

/-- An object of the user's that looks like bytes. -/
def looksLikeBytes : OwnedValue := .object [("$bytes_b64", .string "QQ==")]

theorem json_round_trip_marker :
    charwise.ReadsBack ∧ ∀ rt, looksLikeBytes.Plain rt ∧
      ∃ json, valueToJson rt charwise looksLikeBytes = .ok json ∧
        jsonToValue rt charwise json = .ok looksLikeBytes := by
  refine ⟨charwise_readsBack, fun rt => ?_⟩
  have hplain : looksLikeBytes.Plain rt := ⟨by decide, trivial, trivial⟩
  exact ⟨hplain, (json_round_trip rt charwise_readsBack hplain).1⟩

end Limpid.Dsl
