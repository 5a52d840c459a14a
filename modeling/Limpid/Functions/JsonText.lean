import Limpid.Dsl.Negation
import Limpid.Dsl.SameText
import Limpid.Functions.Primitives

/-!
# `parse_json` and `to_json`

`functions/primitives/parse_json.rs` and `to_json.rs`.  What is written is the JSON that was read,
as far as the reader takes it: a key that begins with a single dollar sign is refused, and what is
no object at the root is put under `_json` (`toJson_parseJson`).

The text layer of `serde_json` is a parameter: `read` is `from_str`, and a text that is written is
`Json.text`, which `serde_json` would write for the same JSON.
-/

namespace Limpid.Functions.JsonText

open Dsl (Runtime Value Json JsonNumber JsonFormat Base64 bytesMarkerKey)
open Entries

/-! ## The functions -/

section Functions

variable (rt : Runtime) (base64 : Base64)

/-- What is no object is put under `_json`. -/
def wrap : Value → Value
  | .object entries => .object entries
  | other => .object [("_json", other)]

/-- `parse_json(text[, defaults])`. -/
def parseJson (read : String → Except String Json) (text : Value) (defaults : Option Value) :
    Except String Value := do
  let text ← valToStr rt text
  let json ← (read text).mapError ("parse_json(): JSON parse error: " ++ ·)
  let parsed ← (Dsl.jsonToValueIn rt base64 json).mapError ("parse_json(): " ++ ·)
  applyDefaults "parse_json" defaults (wrap parsed)

mutual

/-- `ensure_no_bytes`. -/
def ensureNoBytes : Value → Except String Unit
  | .bytes _ => .error "to_json() does not accept bytes; convert explicitly via to_string()"
  | .array items => ensureNoBytesItems items
  | .object entries => ensureNoBytesEntries entries
  | _ => .ok ()

def ensureNoBytesItems : List Value → Except String Unit
  | [] => .ok ()
  | item :: rest => do
    ensureNoBytes item
    ensureNoBytesItems rest

def ensureNoBytesEntries : List (String × Value) → Except String Unit
  | [] => .ok ()
  | (_, value) :: rest => do
    ensureNoBytes value
    ensureNoBytesEntries rest

end

/-- `to_json(value)`. -/
def toJson (format : JsonFormat) (value : Value) : Except String Value := do
  ensureNoBytes value
  let s ← (Dsl.serialize rt base64 format value).mapError ("to_json(): " ++ ·)
  return .string (String.ofList s)

end Functions

/-! ## What is inside -/

/-- A part of a JSON value, at any depth. -/
inductive Within (part : Json) : Json → Prop
  | here : Within part part
  | item {items : List Json} {item : Json} (hitem : item ∈ items) (h : Within part item) :
      Within part (.array items)
  | entry {entries : List (String × Json)} {entry : String × Json} (hentry : entry ∈ entries)
      (h : Within part entry.2) : Within part (.object entries)

theorem within_array_iff {part : Json} {items : List Json} :
    Within part (.array items) ↔ part = .array items ∨ ∃ item ∈ items, Within part item := by
  constructor
  · rintro (_ | ⟨hitem, h⟩)
    · exact .inl rfl
    · exact .inr ⟨_, hitem, h⟩
  · rintro (rfl | ⟨item, hitem, h⟩)
    · exact .here
    · exact .item hitem h

theorem within_object_iff {part : Json} {entries : List (String × Json)} :
    Within part (.object entries) ↔
      part = .object entries ∨ ∃ entry ∈ entries, Within part entry.2 := by
  constructor
  · rintro (_ | _ | ⟨hentry, h⟩)
    · exact .inl rfl
    · exact .inr ⟨_, hentry, h⟩
  · rintro (rfl | ⟨entry, hentry, h⟩)
    · exact .here
    · exact .entry hentry h

theorem within_number_iff {part : Json} {n : JsonNumber} :
    Within part (.number n) ↔ part = .number n := by
  constructor
  · rintro ⟨⟩
    rfl
  · rintro rfl
    exact .here

/-- No value is bytes, at any depth. -/
inductive NoBytes : Value → Prop
  | null : NoBytes .null
  | bool (b : Bool) : NoBytes (.bool b)
  | int (n : Int64) : NoBytes (.int n)
  | float (n : Dsl.F64) : NoBytes (.float n)
  | string (s : String) : NoBytes (.string s)
  | timestamp (instant : Dsl.Timestamp) : NoBytes (.timestamp instant)
  | array {items : List Value} (h : ∀ item ∈ items, NoBytes item) : NoBytes (.array items)
  | object {entries : List (String × Value)} (h : ∀ entry ∈ entries, NoBytes entry.2) :
      NoBytes (.object entries)

/-- One dollar sign and no second. -/
def IsReserved (key : String) : Prop :=
  ∃ rest, key.toList = '$' :: rest ∧ rest.head? ≠ some '$'

/-- JSON of integers in the range of `i64` and finite floats, with no marker in it. -/
structure IsPlain (rt : Runtime) (json : Json) : Prop where
  ints : ∀ n, Within (.number (.posInt n)) json → n.toNat ≤ Int64.maxValue.toInt.toNat
  finite : ∀ n, Within (.number (.float n)) json → rt.isFinite n
  noMarker : ∀ payload, ¬ Within (.object [(bytesMarkerKey, payload)]) json

/-- No object in the tree has a reserved key. -/
def HasNoReservedKey (json : Json) : Prop :=
  ∀ entries, Within (.object entries) json → ∀ key ∈ keys entries, ¬ IsReserved key

section Parts

variable {rt : Runtime}

theorem IsPlain.item {items : List Json} (h : IsPlain rt (.array items)) {item : Json}
    (hitem : item ∈ items) : IsPlain rt item :=
  ⟨fun n hn => h.ints n (.item hitem hn), fun n hn => h.finite n (.item hitem hn),
    fun payload hpayload => h.noMarker payload (.item hitem hpayload)⟩

theorem IsPlain.entry {entries : List (String × Json)} (h : IsPlain rt (.object entries))
    {entry : String × Json} (hentry : entry ∈ entries) : IsPlain rt entry.2 :=
  ⟨fun n hn => h.ints n (.entry hentry hn), fun n hn => h.finite n (.entry hentry hn),
    fun payload hpayload => h.noMarker payload (.entry hentry hpayload)⟩

theorem hasNoReservedKey_array_iff {items : List Json} :
    HasNoReservedKey (.array items) ↔ ∀ item ∈ items, HasNoReservedKey item := by
  constructor
  · exact fun h item hitem entries hentries => h entries (.item hitem hentries)
  · rintro h entries hentries
    rcases within_array_iff.mp hentries with heq | ⟨item, hitem, hwithin⟩
    · exact nomatch heq
    · exact h item hitem entries hwithin

theorem hasNoReservedKey_object_iff {entries : List (String × Json)} :
    HasNoReservedKey (.object entries) ↔
      (∀ key ∈ keys entries, ¬ IsReserved key) ∧ ∀ entry ∈ entries, HasNoReservedKey entry.2 := by
  constructor
  · exact fun h => ⟨h entries .here, fun entry hentry others hothers =>
      h others (.entry hentry hothers)⟩
  · rintro ⟨hkeys, h⟩ others hothers
    rcases within_object_iff.mp hothers with heq | ⟨entry, hentry, hwithin⟩
    · obtain rfl := Json.object.inj heq
      exact hkeys
    · exact h entry hentry others hwithin

end Parts

/-! ## Reading -/

section Reading

variable {rt : Runtime} {base64 : Base64}

/-- A key is refused exactly when it is reserved. -/
theorem exists_unescape_iff {key : String} :
    (∃ original, Dsl.unescapeUserKey rt key = .ok original) ↔ ¬ IsReserved key := by
  unfold Dsl.unescapeUserKey
  split
  · rename_i rest hkey
    refine iff_of_true ⟨_, rfl⟩ ?_
    rintro ⟨rest', hkey', hnot⟩
    rw [hkey, List.cons.injEq] at hkey'
    exact hnot (hkey'.2 ▸ rfl)
  · rename_i rest hnot hkey
    refine iff_of_false (fun ⟨_, h⟩ => nomatch h) (not_not.mpr ⟨rest, hkey, fun hhead => ?_⟩)
    obtain ⟨rest', rfl⟩ : ∃ rest', rest = '$' :: rest' := by
      cases rest with
      | nil => exact nomatch hhead
      | cons c rest' => exact ⟨rest', by rw [Option.some.inj hhead]⟩
    exact hnot rest' rfl
  · rename_i hnot
    refine iff_of_true ⟨_, rfl⟩ ?_
    rintro ⟨rest, hkey, -⟩
    exact hnot rest hkey

theorem exists_entries_iff {entries : List (String × Json)} :
    (∃ out, Dsl.jsonToEntriesIn rt base64 entries = .ok out) ↔
      (∀ key ∈ keys entries, ¬ IsReserved key) ∧
        ∀ entry ∈ entries, ∃ value, Dsl.jsonToValueIn rt base64 entry.2 = .ok value := by
  induction entries with
  | nil => exact iff_of_true ⟨[], rfl⟩ ⟨fun _ h => absurd h List.not_mem_nil,
      fun _ h => absurd h List.not_mem_nil⟩
  | cons entry rest ih =>
      obtain ⟨key, json⟩ := entry
      rw [keys_cons, List.forall_mem_cons, List.forall_mem_cons, ← @exists_unescape_iff rt]
      constructor
      · rintro ⟨out, h⟩
        obtain ⟨original, hkey, h⟩ := Dsl.Except.exists_of_bind_eq_ok h
        obtain ⟨value, hvalue, h⟩ := Dsl.Except.exists_of_bind_eq_ok h
        obtain ⟨others, hothers, -⟩ := Dsl.Except.exists_of_bind_eq_ok h
        obtain ⟨hkeys, hvalues⟩ := ih.mp ⟨others, hothers⟩
        exact ⟨⟨⟨original, hkey⟩, hkeys⟩, ⟨value, hvalue⟩, hvalues⟩
      · rintro ⟨⟨⟨original, hkey⟩, hkeys⟩, ⟨value, hvalue⟩, hvalues⟩
        obtain ⟨others, hothers⟩ := ih.mpr ⟨hkeys, hvalues⟩
        exact ⟨(original, value) :: others, by
          rw [Dsl.jsonToEntriesIn, hkey, hvalue, hothers]
          rfl⟩

theorem exists_items_iff {items : List Json} :
    (∃ out, Dsl.jsonToItemsIn rt base64 items = .ok out) ↔
      ∀ item ∈ items, ∃ value, Dsl.jsonToValueIn rt base64 item = .ok value := by
  induction items with
  | nil => exact iff_of_true ⟨[], rfl⟩ fun _ h => absurd h List.not_mem_nil
  | cons item rest ih =>
      rw [List.forall_mem_cons]
      constructor
      · rintro ⟨out, h⟩
        obtain ⟨value, hvalue, h⟩ := Dsl.Except.exists_of_bind_eq_ok h
        obtain ⟨others, hothers, -⟩ := Dsl.Except.exists_of_bind_eq_ok h
        exact ⟨⟨value, hvalue⟩, ih.mp ⟨others, hothers⟩⟩
      · rintro ⟨⟨value, hvalue⟩, hvalues⟩
        obtain ⟨others, hothers⟩ := ih.mpr hvalues
        exact ⟨value :: others, by
          rw [Dsl.jsonToItemsIn, hvalue, hothers]
          rfl⟩

theorem IsPlain.read_object {entries : List (String × Json)} (h : IsPlain rt (.object entries)) :
    Dsl.jsonToValueIn rt base64 (.object entries) =
      (Dsl.jsonToEntriesIn rt base64 entries).map .object :=
  Dsl.jsonToValueIn_object rt base64 fun payload heq => h.noMarker payload (heq ▸ .here)

/-- **Plain JSON is read exactly when no key in it is reserved.** -/
theorem exists_value_iff {json : Json} (h : IsPlain rt json) :
    (∃ value, Dsl.jsonToValueIn rt base64 json = .ok value) ↔ HasNoReservedKey json := by
  induction json using Json.induction with
  | array items ih =>
      rw [hasNoReservedKey_array_iff,
        ← forall₂_congr fun item hitem => ih item hitem (h.item hitem), ← exists_items_iff,
        Dsl.jsonToValueIn]
      cases Dsl.jsonToItemsIn rt base64 items with
      | error message => exact iff_of_false (by rintro ⟨_, ⟨⟩⟩) (by rintro ⟨_, ⟨⟩⟩)
      | ok out => exact iff_of_true ⟨_, rfl⟩ ⟨_, rfl⟩
  | object entries ih =>
      rw [hasNoReservedKey_object_iff,
        ← forall₂_congr fun entry hentry => ih entry hentry (h.entry hentry),
        ← exists_entries_iff, h.read_object]
      cases Dsl.jsonToEntriesIn rt base64 entries with
      | error message => exact iff_of_false (by rintro ⟨_, ⟨⟩⟩) (by rintro ⟨_, ⟨⟩⟩)
      | ok out => exact iff_of_true ⟨_, rfl⟩ ⟨_, rfl⟩
  | _ => exact iff_of_true ⟨_, rfl⟩ fun entries hentries => by cases hentries

end Reading

/-! ## Writing what was read -/

section Writing

variable {rt : Runtime} {base64 : Base64} {format : JsonFormat}

theorem intText_toInt64 {n : UInt64} (h : n.toNat ≤ Int64.maxValue.toInt.toNat) :
    Dsl.intText n.toInt64 = (toString n.toNat).toList := by
  have hmax : Int64.maxValue.toInt.toNat = 2 ^ 63 - 1 := rfl
  have hint : n.toInt64.toInt = n.toNat := by
    have hbits : n.toInt64.toInt = n.toBitVec.toInt := rfl
    rw [hbits, BitVec.toInt_eq_toNat_of_lt (by rw [UInt64.toNat_toBitVec]; omega),
      UInt64.toNat_toBitVec]
  rw [Dsl.intText, hint]
  rfl

/-- A value read from plain JSON holds no bytes, and its text is the text of the JSON. -/
def ReadsBack (rt : Runtime) (base64 : Base64) (format : JsonFormat) (json : Json)
    (value : Value) : Prop :=
  NoBytes value ∧ Dsl.serialize rt base64 format value = .ok (json.text format)

theorem readsBack_number {n : JsonNumber} (h : IsPlain rt (.number n)) :
    ReadsBack rt base64 format (.number n) (Dsl.numberToValueIn rt n) := by
  cases n with
  | posInt n =>
      have hle := h.ints n .here
      have hint : (JsonNumber.posInt n).asInt = some n.toInt64 := if_pos hle
      have hvalue : Dsl.numberToValueIn rt (.posInt n) = .int n.toInt64 := by
        unfold Dsl.numberToValueIn
        rw [hint]
      rw [hvalue]
      exact ⟨.int _, congrArg Except.ok (intText_toInt64 hle)⟩
  | negInt n => exact ⟨.int n, rfl⟩
  | float n => exact ⟨.float n, if_pos (h.finite n .here)⟩

theorem readsBack_items {items : List Json} (h : ∀ item ∈ items, ∀ value,
      Dsl.jsonToValueIn rt base64 item = .ok value → ReadsBack rt base64 format item value)
    {out : List Value} (hread : Dsl.jsonToItemsIn rt base64 items = .ok out) :
    (∀ value ∈ out, NoBytes value) ∧
      Dsl.serializeItems rt base64 format out = .ok (Json.itemTexts format items) := by
  induction items generalizing out with
  | nil =>
      obtain rfl := Except.ok.inj hread
      exact ⟨fun _ h => absurd h List.not_mem_nil, rfl⟩
  | cons item rest ih =>
      rw [List.forall_mem_cons] at h
      obtain ⟨value, hvalue, hread⟩ := Dsl.Except.exists_of_bind_eq_ok hread
      obtain ⟨others, hothers, hread⟩ := Dsl.Except.exists_of_bind_eq_ok hread
      obtain rfl := Except.ok.inj hread
      obtain ⟨hbytes, htext⟩ := h.1 value hvalue
      obtain ⟨hrestBytes, hrestText⟩ := ih h.2 hothers
      refine ⟨List.forall_mem_cons.mpr ⟨hbytes, hrestBytes⟩, ?_⟩
      rw [Dsl.serializeItems, htext, hrestText]
      rfl

theorem readsBack_entries {entries : List (String × Json)} (h : ∀ entry ∈ entries, ∀ value,
      Dsl.jsonToValueIn rt base64 entry.2 = .ok value → ReadsBack rt base64 format entry.2 value)
    {out : List (String × Value)} (hread : Dsl.jsonToEntriesIn rt base64 entries = .ok out) :
    (∀ entry ∈ out, NoBytes entry.2) ∧
      Dsl.serializeEntries rt base64 format out = .ok (Json.entryTexts format entries) := by
  induction entries generalizing out with
  | nil =>
      obtain rfl := Except.ok.inj hread
      exact ⟨fun _ h => absurd h List.not_mem_nil, rfl⟩
  | cons entry rest ih =>
      obtain ⟨key, json⟩ := entry
      rw [List.forall_mem_cons] at h
      obtain ⟨original, hkey, hread⟩ := Dsl.Except.exists_of_bind_eq_ok hread
      obtain ⟨value, hvalue, hread⟩ := Dsl.Except.exists_of_bind_eq_ok hread
      obtain ⟨others, hothers, hread⟩ := Dsl.Except.exists_of_bind_eq_ok hread
      obtain rfl := Except.ok.inj hread
      obtain ⟨hbytes, htext⟩ := h.1 value hvalue
      obtain ⟨hrestBytes, hrestText⟩ := ih h.2 hothers
      refine ⟨List.forall_mem_cons.mpr ⟨hbytes, hrestBytes⟩, ?_⟩
      -- The dollar sign that reading took off is written again.
      rw [Dsl.serializeEntries, htext, hrestText, Dsl.escape_unescape hkey]
      rfl

theorem readsBack {json : Json} (h : IsPlain rt json) {value : Value}
    (hread : Dsl.jsonToValueIn rt base64 json = .ok value) :
    ReadsBack rt base64 format json value := by
  induction json using Json.induction generalizing value with
  | null =>
      obtain rfl := Except.ok.inj hread
      exact ⟨.null, rfl⟩
  | bool b =>
      obtain rfl := Except.ok.inj hread
      exact ⟨.bool b, rfl⟩
  | number n =>
      obtain rfl := Except.ok.inj hread
      exact readsBack_number h
  | string s =>
      obtain rfl := Except.ok.inj hread
      exact ⟨.string s, rfl⟩
  | array items ih =>
      rw [Dsl.jsonToValueIn] at hread
      obtain ⟨out, hout, hread⟩ := Dsl.Except.exists_of_bind_eq_ok hread
      obtain rfl := Except.ok.inj hread
      obtain ⟨hbytes, htext⟩ :=
        readsBack_items (fun item hitem value => ih item hitem (h.item hitem)) hout
      refine ⟨.array hbytes, ?_⟩
      rw [Dsl.serialize, htext]
      rfl
  | object entries ih =>
      rw [h.read_object] at hread
      cases hout : Dsl.jsonToEntriesIn rt base64 entries with
      | error message => rw [hout] at hread; cases hread
      | ok out =>
          rw [hout] at hread
          obtain rfl := Except.ok.inj hread
          obtain ⟨hbytes, htext⟩ :=
            readsBack_entries (fun entry hentry value => ih entry hentry (h.entry hentry)) hout
          refine ⟨.object hbytes, ?_⟩
          rw [Dsl.serialize, htext]
          rfl

end Writing

/-! ## A text, parsed and written -/

section RoundTrip

variable {rt : Runtime} {base64 : Base64} {format : JsonFormat}

theorem ensureNoBytesItems_eq_ok {items : List Value}
    (h : ∀ item ∈ items, ensureNoBytes item = .ok ()) : ensureNoBytesItems items = .ok () := by
  induction items with
  | nil => rfl
  | cons item rest ih =>
      rw [List.forall_mem_cons] at h
      rw [ensureNoBytesItems, h.1, ih h.2]
      rfl

theorem ensureNoBytesEntries_eq_ok {entries : List (String × Value)}
    (h : ∀ entry ∈ entries, ensureNoBytes entry.2 = .ok ()) :
    ensureNoBytesEntries entries = .ok () := by
  induction entries with
  | nil => rfl
  | cons entry rest ih =>
      rw [List.forall_mem_cons] at h
      rw [ensureNoBytesEntries, h.1, ih h.2]
      rfl

theorem NoBytes.ensureNoBytes_eq_ok {value : Value} (h : NoBytes value) :
    ensureNoBytes value = .ok () := by
  induction h with
  | array _ ih =>
      rw [ensureNoBytes]
      exact ensureNoBytesItems_eq_ok ih
  | object _ ih =>
      rw [ensureNoBytes]
      exact ensureNoBytesEntries_eq_ok ih
  | _ => rfl

/-- The JSON with an object at the root. -/
def rooted : Json → Json
  | .object entries => .object entries
  | other => .object [("_json", other)]

theorem numberToValueIn_ne_object (n : JsonNumber) (entries : List (String × Value)) :
    Dsl.numberToValueIn rt n ≠ .object entries := by
  unfold Dsl.numberToValueIn
  split <;> exact nofun

theorem wrap_readsBack {json : Json} (h : IsPlain rt json) {value : Value}
    (hread : Dsl.jsonToValueIn rt base64 json = .ok value) :
    ReadsBack rt base64 format (rooted json) (wrap value) := by
  have hback : ReadsBack rt base64 format json value := readsBack h hread
  have hunder : (∀ entries, value ≠ .object entries) → (∀ entries, json ≠ .object entries) →
      ReadsBack rt base64 format (rooted json) (wrap value) := by
    intro hvalue hjson
    have hwrap : wrap value = .object [("_json", value)] := by
      cases value with
      | object entries => exact absurd rfl (hvalue entries)
      | _ => rfl
    have hrooted : rooted json = .object [("_json", json)] := by
      cases json with
      | object entries => exact absurd rfl (hjson entries)
      | _ => rfl
    rw [hwrap, hrooted]
    refine ⟨.object (List.forall_mem_singleton.mpr hback.1), ?_⟩
    rw [Dsl.serialize, Dsl.serializeEntries, hback.2]
    rfl
  cases json with
  | object entries =>
      rw [h.read_object] at hread
      cases hout : Dsl.jsonToEntriesIn rt base64 entries with
      | error message => rw [hout] at hread; cases hread
      | ok out =>
          rw [hout] at hread
          obtain rfl := Except.ok.inj hread
          exact hback
  | array items =>
      obtain ⟨out, -, hread⟩ := Dsl.Except.exists_of_bind_eq_ok hread
      obtain rfl := Except.ok.inj hread
      exact hunder (fun _ h => by cases h) fun _ h => by cases h
  | number n =>
      obtain rfl := Except.ok.inj hread
      exact hunder (numberToValueIn_ne_object n) fun _ h => by cases h
  | _ =>
      obtain rfl := Except.ok.inj hread
      exact hunder (fun _ h => by cases h) fun _ h => by cases h

theorem parseJson_eq {read : String → Except String Json} {text : String} {json : Json}
    (hread : read text = .ok json) :
    parseJson rt base64 read (.string text) none =
      ((Dsl.jsonToValueIn rt base64 json).map wrap).mapError ("parse_json(): " ++ ·) := by
  rw [parseJson, valToStr_string]
  show ((read text).mapError _ >>= _) = _
  rw [hread]
  show ((Dsl.jsonToValueIn rt base64 json).mapError _ >>= _) = _
  cases Dsl.jsonToValueIn rt base64 json with
  | error message => rfl
  | ok value => cases value <;> rfl

/-- **Plain JSON is parsed exactly when no key in it is reserved, into a value without bytes that
is written as the JSON it was, under `_json` where it was no object.** -/
theorem toJson_parseJson {read : String → Except String Json} {text : String} {json : Json}
    (hread : read text = .ok json) (hplain : IsPlain rt json) :
    ((∃ value, parseJson rt base64 read (.string text) none = .ok value) ↔
      HasNoReservedKey json) ∧
    ∀ value, parseJson rt base64 read (.string text) none = .ok value →
      NoBytes value ∧
        toJson rt base64 format value =
          .ok (.string (String.ofList ((rooted json).text format))) := by
  rw [parseJson_eq hread, ← exists_value_iff hplain]
  cases hvalue : Dsl.jsonToValueIn rt base64 json with
  | error message =>
      exact ⟨iff_of_false (fun ⟨_, h⟩ => nomatch h) (fun ⟨_, h⟩ => nomatch h),
        fun _ h => nomatch h⟩
  | ok value =>
      refine ⟨iff_of_true ⟨_, rfl⟩ ⟨_, rfl⟩, ?_⟩
      intro _ h
      obtain rfl := Except.ok.inj h
      obtain ⟨hbytes, htext⟩ : ReadsBack rt base64 format (rooted json) (wrap value) :=
        wrap_readsBack hplain hvalue
      refine ⟨hbytes, ?_⟩
      rw [toJson, hbytes.ensureNoBytes_eq_ok, htext]
      rfl

end RoundTrip

/-- What `from_str` gives for three texts. -/
def readTexts : String → Except String Json
  | "\x7b\"$$a\":[1]\x7d" => .ok (.object [("$$a", .array [.number (.posInt 1)])])
  | "\x7b\"$a\":1\x7d" => .ok (.object [("$a", .number (.posInt 1))])
  | "[1]" => .ok (.array [.number (.posInt 1)])
  | _ => .error "expected value at line 1 column 1"

theorem toJson_parseJson_escaped : ∃ value,
    parseJson Dsl.binary64 Dsl.charwise readTexts (.string "\x7b\"$$a\":[1]\x7d") none = .ok value ∧
      NoBytes value ∧
        toJson Dsl.binary64 Dsl.charwise Dsl.quoted value = .ok (.string "\x7b\"$$a\":[1]\x7d") := by
  have hparts : ∀ part, Within part (.object [("$$a", .array [.number (.posInt 1)])]) →
      part = .object [("$$a", .array [.number (.posInt 1)])] ∨
        part = .array [.number (.posInt 1)] ∨ part = .number (.posInt 1) := by
    intro part hpart
    simpa only [within_object_iff, within_array_iff, within_number_iff, List.mem_singleton,
      exists_eq_left] using hpart
  have hplain : IsPlain Dsl.binary64 (.object [("$$a", .array [.number (.posInt 1)])]) := by
    refine ⟨fun n hn => ?_, fun n hn => ?_, fun payload hpayload => ?_⟩
    · rcases hparts _ hn with h | h | h
      · exact nomatch h
      · exact nomatch h
      · obtain rfl := JsonNumber.posInt.inj (Json.number.inj h)
        decide
    · rcases hparts _ hn with h | h | h <;> exact nomatch h
    · rcases hparts _ hpayload with h | h | h
      · have hkey : bytesMarkerKey = "$$a" :=
          congrArg Prod.fst (List.cons.inj (Json.object.inj h)).1
        exact absurd hkey (by decide)
      · exact nomatch h
      · exact nomatch h
  have hkeys : HasNoReservedKey (.object [("$$a", .array [.number (.posInt 1)])]) := by
    rw [hasNoReservedKey_object_iff]
    refine ⟨List.forall_mem_singleton.mpr ?_, List.forall_mem_singleton.mpr ?_⟩
    · rintro ⟨rest, hrest, hhead⟩
      obtain rfl := (List.cons.inj hrest).2
      exact hhead rfl
    · rw [hasNoReservedKey_array_iff]
      refine List.forall_mem_singleton.mpr fun entries hentries => ?_
      exact nomatch within_number_iff.mp hentries
  obtain ⟨hiff, hback⟩ := @toJson_parseJson Dsl.binary64 Dsl.charwise Dsl.quoted readTexts
    "\x7b\"$$a\":[1]\x7d" _ rfl hplain
  obtain ⟨value, hvalue⟩ := hiff.mpr hkeys
  exact ⟨value, hvalue, hback value hvalue⟩

/-- A key with one dollar sign is refused, and an array comes back under a key. -/
theorem parseJson_not_inverse :
    readTexts "\x7b\"$a\":1\x7d" = .ok (.object [("$a", .number (.posInt 1))]) ∧
    readTexts "[1]" = .ok (.array [.number (.posInt 1)]) ∧
    ∀ rt,
      (∀ value, parseJson rt Dsl.charwise readTexts (.string "\x7b\"$a\":1\x7d") none ≠
        .ok value) ∧
      parseJson rt Dsl.charwise readTexts (.string "[1]") none =
        .ok (.object [("_json", .array [.int 1])]) ∧
      toJson rt Dsl.charwise Dsl.quoted (.object [("_json", .array [.int 1])]) =
        .ok (.string "\x7b\"_json\":[1]\x7d") :=
  ⟨rfl, rfl, fun _ => ⟨nofun, rfl, rfl⟩⟩

end Limpid.Functions.JsonText
