import Limpid.Dsl.Serialize

/-!
# When the two ways of writing agree

The direct text of a value and the text of what it is converted to (`SameText`).  On a value whose
objects have distinct keys they are the same, as nothing is lost (`Value.settle_of_unique`).  In
any other value something is lost, which the direct path wrote: its text is longer.

| `value` | direct path | converted first |
|---|---|---|
| `Blocked` | fails | fails |
| not `Blocked`, `Unique` | a text | the same text |
| neither | fails, or a longer text | a text |

A value is blocked if something JSON does not hold, a float that is no number or a timestamp
outside the range, is in it and stays in it.
-/

namespace Limpid.Dsl

open Entries

/-! ## Weights -/

section Weights

variable {α : Type*} {items part : List α} {f g : α → ℕ}

theorem sum_map_le (h : ∀ a ∈ items, f a ≤ g a) : (items.map f).sum ≤ (items.map g).sum := by
  induction items with
  | nil => exact Nat.le_refl _
  | cons a rest ih =>
      rw [List.forall_mem_cons] at h
      exact Nat.add_le_add h.1 (ih h.2)

/-- Weights that come to the same are the same one by one, if one is never more. -/
theorem eq_of_sum_map_eq (h : ∀ a ∈ items, f a ≤ g a)
    (heq : (items.map f).sum = (items.map g).sum) : ∀ a ∈ items, f a = g a := by
  induction items with
  | nil => exact fun _ ha => absurd ha List.not_mem_nil
  | cons a rest ih =>
      rw [List.forall_mem_cons] at h ⊢
      rw [List.map_cons, List.map_cons, List.sum_cons, List.sum_cons] at heq
      have hrest := sum_map_le h.2
      exact ⟨by omega, ih h.2 (by omega)⟩

theorem sum_map_le_of_sublist (h : part.Sublist items) :
    (part.map f).sum ≤ (items.map f).sum := by
  induction h with
  | slnil => exact Nat.le_refl _
  | cons a _ ih => exact Nat.le_trans ih (Nat.le_add_left _ _)
  | cons_cons a _ ih => exact Nat.add_le_add_left ih _

/-- A part that weighs as much as the whole leaves nothing out. -/
theorem length_eq_of_sum_map_eq (hpos : ∀ a, 0 < f a) (h : part.Sublist items)
    (heq : (part.map f).sum = (items.map f).sum) : part.length = items.length := by
  induction h with
  | slnil => rfl
  | cons a hpart _ =>
      have hle := sum_map_le_of_sublist (f := f) hpart
      have ha := hpos a
      rw [List.map_cons, List.sum_cons] at heq
      omega
  | cons_cons a _ ih =>
      rw [List.map_cons, List.map_cons, List.sum_cons, List.sum_cons] at heq
      exact congrArg (· + 1) (ih (by omega))

end Weights

/-! ## The length of the direct text -/

section Length

variable (rt : Runtime) (base64 : Base64) (format : JsonFormat)

/-- The length of an array or object whose parts, each with a delimiter, have a length. -/
def bracketLength (parts : ℕ) : ℕ := max 1 parts + 1

theorem length_bracket (start stop : Char) (parts : List (List Char)) :
    (bracket start stop parts).length =
      bracketLength (parts.map fun part => part.length + 1).sum := by
  have hintercalate : (List.intercalate [','] parts).length + 1 =
      max 1 (parts.map fun part => part.length + 1).sum := by
    induction parts with
    | nil => rfl
    | cons part rest ih =>
        cases rest with
        | nil => simp
        | cons next rest =>
            rw [List.intercalate_cons_cons, List.map_cons, List.sum_cons]
            simp only [List.length_append, List.length_singleton] at ih ⊢
            have hpos : 0 < ((next :: rest).map fun part => part.length + 1).sum := by
              rw [List.map_cons, List.sum_cons]
              omega
            omega
  unfold bracket bracketLength
  rw [List.length_cons, List.length_append, List.length_singleton, hintercalate]

mutual

/-- The length of what `serialize` writes. -/
def Value.textLength : Value → ℕ
  | .null => 4
  | .bool b => (if b then "true" else "false").toList.length
  | .int n => (intText n).length
  | .float n => (format.float n).length
  | .string s => (format.string s).length
  | .bytes data =>
      bracketLength ((format.string bytesMarkerKey).length +
        (format.string (base64.encode data)).length + 2)
  | .timestamp instant => (intText ((timestampNanos instant).getD 0)).length
  | .array items => bracketLength (Value.itemsLength items)
  | .object entries => bracketLength (Value.entriesLength entries)

def Value.itemsLength : List Value → ℕ
  | [] => 0
  | item :: rest => (item.textLength + 1) + Value.itemsLength rest

def Value.entriesLength : List (String × Value) → ℕ
  | [] => 0
  | (key, value) :: rest =>
      ((format.string (escapeUserKey key)).length + value.textLength + 2) +
        Value.entriesLength rest

end

/-- What an entry comes to. -/
def entryLength (entry : String × Value) : ℕ :=
  (format.string (escapeUserKey entry.1)).length + entry.2.textLength base64 format + 2

theorem itemsLength_eq (items : List Value) :
    Value.itemsLength base64 format items =
      (items.map fun item => item.textLength base64 format + 1).sum := by
  induction items with
  | nil => rfl
  | cons item rest ih => rw [Value.itemsLength, ih, List.map_cons, List.sum_cons]

theorem entriesLength_eq (entries : List (String × Value)) :
    Value.entriesLength base64 format entries =
      (entries.map (entryLength base64 format)).sum := by
  induction entries with
  | nil => rfl
  | cons entry rest ih =>
      obtain ⟨key, value⟩ := entry
      rw [Value.entriesLength, ih, List.map_cons, List.sum_cons]
      rfl

variable {base64 format} in
theorem length_serializeItems {items : List Value} (h : ∀ item ∈ items, ∀ text,
    serialize rt base64 format item = .ok text → text.length = item.textLength base64 format)
    {parts : List (List Char)} (hparts : serializeItems rt base64 format items = .ok parts) :
    (parts.map fun part => part.length + 1).sum = Value.itemsLength base64 format items := by
  induction items generalizing parts with
  | nil =>
      obtain rfl := Except.ok.inj hparts
      rfl
  | cons item rest ih =>
      rw [List.forall_mem_cons] at h
      obtain ⟨part, hpart, hparts⟩ := Except.exists_of_bind_eq_ok hparts
      obtain ⟨others, hothers, hparts⟩ := Except.exists_of_bind_eq_ok hparts
      obtain rfl := Except.ok.inj hparts
      rw [List.map_cons, List.sum_cons, h.1 part hpart, ih h.2 hothers, Value.itemsLength]

variable {base64 format} in
theorem length_serializeEntries {entries : List (String × Value)} (h : ∀ entry ∈ entries, ∀ text,
    serialize rt base64 format entry.2 = .ok text →
      text.length = entry.2.textLength base64 format)
    {parts : List (List Char)} (hparts : serializeEntries rt base64 format entries = .ok parts) :
    (parts.map fun part => part.length + 1).sum = Value.entriesLength base64 format entries := by
  induction entries generalizing parts with
  | nil =>
      obtain rfl := Except.ok.inj hparts
      rfl
  | cons entry rest ih =>
      obtain ⟨key, value⟩ := entry
      rw [List.forall_mem_cons] at h
      obtain ⟨part, hpart, hparts⟩ := Except.exists_of_bind_eq_ok hparts
      obtain ⟨others, hothers, hparts⟩ := Except.exists_of_bind_eq_ok hparts
      obtain rfl := Except.ok.inj hparts
      have hentry : (entryText format (escapeUserKey key) part).length + 1 =
          (format.string (escapeUserKey key)).length + value.textLength base64 format + 2 := by
        have hlength : part.length = value.textLength base64 format := h.1 part hpart
        rw [entryText, List.length_append, List.length_cons, hlength]
        omega
      rw [List.map_cons, List.sum_cons, hentry, ih h.2 hothers, Value.entriesLength]

variable {base64 format} in
theorem length_serialize {value : Value} {text : List Char}
    (h : serialize rt base64 format value = .ok text) :
    text.length = value.textLength base64 format := by
  induction value using Value.induction generalizing text with
  | null => exact Except.ok.inj h ▸ rfl
  | bool b => exact Except.ok.inj h ▸ rfl
  | int n => exact Except.ok.inj h ▸ rfl
  | string s => exact Except.ok.inj h ▸ rfl
  | float n =>
      rw [serialize] at h
      split at h
      · exact Except.ok.inj h ▸ rfl
      · exact absurd h (by simp)
  | bytes data =>
      obtain rfl := Except.ok.inj h
      rw [length_bracket, Value.textLength]
      simp only [entryText, List.map_cons, List.map_nil, List.sum_cons, List.sum_nil,
        List.length_append, List.length_cons]
      congr 1
  | timestamp instant =>
      rw [serialize] at h
      split at h
      · next nanos hnanos =>
        obtain rfl := Except.ok.inj h
        rw [Value.textLength, hnanos]
        rfl
      · exact absurd h (by simp)
  | array items ih =>
      obtain ⟨parts, hparts, h⟩ := Except.exists_of_bind_eq_ok h
      obtain rfl := Except.ok.inj h
      rw [length_bracket, length_serializeItems rt (fun item hitem _ => ih item hitem) hparts,
        Value.textLength]
  | object entries ih =>
      obtain ⟨parts, hparts, h⟩ := Except.exists_of_bind_eq_ok h
      obtain rfl := Except.ok.inj h
      rw [length_bracket,
        length_serializeEntries rt (fun entry hentry _ => ih entry hentry) hparts,
        Value.textLength]

/-! ## What settling takes away -/

theorem Value.textLength_settle (value : Value) :
    value.settle.textLength base64 format ≤ value.textLength base64 format ∧
      (value.settle.textLength base64 format = value.textLength base64 format →
        value.Unique) := by
  induction value using Value.induction with
  | null => exact ⟨Nat.le_refl _, fun _ => .null⟩
  | bool b => exact ⟨Nat.le_refl _, fun _ => .bool b⟩
  | int n => exact ⟨Nat.le_refl _, fun _ => .int n⟩
  | float n => exact ⟨Nat.le_refl _, fun _ => .float n⟩
  | string s => exact ⟨Nat.le_refl _, fun _ => .string s⟩
  | bytes data => exact ⟨Nat.le_refl _, fun _ => .bytes data⟩
  | timestamp instant => exact ⟨Nat.le_refl _, fun _ => .timestamp instant⟩
  | array items ih =>
      have hitem : ∀ item ∈ items, item.settle.textLength base64 format + 1 ≤
          item.textLength base64 format + 1 := fun item hmem => Nat.succ_le_succ (ih item hmem).1
      rw [settle_array, textLength, textLength, itemsLength_eq, itemsLength_eq, List.map_map]
      have hle : (items.map ((fun item => item.textLength base64 format + 1) ∘ settle)).sum ≤
          (items.map fun item => item.textLength base64 format + 1).sum := sum_map_le hitem
      refine ⟨by unfold bracketLength; omega, fun heq => .array fun item hmem => ?_⟩
      have hsum : (items.map ((fun item => item.textLength base64 format + 1) ∘ settle)).sum =
          (items.map fun item => item.textLength base64 format + 1).sum := by
        cases items with
        | nil => rfl
        | cons first rest =>
            rw [List.map_cons, List.map_cons, List.sum_cons, List.sum_cons] at heq ⊢
            unfold bracketLength at heq
            simp only [Function.comp_apply] at heq ⊢
            omega
      exact (ih item hmem).2 (Nat.succ.inj (eq_of_sum_map_eq hitem hsum item hmem))
  | object entries ih =>
      -- first the values are settled, then the overridden entries go
      have hentry : ∀ entry ∈ entries, entryLength base64 format (entry.1, entry.2.settle) ≤
          entryLength base64 format entry := fun entry hmem =>
        Nat.add_le_add_right (Nat.add_le_add_left (ih entry hmem).1 _) 2
      have hvalues : ((mapValues settle entries).map (entryLength base64 format)).sum =
          (entries.map fun entry => entryLength base64 format (entry.1, entry.2.settle)).sum := by
        rw [mapValues, List.map_map]
        rfl
      have hcollect : ((collect (mapValues settle entries)).map
          (entryLength base64 format)).sum =
            ((settled (mapValues settle entries)).map (entryLength base64 format)).sum :=
        ((collect_perm _).map _).sum_nat
      have hsub := settled_sublist (mapValues settle entries)
      have hpart := sum_map_le_of_sublist (f := entryLength base64 format) hsub
      have hle := sum_map_le hentry
      rw [settle_object, textLength, textLength, entriesLength_eq, entriesLength_eq, hcollect]
      refine ⟨by unfold bracketLength; omega, fun heq => ?_⟩
      by_cases hempty : entries = []
      · subst hempty
        exact .object List.nodup_nil fun _ h => absurd h List.not_mem_nil
      have hpos : 2 ≤ (entries.map (entryLength base64 format)).sum := by
        obtain ⟨first, rest, rfl⟩ := List.exists_cons_of_ne_nil hempty
        rw [List.map_cons, List.sum_cons, entryLength]
        omega
      unfold bracketLength at heq
      refine .object ?_ fun entry hmem => (ih entry hmem).2 ?_
      · have hlength : (settled (mapValues settle entries)).length =
            (mapValues settle entries).length :=
          length_eq_of_sum_map_eq (f := entryLength base64 format)
            (fun _ => Nat.succ_pos _) hsub (by omega)
        have hnodup := length_settled_eq_iff.mp hlength
        rwa [keys_mapValues] at hnodup
      · have hsame := eq_of_sum_map_eq hentry (by omega) entry hmem
        unfold entryLength at hsame
        dsimp only at hsame
        omega

end Length

/-! ## What cannot be written -/

section Blocked

variable (rt : Runtime)

/-- Something that JSON does not hold is in the value, and no later entry overrides it. -/
inductive Value.Blocked : Value → Prop
  | float {n : F64} (h : rt.isFinite n = false) : Blocked (.float n)
  | timestamp {instant : Timestamp} (h : timestampNanos instant = none) :
      Blocked (.timestamp instant)
  | array {items : List Value} {item : Value} (hmem : item ∈ items) (h : Blocked item) :
      Blocked (.array items)
  | object {entries : List (String × Value)} {entry : String × Value}
      (hmem : entry ∈ settled entries) (h : Blocked entry.2) : Blocked (.object entries)

variable {rt} (base64 : Base64) (format : JsonFormat)

theorem serializeItems_ok_iff (items : List Value) :
    (∃ parts, serializeItems rt base64 format items = .ok parts) ↔
      ∀ item ∈ items, ∃ text, serialize rt base64 format item = .ok text := by
  induction items with
  | nil => simp [serializeItems]
  | cons item rest ih =>
      rw [List.forall_mem_cons, ← ih, serializeItems]
      cases serialize rt base64 format item with
      | error message => simp [bind, Except.bind]
      | ok text => cases serializeItems rt base64 format rest <;> simp [bind, Except.bind, pure,
          Except.pure]

theorem serializeEntries_ok_iff (entries : List (String × Value)) :
    (∃ parts, serializeEntries rt base64 format entries = .ok parts) ↔
      ∀ entry ∈ entries, ∃ text, serialize rt base64 format entry.2 = .ok text := by
  induction entries with
  | nil => simp [serializeEntries]
  | cons entry rest ih =>
      obtain ⟨key, value⟩ := entry
      rw [List.forall_mem_cons, ← ih, serializeEntries]
      cases serialize rt base64 format value with
      | error message => simp [bind, Except.bind]
      | ok text => cases serializeEntries rt base64 format rest <;> simp [bind, Except.bind, pure,
          Except.pure]

theorem serialize_array_ok_iff (items : List Value) :
    (∃ text, serialize rt base64 format (.array items) = .ok text) ↔
      ∀ item ∈ items, ∃ text, serialize rt base64 format item = .ok text := by
  rw [← serializeItems_ok_iff, serialize]
  cases serializeItems rt base64 format items <;> simp [bind, Except.bind, pure, Except.pure]

theorem serialize_object_ok_iff (entries : List (String × Value)) :
    (∃ text, serialize rt base64 format (.object entries) = .ok text) ↔
      ∀ entry ∈ entries, ∃ text, serialize rt base64 format entry.2 = .ok text := by
  rw [← serializeEntries_ok_iff, serialize]
  cases serializeEntries rt base64 format entries <;> simp [bind, Except.bind, pure, Except.pure]

/-- What blocks a value fails on the direct path. -/
theorem Value.Blocked.serialize_fails {value : Value} (h : value.Blocked rt) :
    ¬∃ text, serialize rt base64 format value = .ok text := by
  induction h with
  | float h => simp [serialize, h]
  | timestamp h => simp [serialize, h]
  | array hmem _ ih => exact fun htext => ih ((serialize_array_ok_iff ..).mp htext _ hmem)
  | object hmem _ ih =>
      exact fun htext =>
        ih ((serialize_object_ok_iff ..).mp htext _ ((settled_sublist _).subset hmem))

/-- Only what blocks a value fails once the value is settled. -/
theorem Value.serialize_settle_ok_iff (value : Value) :
    (∃ text, serialize rt base64 format value.settle = .ok text) ↔ ¬value.Blocked rt := by
  induction value using Value.induction with
  | null => exact iff_of_true ⟨_, rfl⟩ (fun h => nomatch h)
  | bool b => exact iff_of_true ⟨_, rfl⟩ (fun h => nomatch h)
  | int n => exact iff_of_true ⟨_, rfl⟩ (fun h => nomatch h)
  | string s => exact iff_of_true ⟨_, rfl⟩ (fun h => nomatch h)
  | bytes data => exact iff_of_true ⟨_, rfl⟩ (fun h => nomatch h)
  | float n =>
      show (∃ text, (if rt.isFinite n then _ else _) = Except.ok text) ↔ _
      split
      · next h => exact iff_of_true ⟨_, rfl⟩ (fun hblocked => by cases hblocked; simp_all)
      · next h => exact iff_of_false (by simp) (not_not_intro (.float (by simpa using h)))
  | timestamp instant =>
      rw [show (Value.timestamp instant).settle = .timestamp instant from rfl, serialize]
      split
      · next h => exact iff_of_true ⟨_, rfl⟩ (fun hblocked => by cases hblocked; simp_all)
      · next h => exact iff_of_false (by simp) (not_not_intro (.timestamp h))
  | array items ih =>
      rw [settle_array, serialize_array_ok_iff, List.forall_mem_map]
      constructor
      · intro h hblocked
        cases hblocked with
        | array hmem hblocked => exact (ih _ hmem).mp (h _ hmem) hblocked
      · exact fun h item hmem => (ih item hmem).mpr fun hblocked => h (.array hmem hblocked)
  | object entries ih =>
      rw [settle_object, serialize_object_ok_iff]
      have hperm : (collect (mapValues settle entries)).Perm
          (mapValues settle (settled entries)) := by
        rw [← settled_mapValues]
        exact collect_perm _
      have hmem : ∀ entry ∈ settled entries, entry ∈ entries := fun entry h =>
        (settled_sublist entries).subset h
      constructor
      · intro h hblocked
        cases hblocked with
        | @object _ entry hsettled hblocked =>
            have hkept : (entry.1, entry.2.settle) ∈ mapValues settle (settled entries) :=
              List.mem_map_of_mem hsettled
            exact (ih entry (hmem entry hsettled)).mp (h _ (hperm.mem_iff.mpr hkept)) hblocked
      · intro h entry hentry
        obtain ⟨original, horiginal, rfl⟩ := List.mem_map.mp (hperm.mem_iff.mp hentry)
        exact (ih original (hmem _ horiginal)).mpr fun hblocked => h (.object horiginal hblocked)

/-! ## The comparison -/

/-- Both ways of writing give the same text, or both fail. -/
def SameText (rt : Runtime) (value : Value) : Prop :=
  (serialize rt base64 format value).toOption =
    ((valueToJson rt base64 value.toOwnedValue).map (Json.text format)).toOption

theorem sameText_iff_settle (value : Value) :
    SameText base64 format rt value ↔
      (serialize rt base64 format value).toOption =
        (serialize rt base64 format value.settle).toOption := by
  rw [SameText, ← serialize_viewIn rt base64 format value.wellFormed_toOwnedValue]
  rfl

/-- **The two JSON paths.**  The direct text is that of the converted value exactly when no key
comes twice or the value is blocked; and reading agrees. -/
theorem json_paths_agree_iff (rt : Runtime) :
    (∀ value : Value, SameText base64 format rt value ↔ value.Unique ∨ value.Blocked rt) ∧
      ∀ json : Json, json.WellFormed →
        jsonToValueIn rt base64 json = (jsonToValue rt base64 json).map OwnedValue.viewIn := by
  refine ⟨fun value => ?_, fun json => jsonToValueIn_eq rt base64⟩
  rw [sameText_iff_settle]
  constructor
  · intro hsame
    by_contra hneither
    obtain ⟨hrepeated, hfree⟩ := not_or.mp hneither
    obtain ⟨text, htext⟩ := (value.serialize_settle_ok_iff base64 format).mpr hfree
    have hdirect : serialize rt base64 format value = .ok text := by
      rw [htext] at hsame
      cases hvalue : serialize rt base64 format value with
      | error message => rw [hvalue] at hsame; exact absurd hsame (by simp [Except.toOption])
      | ok other => rw [hvalue] at hsame; exact congrArg Except.ok (Option.some.inj hsame)
    refine hrepeated ((value.textLength_settle base64 format).2 ?_)
    rw [← length_serialize rt htext, ← length_serialize rt hdirect]
  · rintro (hunique | hblocked)
    · rw [Value.settle_of_unique hunique]
    · have hdirect := hblocked.serialize_fails base64 format
      have hsettled := fun h => (value.serialize_settle_ok_iff base64 format).mp h hblocked
      cases hvalue : serialize rt base64 format value with
      | ok text => exact absurd ⟨text, hvalue⟩ hdirect
      | error message =>
          cases hother : serialize rt base64 format value.settle with
          | ok text => exact absurd ⟨text, hother⟩ hsettled
          | error other => rfl

end Blocked

/-- Extension fields of which one comes twice. -/
def repeatedSrc : Value :=
  .object [("src", .string "10.0.0.1"), ("src", .string "10.0.0.2"), ("dst", .string "8.8.8.8")]

/-- Texts of strings that need no escape. -/
def quoted : JsonFormat where
  string s := '"' :: (s.toList ++ ['"'])
  float _ := "0.0".toList

theorem direct_text_repeats_key :
    repeatedSrc.typeName = "object" ∧
      ∀ rt, ¬SameText charwise quoted rt repeatedSrc := by
  refine ⟨rfl, fun rt => ?_⟩
  have hdirect : serialize rt charwise quoted repeatedSrc =
      .ok "\x7b\"src\":\"10.0.0.1\",\"src\":\"10.0.0.2\",\"dst\":\"8.8.8.8\"\x7d".toList := by
    rfl
  have hconverted : (valueToJson rt charwise repeatedSrc.toOwnedValue).map (Json.text quoted) =
      .ok "\x7b\"src\":\"10.0.0.2\",\"dst\":\"8.8.8.8\"\x7d".toList := by
    rfl
  rw [SameText, hdirect, hconverted]
  decide

end Limpid.Dsl
