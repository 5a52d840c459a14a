import Mathlib.Data.List.DropRight
import Limpid.Functions.SyslogParse

/-!
# RFC 5424 messages, rendered and parsed

A `Message` is what RFC 5424 can say: a priority, a version, five header fields, structured data and
a text.  `Message.render` spells it and `Message.fields` is the object that is expected of
`syslog.parse`.  The parser skips the structured data with a byte scanner that knows of brackets,
backslashes and spaces only.  Two things mislead it: a backslash before the `]` of an element that
has no parameters, and a text that begins with `[`, which is taken for one more element.

## Strategy

* The header has no blanks inside its fields, so `splitn` cuts a rendered message at the blanks that
  were put there (`splitN_renderBody`).
* The scanner of structured data is followed element by element and stops behind the last one.
* `parse_meets_iff` puts these together with the exact condition, and `bracketed_text_lost` is the
  second of the two slips.
-/

namespace Limpid.Functions.Syslog

open Decimal
open Dsl (Runtime Value)

/-! ## Messages -/

/-- `PRINTUSASCII`. -/
def IsPrintUsAscii (c : Char) : Prop := 33 ≤ c.toNat ∧ c.toNat ≤ 126

instance (c : Char) : Decidable (IsPrintUsAscii c) := inferInstanceAs (Decidable (_ ∧ _))

/-- A field of the header: no blank, and not the sign for nothing. -/
structure HeaderField where
  text : List Char
  nonempty : text ≠ []
  printable : ∀ c ∈ text, IsPrintUsAscii c

/-- `SD-NAME`, of an element or a parameter. -/
structure SdName where
  text : List Char
  nonempty : text ≠ []
  printable : ∀ c ∈ text, IsPrintUsAscii c ∧ c ∉ ['=', ' ', ']', '"']

/-- `SD-PARAM`, with the value as it is before it is escaped. -/
structure SdParam where
  name : SdName
  value : List Char

/-- A structured data element. -/
structure SdElement where
  id : SdName
  params : List SdParam

/-- A message of the fifth-generation format. -/
structure Message where
  pri : ℕ
  pri_le : pri ≤ 191
  version : Char
  version_digit : version.isDigit
  timestamp : HeaderField
  hostname : HeaderField
  appname : HeaderField
  procid : HeaderField
  msgid : HeaderField
  /-- No elements are written `-`. -/
  structuredData : List SdElement
  msg : List Char
  msg_start : ∀ c ∈ msg.head?, isWhiteSpace c = false

/-! ## Rendering -/

/-- A parameter value as it is written. -/
def escape (value : List Char) : List Char :=
  value.flatMap fun c => if c ∈ ['"', '\\', ']'] then ['\\', c] else [c]

/-- A parameter behind the space that separates it. -/
def SdParam.render (param : SdParam) : List Char :=
  param.name.text ++ '=' :: '"' :: (escape param.value ++ ['"'])

/-- The parameters of an element. -/
def renderParams (params : List SdParam) : List Char :=
  params.flatMap fun param => ' ' :: param.render

/-- An element behind its `[`. -/
def SdElement.body (element : SdElement) : List Char :=
  element.id.text ++ (renderParams element.params ++ [']'])

/-- The elements, one after another. -/
def renderElements (elements : List SdElement) : List Char :=
  elements.flatMap fun element => '[' :: element.body

/-- The elements, or the sign for nothing. -/
def renderStructuredData : List SdElement → List Char
  | [] => ['-']
  | elements => renderElements elements

namespace Message

variable (m : Message)

/-- What stands behind the header fields. -/
def renderTail : List Char := renderStructuredData m.structuredData ++ ' ' :: m.msg

/-- What stands behind the priority. -/
def renderBody : List Char :=
  m.version :: ' ' :: (m.timestamp.text ++ ' ' :: (m.hostname.text ++ ' ' :: (m.appname.text ++
    ' ' :: (m.procid.text ++ ' ' :: (m.msgid.text ++ ' ' :: m.renderTail)))))

/-- A message as it is written. -/
def render : List Char := '<' :: (formatNat m.pri ++ '>' :: m.renderBody)

/-- What the message says, with no entry for a field that is `-` and none for an empty text. -/
def fields : List (String × Value) :=
  let entry := fun (key : String) (field : HeaderField) =>
    if field.text = ['-'] then [] else [(key, Value.string (String.ofList field.text))]
  [("pri", Value.int (Int64.ofNat m.pri)), ("facility", .int (Int64.ofNat (m.pri / 8))),
      ("severity", .int (Int64.ofNat (m.pri % 8)))] ++
    (entry "timestamp" m.timestamp ++ entry "hostname" m.hostname ++ entry "appname" m.appname ++
      entry "procid" m.procid ++ entry "msgid" m.msgid ++
      if m.msg = [] then [] else [("msg", .string (String.ofList m.msg))])

end Message

/-! ## The scanner inside an element -/

/-- A backslash left over at the end of a name escapes what follows the name. -/
def EndsInEscape (name : List Char) : Prop := Odd (name.rtakeWhile (· = '\\')).length

/-- The `]` of the element is escaped: it has no parameters, and its name ends in a backslash. -/
def SdElement.IsOpen (element : SdElement) : Prop :=
  element.params = [] ∧ EndsInEscape element.id.text

instance (name : List Char) : Decidable (EndsInEscape name) := inferInstanceAs (Decidable (Odd _))

instance (element : SdElement) : Decidable element.IsOpen :=
  match h : element.params with
  | [] => decidable_of_iff (EndsInEscape element.id.text) (by simp [SdElement.IsOpen, h])
  | _ :: _ => isFalse (by simp [SdElement.IsOpen, h])

theorem skipElement_plain {b : UInt8} (hslash : b ≠ 92) (hbracket : b ≠ 93) (rest : Bytes) :
    skipElement (b :: rest) = skipElement rest := by
  cases rest with
  | nil => rfl
  | cons b' rest => rw [skipElement, if_neg hslash, if_neg hbracket]

theorem skipElement_escape (b : UInt8) (rest : Bytes) :
    skipElement (92 :: b :: rest) = skipElement rest := by
  rw [skipElement, if_pos rfl]

theorem skipElement_close (rest : Bytes) : skipElement (93 :: rest) = rest := by
  cases rest with
  | nil => rfl
  | cons b rest => rw [skipElement, if_neg (by decide), if_pos rfl]

/-- A character that is no ASCII byte does not contain it. -/
theorem notMem_utf8EncodeChar {c : Char} {b : UInt8} (hb : b < 128) (hc : c ≠ Char.ofNat b.toNat) :
    b ∉ String.utf8EncodeChar c := by
  intro hmem
  obtain ⟨first, second, hsplit⟩ := List.append_of_mem hmem
  have htext : utf8 [c] = first ++ b :: second := by simpa using hsplit
  obtain ⟨before, c', after, heq, -, hc', -⟩ := exists_around_of_utf8 hb htext
  obtain ⟨-, heq⟩ := List.append_eq_singleton_iff.mp heq.symm |>.resolve_right (by simp)
  obtain rfl := (List.cons.inj heq).1
  exact hc (eq_ofNat_of_utf8EncodeChar hc')

/-- Bytes other than a backslash and a `]` are stepped over. -/
theorem skipElement_plains {bytes : Bytes} (hslash : 92 ∉ bytes) (hbracket : 93 ∉ bytes)
    (rest : Bytes) : skipElement (bytes ++ rest) = skipElement rest := by
  induction bytes with
  | nil => rfl
  | cons b bytes ih =>
      rw [List.mem_cons, not_or] at hslash hbracket
      rw [List.cons_append, skipElement_plain (Ne.symm hslash.1) (Ne.symm hbracket.1),
        ih hslash.2 hbracket.2]

theorem skipElement_char {c : Char} (hslash : c ≠ '\\') (hbracket : c ≠ ']') (rest : Bytes) :
    skipElement (String.utf8EncodeChar c ++ rest) = skipElement rest :=
  skipElement_plains (notMem_utf8EncodeChar (by decide) hslash)
    (notMem_utf8EncodeChar (by decide) hbracket) rest

/-- An escaped value is stepped over, whatever it says. -/
theorem skipElement_escaped (value : List Char) (rest : Bytes) :
    skipElement (utf8 (escape value) ++ rest) = skipElement rest := by
  induction value with
  | nil => rfl
  | cons c value ih =>
      have hcons : escape (c :: value)
          = (if c ∈ ['"', '\\', ']'] then ['\\', c] else [c]) ++ escape value := rfl
      rw [hcons, utf8_append, List.append_assoc]
      split_ifs with hc
      · obtain ⟨b, hb⟩ : ∃ b, String.utf8EncodeChar c = [b] := by
          simp only [List.mem_cons, List.not_mem_nil, or_false] at hc
          rcases hc with rfl | rfl | rfl
          all_goals exact ⟨_, rfl⟩
        rw [← ih]
        simp only [utf8_cons, hb, utf8_nil]
        exact skipElement_escape b _
      · rw [← ih]
        simp only [List.mem_cons, List.not_mem_nil, or_false, not_or] at hc
        simpa using skipElement_char hc.2.1 hc.2.2 _

/-- Of two backslashes one escapes the other. -/
theorem endsInEscape_concat {text : List Char} {c : Char} :
    EndsInEscape (text ++ [c]) ↔ c = '\\' ∧ ¬ EndsInEscape text := by
  rw [EndsInEscape, List.rtakeWhile_concat, EndsInEscape]
  split_ifs with hc
  · rw [List.length_append, List.length_singleton, Nat.odd_add_one]
    exact (and_iff_right (of_decide_eq_true hc)).symm
  · refine iff_of_false (by simp) fun h => hc ?_
    exact decide_eq_true h.1

/-- A name is stepped over, and what is behind it with it when the name ends in an escape. -/
theorem skipElement_name {text : List Char} (h : ∀ c ∈ text, c.toNat < 128 ∧ c ≠ ']') (b : UInt8)
    (rest : Bytes) :
    skipElement (utf8 text ++ b :: rest)
      = if EndsInEscape text then skipElement rest else skipElement (b :: rest) := by
  induction text using List.reverseRecOn generalizing b rest with
  | nil => rfl
  | append_singleton text c ih =>
      have htext := fun c' hc' => h c' (List.mem_append_left _ hc')
      obtain ⟨hascii, hbracket⟩ := h c (by simp)
      have hchar := utf8EncodeChar_ascii hascii
      have happend : utf8 (text ++ [c]) ++ b :: rest
          = utf8 text ++ UInt8.ofNat c.toNat :: b :: rest := by simp [hchar]
      rw [happend, ih htext]
      split_ifs with hescape hconcat hconcat
      · exact absurd hescape (endsInEscape_concat.mp hconcat).2
      · rfl
      · obtain ⟨rfl, -⟩ := endsInEscape_concat.mp hconcat
        exact skipElement_escape b rest
      · have hslash : c ≠ '\\' := fun hc => hconcat (endsInEscape_concat.mpr ⟨hc, hescape⟩)
        have hskip := skipElement_char hslash hbracket (b :: rest)
        rwa [hchar] at hskip

theorem SdName.ascii (name : SdName) : ∀ c ∈ name.text, c.toNat < 128 ∧ c ≠ ']' := by
  intro c hc
  obtain ⟨hprint, hother⟩ := name.printable c hc
  exact ⟨hprint.2.trans_lt (by decide), by rintro rfl; simp at hother⟩

/-- A parameter is stepped over: its name is followed by two characters that end nothing. -/
theorem skipElement_param (param : SdParam) (rest : Bytes) :
    skipElement (utf8 param.render ++ rest) = skipElement rest := by
  have hvalue :
      skipElement (34 :: (utf8 (escape param.value) ++ 34 :: rest)) = skipElement rest := by
    rw [skipElement_plain (by decide) (by decide), skipElement_escaped,
      skipElement_plain (by decide) (by decide)]
  have hrender : utf8 param.render ++ rest
      = utf8 param.name.text ++ 61 :: 34 :: (utf8 (escape param.value) ++ 34 :: rest) := by
    have heq : String.utf8EncodeChar '=' = [61] := rfl
    have hquote : String.utf8EncodeChar '"' = [34] := rfl
    simp [SdParam.render, heq, hquote]
  rw [hrender, skipElement_name param.name.ascii]
  split_ifs
  · exact hvalue
  · rw [skipElement_plain (by decide) (by decide), hvalue]

theorem skipElement_params (params : List SdParam) (rest : Bytes) :
    skipElement (utf8 (renderParams params) ++ rest) = skipElement rest := by
  induction params with
  | nil => rfl
  | cons param params ih =>
      have hspace : String.utf8EncodeChar ' ' = [32] := rfl
      have hrender : utf8 (renderParams (param :: params)) ++ rest
          = 32 :: (utf8 param.render ++ (utf8 (renderParams params) ++ rest)) := by
        simp [renderParams, hspace]
      rw [hrender, skipElement_plain (by decide) (by decide), skipElement_param, ih]

/-- **The end of an element.**  An open one is not ended by its own `]`. -/
theorem skipElement_body (element : SdElement) (rest : Bytes) :
    skipElement (utf8 element.body ++ rest)
      = if element.IsOpen then skipElement rest else rest := by
  have hclose : String.utf8EncodeChar ']' = [93] := rfl
  have hrender : utf8 element.body ++ rest
      = utf8 element.id.text ++ (utf8 (renderParams element.params) ++ 93 :: rest) := by
    simp [SdElement.body, hclose]
  rw [hrender]
  cases hparams : element.params with
  | nil =>
      have hopen : element.IsOpen ↔ EndsInEscape element.id.text := by
        simp [SdElement.IsOpen, hparams]
      have hname := skipElement_name element.id.ascii 93 rest
      have hnone : utf8 (renderParams []) = [] := rfl
      rw [skipElement_close] at hname
      simpa only [hopen, hnone, List.nil_append] using hname
  | cons param params =>
      have hopen : ¬ element.IsOpen := by simp [SdElement.IsOpen, hparams]
      have hspace : String.utf8EncodeChar ' ' = [32] := rfl
      have hparam : utf8 (renderParams (param :: params)) ++ 93 :: rest
          = 32 :: (utf8 param.render ++ (utf8 (renderParams params) ++ 93 :: rest)) := by
        simp [renderParams, hspace]
      have hrest : skipElement (utf8 param.render ++ (utf8 (renderParams params) ++ 93 :: rest))
          = rest := by
        rw [skipElement_param, skipElement_params, skipElement_close]
      rw [hparam, skipElement_name element.id.ascii, skipElement_plain (by decide) (by decide),
        ite_self, hrest, if_neg hopen]

/-! ## The scanner over the elements -/

theorem dropSpaces_of_ne {b : UInt8} (hb : b ≠ 32) (rest : Bytes) :
    (b :: rest).dropWhile (· = 32) = b :: rest := List.dropWhile_cons_of_neg (by simpa using hb)

theorem skipElements_bracket (rest : Bytes) :
    skipElements (91 :: rest) = skipElements ((skipElement rest).dropWhile (· = 32)) := by
  rw [skipElements, if_pos rfl]

/-- **The end of the elements** depends on the last of them.  An open one before it takes the next
element for a part of its own. -/
theorem skipElements_render (elements : List SdElement) (last : SdElement) (rest : Bytes) :
    skipElements (utf8 (renderElements (elements ++ [last])) ++ rest)
      = skipElements ((if last.IsOpen then skipElement rest else rest).dropWhile (· = 32)) := by
  have hbracket : String.utf8EncodeChar '[' = [91] := rfl
  induction elements with
  | nil =>
      have hrender : utf8 (renderElements ([] ++ [last])) ++ rest
          = 91 :: (utf8 last.body ++ rest) := by simp [renderElements, hbracket]
      rw [hrender, skipElements_bracket, skipElement_body]
  | cons element elements ih =>
      have hrender : utf8 (renderElements (element :: elements ++ [last])) ++ rest
          = 91 :: (utf8 element.body ++ (utf8 (renderElements (elements ++ [last])) ++ rest)) := by
        simp [renderElements, hbracket]
      obtain ⟨tail, htail⟩ : ∃ tail, utf8 (renderElements (elements ++ [last])) ++ rest
          = 91 :: tail := by
        cases elements with
        | nil => exact ⟨_, by simp [renderElements, hbracket]; rfl⟩
        | cons => exact ⟨_, by simp [renderElements, hbracket]; rfl⟩
      rw [hrender, skipElements_bracket, skipElement_body, ← ih, htail]
      split_ifs
      · rw [skipElement_plain (by decide) (by decide), skipElements_bracket]
      · rw [dropSpaces_of_ne (by decide)]

/-! ## The text behind the structured data -/

namespace Message

variable (m : Message)

/-- What misleads the scanner is absent: there are no elements, or no text, or the text does not
begin like an element and the last element is ended by its `]`. -/
def IsReadBack : Prop :=
  m.structuredData = [] ∨ m.msg = [] ∨
    (m.msg.head? ≠ some '[' ∧ ∀ last ∈ m.structuredData.getLast?, ¬ last.IsOpen)

instance : Decidable m.IsReadBack :=
  have : Decidable (m.structuredData = []) :=
    decidable_of_iff m.structuredData.isEmpty List.isEmpty_iff
  inferInstanceAs (Decidable (_ ∨ _ ∨ _))

end Message

theorem length_skipElements_le (bytes : Bytes) : (skipElements bytes).length ≤ bytes.length := by
  fun_induction skipElements bytes with
  | case1 => exact le_rfl
  | case2 rest ih =>
      have hdrop := (List.dropWhile_suffix (· = (32 : UInt8)) (l := skipElement rest)).length_le
      have helement := length_skipElement_le rest
      rw [List.length_cons]
      omega
  | case3 => exact le_rfl

/-- A text that is skipped into is not there any more. -/
theorem length_skipElements_dropSpaces_lt {bytes : Bytes} {n : ℕ}
    (h : bytes.length < n) : (skipElements (bytes.dropWhile (· = 32))).length < n :=
  (length_skipElements_le _).trans_lt
    ((List.dropWhile_suffix (· = (32 : UInt8)) (l := bytes)).length_le.trans_lt h)

/-- The text is what the scanner leaves, behind the space. -/
theorem skipElements_msg {c : Char} {msg : List Char} (hspace : isWhiteSpace c = false)
    (hbracket : c ≠ '[') :
    skipElements ((32 :: utf8 (c :: msg)).dropWhile (· = 32)) = utf8 (c :: msg) := by
  have hc : c ≠ ' ' := by rintro rfl; exact absurd hspace (by decide)
  cases hchar : String.utf8EncodeChar c with
  | nil => exact absurd hchar String.utf8EncodeChar_ne_nil
  | cons b more =>
      have hmem : b ∈ String.utf8EncodeChar c := by simp [hchar]
      have hb32 : b ≠ 32 := by
        rintro rfl
        exact notMem_utf8EncodeChar (by decide) hc hmem
      have hb91 : b ≠ 91 := by
        rintro rfl
        exact notMem_utf8EncodeChar (by decide) hbracket hmem
      rw [utf8_cons, hchar, List.cons_append, List.dropWhile_cons_of_pos (by decide),
        dropSpaces_of_ne hb32, skipElements, if_neg hb91]

/-- A text that begins with a bracket loses it at least. -/
theorem length_skipElements_bracket_lt (msg : List Char) :
    (skipElements ((32 :: utf8 ('[' :: msg)).dropWhile (· = 32))).length
      < (utf8 ('[' :: msg)).length := by
  have hchar : utf8 ('[' :: msg) = 91 :: utf8 msg := rfl
  rw [hchar, List.dropWhile_cons_of_pos (by decide), dropSpaces_of_ne (by decide),
    skipElements_bracket]
  refine length_skipElements_dropSpaces_lt ?_
  have helement := length_skipElement_le (utf8 msg)
  rw [List.length_cons]
  omega

/-- What follows an element that is not ended by its `]` is skipped into. -/
theorem length_skipElements_open_lt {msg : List Char} (h : msg ≠ []) :
    (skipElements ((skipElement (32 :: utf8 msg)).dropWhile (· = 32))).length
      < (utf8 msg).length := by
  refine length_skipElements_dropSpaces_lt ?_
  have hpos : 0 < (utf8 msg).length := by
    cases msg with
    | nil => exact absurd rfl h
    | cons c msg =>
        have hsize := c.utf8Size_pos
        simp only [utf8_cons, List.length_append, String.length_utf8EncodeChar]
        omega
  have helement := length_skipElement_le (utf8 msg)
  rw [skipElement_plain (by decide) (by decide)]
  omega

/-- **Where the text begins** for the scanner, after elements. -/
theorem skipElements_renderTail (m : Message) {elements : List SdElement} {last : SdElement}
    (hdata : m.structuredData = elements ++ [last]) :
    (m.IsReadBack → skipElements (utf8 m.renderTail) = utf8 m.msg) ∧
      (¬ m.IsReadBack → (skipElements (utf8 m.renderTail)).length < (utf8 m.msg).length) := by
  have hrender : utf8 m.renderTail
      = utf8 (renderElements (elements ++ [last])) ++ 32 :: utf8 m.msg := by
    have hspace : String.utf8EncodeChar ' ' = [32] := rfl
    have hstructured : renderStructuredData (elements ++ [last])
        = renderElements (elements ++ [last]) := by cases elements <;> rfl
    simp [Message.renderTail, hdata, hstructured, hspace]
  have hiff : m.IsReadBack ↔ m.msg = [] ∨ (m.msg.head? ≠ some '[' ∧ ¬ last.IsOpen) := by
    simp [Message.IsReadBack, hdata]
  rw [hrender, skipElements_render, hiff]
  cases hmsg : m.msg with
  | nil =>
      refine ⟨fun _ => ?_, fun h => absurd (.inl rfl) h⟩
      split_ifs <;> simp [skipElement, skipElements]
  | cons c msg =>
      have hspace : isWhiteSpace c = false := m.msg_start c (by simp [hmsg])
      refine ⟨fun h => ?_, fun h => ?_⟩
      · obtain ⟨hhead, hopen⟩ := h.resolve_left (List.cons_ne_nil c msg)
        rw [if_neg hopen]
        exact skipElements_msg hspace fun hc => hhead (by simp [hc])
      · split_ifs with hopen
        · exact length_skipElements_open_lt (List.cons_ne_nil c msg)
        · obtain rfl : c = '[' := by
            by_contra hc
            exact h (.inr ⟨by simpa using hc, hopen⟩)
          exact length_skipElements_bracket_lt msg

theorem dropWhile_msg (m : Message) : (' ' :: m.msg).dropWhile isWhiteSpace = m.msg := by
  rw [List.dropWhile_cons_of_pos (by decide)]
  cases hmsg : m.msg with
  | nil => rfl
  | cons c msg => exact List.dropWhile_cons_of_neg (by simp [m.msg_start c (by simp [hmsg])])

/-- **The text is found exactly when nothing misleads the scanner.** -/
theorem skipStructuredData_renderTail_iff (m : Message) :
    skipStructuredData m.renderTail = some m.msg ↔ m.IsReadBack := by
  rcases List.eq_nil_or_concat' m.structuredData with hnil | ⟨elements, last, hdata⟩
  · have htail : m.renderTail = '-' :: ' ' :: m.msg := by
      simp [Message.renderTail, hnil, renderStructuredData]
    have hskip : skipStructuredData m.renderTail = some m.msg := by
      rw [htail, skipStructuredData, List.dropWhile_cons_of_neg (by decide), if_neg (by simp)]
      exact congrArg some (dropWhile_msg m)
    exact iff_of_true hskip (.inl hnil)
  · obtain ⟨front, htail⟩ : ∃ front, m.renderTail = '[' :: front ++ ' ' :: m.msg := by
      refine ⟨(renderStructuredData m.structuredData).tail, ?_⟩
      rw [Message.renderTail, hdata]
      cases elements <;> rfl
    have hskip : skipStructuredData m.renderTail
        = (splitAtByte ((utf8 m.renderTail).length - (skipElements (utf8 m.renderTail)).length)
            m.renderTail).map Prod.snd := by
      have hdrop : m.renderTail.dropWhile isWhiteSpace = m.renderTail := by
        rw [htail]
        exact List.dropWhile_cons_of_neg (by decide)
      rw [skipStructuredData, hdrop, if_pos (by simp [htail])]
    obtain ⟨hread, hlost⟩ := skipElements_renderTail m hdata
    constructor
    · intro h
      by_contra hnot
      obtain ⟨⟨first, second⟩, hsplit, rfl⟩ := Option.map_eq_some_iff.mp (hskip ▸ h)
      obtain ⟨htext, hindex⟩ := splitAtByte_eq_some hsplit
      have hlength := congrArg (fun text => (utf8 text).length) htext
      have hle := length_skipElements_le (utf8 m.renderTail)
      have hlt := hlost hnot
      simp only [utf8_length_append] at hlength
      omega
    · intro h
      have hfirst : m.renderTail = ('[' :: front ++ [' ']) ++ m.msg := by simp [htail]
      have hindex : (utf8 m.renderTail).length - (utf8 m.msg).length
          = (utf8 ('[' :: front ++ [' '])).length := by
        rw [hfirst, utf8_length_append]
        omega
      rw [hskip, hread h, hindex, hfirst, splitAtByte_utf8]
      rfl

/-! ## The header -/

theorem splitN_cons {first : List Char} (h : ' ' ∉ first) (n : ℕ) (rest : List Char) :
    splitN (n + 2) (first ++ ' ' :: rest) = first :: splitN (n + 1) rest := by
  have hall : ∀ c ∈ first, decide (c ≠ ' ') = true := fun c hc =>
    decide_eq_true fun heq => h (heq ▸ hc)
  rw [splitN, if_pos (by simp), List.takeWhile_append_of_pos hall,
    List.dropWhile_append_of_pos hall]
  simp

theorem HeaderField.notMem_space (field : HeaderField) : ' ' ∉ field.text := fun h =>
  absurd (field.printable ' ' h) (by decide)

theorem setField_text (key : String) (field : HeaderField) :
    setField key field.text
      = if field.text = ['-'] then [] else [(key, .string (String.ofList field.text))] := by
  simp [setField, field.nonempty]

theorem parseLeadingPri_render (m : Message) :
    parseLeadingPri m.render = some (m.pri, (formatNat m.pri).length + 2) := by
  obtain ⟨hheader, hvalue, hlength⟩ := isHeader_formatNat m.pri_le m.renderBody
  exact parseLeadingPri_eq_some_iff.mpr
    ⟨_, _, hheader.mono (by decide), hvalue.symm, by rw [hlength]⟩

theorem parseBody_renderBody (m : Message) :
    parseBody m.renderBody = parseRfc5424 m.renderBody := by
  have hspace : String.utf8EncodeChar ' ' = [32] := rfl
  have hascii : m.version.toNat < 128 :=
    (bounds_of_isDigit m.version_digit).2.trans_lt (by decide)
  obtain ⟨rest, hbytes⟩ : ∃ rest,
      utf8 m.renderBody = UInt8.ofNat m.version.toNat :: 32 :: rest := by
    simp [Message.renderBody, utf8EncodeChar_ascii hascii, hspace]
  rw [parseBody, if_pos]
  rw [hbytes]
  exact ⟨by simp, isAsciiDigit_ofNat m.version_digit, rfl⟩

theorem splitN_renderBody (m : Message) :
    splitN 7 m.renderBody = [[m.version], m.timestamp.text, m.hostname.text, m.appname.text,
      m.procid.text, m.msgid.text, m.renderTail] := by
  have hversion : ' ' ∉ [m.version] := by
    rw [List.mem_singleton]
    intro h
    exact absurd (h ▸ m.version_digit) (by decide)
  have hbody : m.renderBody = [m.version] ++ ' ' :: (m.timestamp.text ++ ' ' :: (m.hostname.text ++
      ' ' :: (m.appname.text ++ ' ' :: (m.procid.text ++ ' ' :: (m.msgid.text ++
        ' ' :: m.renderTail))))) := rfl
  rw [hbody, splitN_cons hversion, splitN_cons m.timestamp.notMem_space,
    splitN_cons m.hostname.notMem_space, splitN_cons m.appname.notMem_space,
    splitN_cons m.procid.notMem_space, splitN_cons m.msgid.notMem_space, splitN]

/-- What is read of a message behind its priority, but for its text. -/
def Message.headerFields (m : Message) : List (String × Value) :=
  setField "timestamp" m.timestamp.text ++ setField "hostname" m.hostname.text ++
    setField "appname" m.appname.text ++ setField "procid" m.procid.text ++
    setField "msgid" m.msgid.text

/-- What is read of a message with the text `msg`. -/
def Message.read (m : Message) (msg : List Char) : List (String × Value) :=
  [("pri", Value.int (Int64.ofNat m.pri)), ("facility", .int (Int64.ofNat (m.pri / 8))),
    ("severity", .int (Int64.ofNat (m.pri % 8)))] ++ (m.headerFields ++ msgField msg)

theorem parseRfc5424_renderBody (m : Message) :
    parseRfc5424 m.renderBody
      = (skipStructuredData m.renderTail).map fun msg => m.headerFields ++ msgField msg := by
  have hdash (key : String) (field : HeaderField) :
      (if field.text ≠ ['-'] then setField key field.text else []) = setField key field.text := by
    split_ifs with h
    · rfl
    · simp [setField, not_not.mp h]
  rw [parseRfc5424, splitN_renderBody]
  cases hskip : skipStructuredData m.renderTail with
  | none => simp [hskip]
  | some msg => simp [hskip, hdash, Message.headerFields]

theorem fields_eq (m : Message) : m.fields = m.read m.msg := by
  simp [Message.fields, Message.read, Message.headerFields, setField_text, msgField]

theorem msgField_injective : Function.Injective msgField := by
  intro msg msg' h
  simp only [msgField] at h
  split_ifs at h with hmsg hmsg' hmsg'
  · have htext : String.ofList msg = String.ofList msg' := by simpa using h
    simpa using congrArg String.toList htext
  · rw [not_not.mp hmsg, not_not.mp hmsg']

theorem Message.read_injective (m : Message) : Function.Injective m.read := fun _ _ h =>
  msgField_injective (List.append_cancel_left (List.append_cancel_left h))

/-- The body is what stands behind the priority. -/
theorem splitAtByte_render (m : Message) :
    splitAtByte ((formatNat m.pri).length + 2) m.render
      = some ('<' :: (formatNat m.pri ++ ['>']), m.renderBody) := by
  have hascii : ∀ c ∈ formatNat m.pri, c.toNat < 128 := fun c hc =>
    (bounds_of_isDigit (isDigit_of_mem_formatNat hc)).2.trans_lt (by decide)
  have hopen : String.utf8EncodeChar '<' = [60] := rfl
  have hclose : String.utf8EncodeChar '>' = [62] := rfl
  have hlength : (utf8 ('<' :: (formatNat m.pri ++ ['>']))).length
      = (formatNat m.pri).length + 2 := by
    simp [utf8_of_ascii hascii, hopen, hclose]
  have hrender : m.render = '<' :: (formatNat m.pri ++ ['>']) ++ m.renderBody := by
    simp [Message.render]
  rw [← hlength, hrender, splitAtByte_utf8]

theorem parseText_render (m : Message) :
    parseText m.render none
      = (skipStructuredData m.renderTail).map fun msg => .ok (.object (m.read msg)) := by
  rw [parseText, parseLeadingPri_render]
  simp only [splitAtByte_render, Option.bind_eq_bind, Option.bind_some, parseBody_renderBody,
    parseRfc5424_renderBody]
  cases skipStructuredData m.renderTail <;> rfl

/-- **A message is read back exactly when nothing misleads the scanner.** -/
theorem parseText_render_iff (m : Message) :
    parseText m.render none = some (.ok (.object m.fields)) ↔ m.IsReadBack := by
  rw [← skipStructuredData_renderTail_iff, parseText_render]
  cases hskip : skipStructuredData m.renderTail with
  | none => exact iff_of_false nofun nofun
  | some msg =>
      simp only [Option.map_some, fields_eq, Option.some.injEq, Except.ok.injEq,
        Value.object.injEq]
      exact m.read_injective.eq_iff

/-! ## The results -/

theorem parse_string (rt : Runtime) (text : List Char) :
    parse rt (.string (String.ofList text)) none = parseText text none := by
  simp [parse, Dsl.valueToString]

/-- **`syslog.parse`.**  No text makes it slice a text off a character, and a message is read back
exactly when nothing misleads the scanner. -/
theorem parse_meets_iff (rt : Runtime) :
    (∀ m : Message, parse rt (.string (String.ofList m.render)) none
        = some (.ok (.object m.fields)) ↔ m.IsReadBack) ∧
      ∀ text defaults, (parse rt text defaults).isSome := by
  refine ⟨fun m => ?_, fun text defaults => ?_⟩
  · rw [parse_string]
    exact parseText_render_iff m
  · fun_cases parse rt text defaults with
    | case1 => rfl
    | case2 => exact isSome_parseText _ defaults

/-- `<34>1 - - - - - [a] [b`, with the text `[b`. -/
def bracketedText : Message where
  pri := 34
  pri_le := by decide
  version := '1'
  version_digit := by decide
  timestamp := ⟨['-'], by decide, by decide⟩
  hostname := ⟨['-'], by decide, by decide⟩
  appname := ⟨['-'], by decide, by decide⟩
  procid := ⟨['-'], by decide, by decide⟩
  msgid := ⟨['-'], by decide, by decide⟩
  structuredData := [⟨⟨['a'], by decide, by decide⟩, []⟩]
  msg := ['[', 'b']
  msg_start := by decide

/-- The text is taken for an element that is not closed, and the object has no message. -/
theorem bracketed_text_lost :
    bracketedText.render = "<34>1 - - - - - [a] [b".toList ∧ ∀ rt,
      parse rt (.string (String.ofList bracketedText.render)) none
          = some (.ok (.object [("pri", .int 34), ("facility", .int 4), ("severity", .int 2)])) ∧
        parse rt (.string (String.ofList bracketedText.render)) none
          ≠ some (.ok (.object bracketedText.fields)) := by
  refine ⟨by decide, fun rt => ?_⟩
  rw [parse_string]
  refine ⟨?_, fun h => absurd ((parseText_render_iff bracketedText).mp h) (by decide)⟩
  have hskip : skipStructuredData bracketedText.renderTail = some [] := by decide +kernel
  rw [parseText_render, hskip]
  rfl

end Limpid.Functions.Syslog
