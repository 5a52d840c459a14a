import Limpid.Functions.KeyValue

/-!
# The capture names of `regex_parse`

`functions/primitives/regex_parse.rs`.  The `regex` crate takes no dots in a capture name, so a dot
there is written as a marker, and the marker is read as a dot when the captures are named.

A name is given back exactly when the marker occurs neither in it nor across its end and the marker
of a dot (`demangle_mangleName_iff`).  Of the pattern itself nothing but those dots changes as long
as its text is ASCII and the text that opens a group opens one (`manglePattern_eq_iff`).
-/

namespace Limpid.Functions.RegexParse

open KeyValue (slice slice_utf8 skipWhile)

/-! ## The functions -/

/-- `DOT_MARKER`. -/
def dotMarker : List Char := "__DOT__".toList

/-- `str::replace`, of a text that is not empty. -/
def replace (pattern replacement text : List Char) : List Char :=
  match text with
  | [] => []
  | c :: rest =>
    if pattern.isPrefixOf (c :: rest) then
      replacement ++ replace pattern replacement (rest.drop (pattern.length - 1))
    else c :: replace pattern replacement rest
termination_by text.length
decreasing_by all_goals simp only [List.length_drop, List.length_cons]; omega

/-- `name.replace('.', DOT_MARKER)`. -/
def mangleName (name : List Char) : List Char :=
  name.flatMap fun c => if c = '.' then dotMarker else [c]

/-- `demangle`. -/
def demangle (s : List Char) : List Char := replace dotMarker ['.'] s

/-- The length of `(?P<` or `(?<` at the start. -/
def opener (bytes : Bytes) : Option ℕ :=
  if [40, 63, 80, 60].isPrefixOf bytes then some 4
  else if [40, 63, 60].isPrefixOf bytes then some 3
  else none

theorem opener_pos {bytes : Bytes} {prefixLen : ℕ} (h : opener bytes = some prefixLen) :
    0 < prefixLen := by
  unfold opener at h
  split_ifs at h <;> · obtain rfl := Option.some.inj h; decide

/-- The loop of `mangle_pattern` from an index on. -/
def mangleFrom (pattern : List Char) (i : ℕ) : Option (List Char) :=
  if hi : i < (utf8 pattern).length then
    match hopener : opener ((utf8 pattern).drop i) with
    | some prefixLen => do
        let start := i + prefixLen
        let stop := skipWhile (utf8 pattern) (· ≠ 62) start
        let head ← slice pattern i start
        let name ← slice pattern start stop
        let rest ← mangleFrom pattern stop
        some (head ++ mangleName name ++ rest)
    | none => do
        -- one byte becomes one character
        let rest ← mangleFrom pattern (i + 1)
        some (Char.ofNat (utf8 pattern)[i].toNat :: rest)
  else some []
termination_by (utf8 pattern).length - i
decreasing_by
  · have := opener_pos hopener
    have := KeyValue.le_skipWhile (utf8 pattern) (· ≠ 62) (i + prefixLen)
    omega
  · omega

/-- `mangle_pattern`. -/
def manglePattern (pattern : List Char) : Option (List Char) := mangleFrom pattern 0

/-! ## Names -/

section Names

/-- What is read as a marker: the marker, and what becomes one before the marker of a dot. -/
def markers : List (List Char) := ["__DOT__".toList, "__DOT.".toList, "__DOT_.".toList]

/-- A mangled part of the name is taken for a dot. -/
def IsMisread (name : List Char) : Prop :=
  ∃ part ∈ markers, part <:+: name

theorem dotMarker_eq : dotMarker = ['_', '_', 'D', 'O', 'T', '_', '_'] := rfl

theorem mem_markers_iff {part : List Char} : part ∈ markers ↔
    part = "__DOT__".toList ∨ part = "__DOT.".toList ∨ part = "__DOT_.".toList := by
  rw [markers, List.mem_cons, List.mem_cons, List.mem_singleton]

theorem exists_cons_of_mem_markers {part : List Char} (h : part ∈ markers) :
    ∃ rest, part = '_' :: rest := by
  rcases mem_markers_iff.mp h with rfl | rfl | rfl
  · exact ⟨"_DOT__".toList, rfl⟩
  · exact ⟨"_DOT.".toList, rfl⟩
  · exact ⟨"_DOT_.".toList, rfl⟩

@[simp] theorem mangleName_nil : mangleName [] = [] := rfl

@[simp] theorem mangleName_dot (name : List Char) :
    mangleName ('.' :: name) = dotMarker ++ mangleName name := rfl

theorem mangleName_cons {c : Char} (hc : c ≠ '.') (name : List Char) :
    mangleName (c :: name) = c :: mangleName name := by
  rw [mangleName, List.flatMap_cons, if_neg hc]
  rfl

/-- A character that begins no marker stands in the name. -/
theorem cons_prefix_mangleName_iff {c : Char} (hc : c ≠ '_') (hdot : c ≠ '.')
    {part name : List Char} :
    c :: part <+: mangleName name ↔ ∃ rest, name = c :: rest ∧ part <+: mangleName rest := by
  constructor
  · intro h
    cases name with
    | nil => exact nomatch List.prefix_nil.mp h
    | cons d rest =>
        by_cases hd : d = '.'
        · subst hd
          exact absurd (List.cons_prefix_cons.mp h).1 hc
        · rw [mangleName_cons hd, List.cons_prefix_cons] at h
          exact ⟨rest, by rw [h.1], h.2⟩
  · rintro ⟨rest, rfl, h⟩
    rw [mangleName_cons hdot]
    exact List.cons_prefix_cons.mpr ⟨rfl, h⟩

theorem underscore_prefix_mangleName_iff {part name : List Char} :
    '_' :: part <+: mangleName name ↔
      (∃ rest, name = '_' :: rest ∧ part <+: mangleName rest) ∨
        ∃ rest, name = '.' :: rest ∧ part <+: "_DOT__".toList ++ mangleName rest := by
  constructor
  · intro h
    cases name with
    | nil => exact nomatch List.prefix_nil.mp h
    | cons d rest =>
        by_cases hd : d = '.'
        · subst hd
          exact .inr ⟨rest, rfl, (List.cons_prefix_cons.mp h).2⟩
        · rw [mangleName_cons hd, List.cons_prefix_cons] at h
          exact .inl ⟨rest, by rw [h.1], h.2⟩
  · rintro (⟨rest, rfl, h⟩ | ⟨rest, rfl, h⟩)
    · rw [mangleName_cons (by decide)]
      exact List.cons_prefix_cons.mpr ⟨rfl, h⟩
    · exact List.cons_prefix_cons.mpr ⟨rfl, h⟩

/-- Where a mangled name begins with a marker. -/
theorem dotMarker_prefix_mangleName_iff {name : List Char} :
    dotMarker <+: mangleName name ↔
      (∃ rest, name = '.' :: rest) ∨ ∃ part ∈ markers, part <+: name := by
  constructor
  · intro h
    rw [dotMarker_eq] at h
    rcases underscore_prefix_mangleName_iff.mp h with ⟨name₁, rfl, h₁⟩ | ⟨name₁, rfl, -⟩
    swap
    · exact .inl ⟨name₁, rfl⟩
    right
    rcases underscore_prefix_mangleName_iff.mp h₁ with ⟨name₂, rfl, h₂⟩ | ⟨name₂, rfl, h₂⟩
    swap
    · exact absurd (List.cons_prefix_cons.mp h₂).1 (by decide)
    obtain ⟨name₃, rfl, h₃⟩ := (cons_prefix_mangleName_iff (by decide) (by decide)).mp h₂
    obtain ⟨name₄, rfl, h₄⟩ := (cons_prefix_mangleName_iff (by decide) (by decide)).mp h₃
    obtain ⟨name₅, rfl, h₅⟩ := (cons_prefix_mangleName_iff (by decide) (by decide)).mp h₄
    -- a dot here has the rest of the marker in its own
    rcases underscore_prefix_mangleName_iff.mp h₅ with ⟨name₆, rfl, h₆⟩ | ⟨name₆, rfl, -⟩
    swap
    · exact ⟨"__DOT.".toList, by decide, name₆, rfl⟩
    rcases underscore_prefix_mangleName_iff.mp h₆ with ⟨name₇, rfl, -⟩ | ⟨name₇, rfl, -⟩
    · exact ⟨"__DOT__".toList, by decide, name₇, rfl⟩
    · exact ⟨"__DOT_.".toList, by decide, name₇, rfl⟩
  · rintro (⟨rest, rfl⟩ | ⟨part, hpart, rest, rfl⟩)
    · exact ⟨mangleName rest, rfl⟩
    · rcases mem_markers_iff.mp hpart with rfl | rfl | rfl
      · exact ⟨mangleName rest, rfl⟩
      · exact ⟨"DOT__".toList ++ mangleName rest, rfl⟩
      · exact ⟨"_DOT__".toList ++ mangleName rest, rfl⟩

/-- Only a name with an underscore is misread. -/
theorem not_isMisread {name : List Char} (h : '_' ∉ name) : ¬ IsMisread name := by
  rintro ⟨part, hpart, hwithin⟩
  obtain ⟨rest, rfl⟩ := exists_cons_of_mem_markers hpart
  exact h (hwithin.subset List.mem_cons_self)

theorem isMisread_dot_iff {name : List Char} : IsMisread ('.' :: name) ↔ IsMisread name := by
  constructor
  · rintro ⟨part, hpart, h⟩
    refine ⟨part, hpart, (List.infix_cons_iff.mp h).resolve_left fun hprefix => ?_⟩
    obtain ⟨rest, rfl⟩ := exists_cons_of_mem_markers hpart
    exact absurd (List.cons_prefix_cons.mp hprefix).1 (by decide)
  · rintro ⟨part, hpart, h⟩
    exact ⟨part, hpart, h.trans (List.suffix_cons ..).isInfix⟩

theorem isMisread_cons_iff {c : Char} {name : List Char}
    (h : ∀ part ∈ markers, ¬ part <+: c :: name) :
    IsMisread (c :: name) ↔ IsMisread name := by
  constructor
  · rintro ⟨part, hpart, hinfix⟩
    exact ⟨part, hpart, (List.infix_cons_iff.mp hinfix).resolve_left (h part hpart)⟩
  · rintro ⟨part, hpart, hinfix⟩
    exact ⟨part, hpart, hinfix.trans (List.suffix_cons ..).isInfix⟩

theorem demangle_dotMarker (text : List Char) :
    demangle (dotMarker ++ text) = '.' :: demangle text := by
  have hcons : dotMarker ++ text = '_' :: ("_DOT__".toList ++ text) := rfl
  have hprefix : dotMarker.isPrefixOf ('_' :: ("_DOT__".toList ++ text)) = true :=
    List.isPrefixOf_iff_prefix.mpr ⟨text, rfl⟩
  rw [demangle, hcons, replace, if_pos hprefix]
  rfl

theorem demangle_cons {c : Char} {text : List Char} (h : ¬ dotMarker <+: c :: text) :
    demangle (c :: text) = c :: demangle text := by
  rw [demangle, replace, if_neg (mt List.isPrefixOf_iff_prefix.mp h)]
  rfl

/-- **A name is given back exactly when nothing in it is read as a marker.** -/
theorem demangle_mangleName_iff {name : List Char} :
    demangle (mangleName name) = name ↔ ¬ IsMisread name := by
  induction name with
  | nil =>
      refine iff_of_true (by rw [mangleName_nil, demangle, replace]) ?_
      rintro ⟨part, hpart, h⟩
      obtain ⟨rest, rfl⟩ := exists_cons_of_mem_markers hpart
      exact nomatch List.infix_nil.mp h
  | cons c name ih =>
      by_cases hdot : c = '.'
      · subst hdot
        rw [mangleName_dot, demangle_dotMarker, isMisread_dot_iff, ← ih, List.cons.injEq]
        exact and_iff_right rfl
      · by_cases hmarker : dotMarker <+: mangleName (c :: name)
        · -- a marker is read where the name has another character than a dot
          obtain ⟨rest, hrest⟩ := hmarker
          have hleft : demangle (mangleName (c :: name)) ≠ c :: name := by
            rw [← hrest, demangle_dotMarker]
            exact fun h => hdot (List.cons.inj h).1.symm
          have hpart := dotMarker_prefix_mangleName_iff.mp ⟨rest, hrest⟩
          obtain ⟨part, hpart, hprefix⟩ :=
            hpart.resolve_left fun ⟨_, h⟩ => hdot (List.cons.inj h).1
          exact iff_of_false hleft (not_not.mpr ⟨part, hpart, hprefix.isInfix⟩)
        · have hnone : ∀ part ∈ markers, ¬ part <+: c :: name := fun part hpart h =>
            hmarker (dotMarker_prefix_mangleName_iff.mpr (.inr ⟨part, hpart, h⟩))
          rw [isMisread_cons_iff hnone, ← ih]
          rw [mangleName_cons hdot] at hmarker ⊢
          rw [demangle_cons hmarker, List.cons.injEq]
          exact and_iff_right rfl

/-- Names that are given back are told apart. -/
theorem mangleName_injOn {name other : List Char} (hname : ¬ IsMisread name)
    (hother : ¬ IsMisread other) (h : mangleName name = mangleName other) : name = other :=
  calc name = demangle (mangleName name) := (demangle_mangleName_iff.mpr hname).symm
    _ = demangle (mangleName other) := by rw [h]
    _ = other := demangle_mangleName_iff.mpr hother

end Names

/-! ## Patterns -/

section Patterns

/-- How a named group begins. -/
def openers : List (List Char) := ["(?P<".toList, "(?<".toList]

/-- A group was opened before, and its name was not closed since. -/
def Opened (before : List Char) : Prop :=
  ∃ first, ∃ open' ∈ openers, ∃ name, '>' ∉ name ∧ before = first ++ (open' ++ name)

/-- One character for each byte. -/
def byteChars (c : Char) : List Char :=
  (String.utf8EncodeChar c).map fun b => Char.ofNat b.toNat

open Classical in
/-- What is written for a character. -/
noncomputable def written (before : List Char) (c : Char) : List Char :=
  if Opened before then mangleName [c] else byteChars c

/-- The pattern with the dots of its names mangled. -/
noncomputable def mangleText (before : List Char) : List Char → List Char
  | [] => []
  | c :: rest => written before c ++ mangleText (before ++ [c]) rest

theorem mem_openers_iff {part : List Char} :
    part ∈ openers ↔ part = "(?P<".toList ∨ part = "(?<".toList := by
  rw [openers, List.mem_cons, List.mem_singleton]

/-- An opener is a dozen of plain characters. -/
theorem plain_of_mem_openers {part : List Char} (h : part ∈ openers) :
    ∀ c ∈ part, c.toNat < 128 ∧ c ≠ '.' ∧ c ≠ '>' := by
  rcases mem_openers_iff.mp h with rfl | rfl <;> decide

theorem exists_cons_of_mem_openers {part : List Char} (h : part ∈ openers) :
    ∃ rest, part = '(' :: rest := by
  rcases mem_openers_iff.mp h with rfl | rfl
  · exact ⟨"?P<".toList, rfl⟩
  · exact ⟨"?<".toList, rfl⟩

theorem opener_utf8_of_prefix {part text : List Char} (hpart : part ∈ openers)
    (h : part <+: text) : opener (utf8 text) = some part.length := by
  obtain ⟨rest, rfl⟩ := h
  rcases mem_openers_iff.mp hpart with rfl | rfl <;> rfl

theorem opener_utf8_eq_none {text : List Char} (h : ∀ part ∈ openers, ¬ part <+: text) :
    opener (utf8 text) = none := by
  have hlong : ¬ [40, 63, 80, 60].isPrefixOf (utf8 text) = true := fun hprefix =>
    h "(?P<".toList (by decide)
      ((utf8_prefix_iff (by decide)).mp (List.isPrefixOf_iff_prefix.mp hprefix))
  have hshort : ¬ [40, 63, 60].isPrefixOf (utf8 text) = true := fun hprefix =>
    h "(?<".toList (by decide)
      ((utf8_prefix_iff (by decide)).mp (List.isPrefixOf_iff_prefix.mp hprefix))
  rw [opener, if_neg hlong, if_neg hshort]

theorem opener_eq_none_of_head {b : UInt8} (hb : b ≠ 40) (bytes : Bytes) :
    opener (b :: bytes) = none := by
  have hhead : ∀ rest : Bytes, ¬ (40 :: rest).isPrefixOf (b :: bytes) = true := fun rest h =>
    hb (List.cons_prefix_cons.mp (List.isPrefixOf_iff_prefix.mp h)).1.symm
  rw [opener, if_neg (hhead _), if_neg (hhead _)]

/-! ### One round of the loop -/

theorem mangleFrom_end (pattern : List Char) :
    mangleFrom pattern (utf8 pattern).length = some [] := by
  rw [mangleFrom, dif_neg (lt_irrefl _)]

theorem mangleFrom_byte {pattern : List Char} {first rest : Bytes} {b : UInt8}
    (h : utf8 pattern = first ++ b :: rest) (hnone : opener (b :: rest) = none) :
    mangleFrom pattern first.length =
      (mangleFrom pattern (first.length + 1)).map (Char.ofNat b.toNat :: ·) := by
  have hi : first.length < (utf8 pattern).length := by
    rw [h, List.length_append, List.length_cons]
    omega
  have hdrop : opener ((utf8 pattern).drop first.length) = none := by
    rw [h, List.drop_left, hnone]
  have hget : (utf8 pattern)[first.length] = b := by simp [h]
  rw [mangleFrom, dif_pos hi]
  split
  · next hopener => rw [hdrop] at hopener; exact nomatch hopener
  · rw [hget]
    cases mangleFrom pattern (first.length + 1) <;> rfl

theorem mangleFrom_bytes {pattern : List Char} {first bytes rest : Bytes}
    (h : utf8 pattern = first ++ (bytes ++ rest))
    (hnone : ∀ done b more, bytes = done ++ b :: more → opener (b :: (more ++ rest)) = none) :
    mangleFrom pattern first.length =
      (mangleFrom pattern (first.length + bytes.length)).map
        (bytes.map (fun b => Char.ofNat b.toNat) ++ ·) := by
  induction bytes generalizing first with
  | nil => simp
  | cons b more ih =>
      have hmore := @ih (first ++ [b]) (by rw [h, List.append_assoc]; rfl)
        fun done b' more' hsplit => hnone (b :: done) b' more' (by rw [hsplit]; rfl)
      have hlength : (first ++ [b]).length = first.length + 1 := List.length_append
      have hnext : first.length + 1 + more.length = first.length + (b :: more).length := by
        rw [List.length_cons]
        omega
      rw [mangleFrom_byte h (hnone [] b more rfl), ← hlength, hmore, hlength, hnext, Option.map_map]
      rfl

/-- A character that opens no group is written byte by byte. -/
theorem mangleFrom_char {before after : List Char} {c : Char}
    (h : ∀ part ∈ openers, ¬ part <+: c :: after) :
    mangleFrom (before ++ c :: after) (utf8 before).length =
      (mangleFrom (before ++ c :: after) (utf8 (before ++ [c])).length).map (byteChars c ++ ·) := by
  have hlength : (utf8 (before ++ [c])).length =
      (utf8 before).length + (String.utf8EncodeChar c).length := by
    rw [utf8_length_append, utf8_cons, utf8_nil, List.append_nil]
  rw [hlength]
  refine mangleFrom_bytes (utf8_append ..) fun done b more hsplit => ?_
  cases done with
  | nil =>
      have hnone := opener_utf8_eq_none h
      rw [utf8_cons, hsplit] at hnone
      exact hnone
  | cons b' done =>
      -- a byte that is not the first is not ASCII
      refine opener_eq_none_of_head (fun hb => ?_) _
      have hmem : b ∈ String.utf8EncodeChar c := by rw [hsplit]; simp
      have hsingle := utf8EncodeChar_of_mem (hb ▸ by decide) hmem
      have := congrArg List.length (hsplit.symm.trans hsingle)
      simp at this

theorem mangleFrom_opener {before after name part : List Char} (hpart : part ∈ openers)
    (hname : '>' ∉ name) (hafter : after = [] ∨ ∃ rest, after = '>' :: rest) :
    mangleFrom (before ++ (part ++ (name ++ after))) (utf8 before).length =
      (mangleFrom (before ++ (part ++ (name ++ after)))
        (utf8 (before ++ (part ++ name))).length).map (part ++ mangleName name ++ ·) := by
  have hopener : opener ((utf8 (before ++ (part ++ (name ++ after)))).drop (utf8 before).length) =
      some part.length := by
    rw [KeyValue.drop_utf8]
    exact opener_utf8_of_prefix hpart (List.prefix_append ..)
  have hstart : (utf8 before).length + part.length = (utf8 (before ++ part)).length := by
    rw [utf8_length_append, utf8_of_ascii fun c hc => (plain_of_mem_openers hpart c hc).1,
      List.length_map]
  have htake : (name ++ after).takeWhile (fun c => decide (c ≠ '>')) = name := by
    have hall : ∀ c ∈ name, decide (c ≠ '>') = true := fun c hc =>
      decide_eq_true fun heq => hname (heq ▸ hc)
    rw [List.takeWhile_append_of_pos hall]
    rcases hafter with rfl | ⟨rest, rfl⟩ <;> simp
  have hstop : skipWhile (utf8 (before ++ (part ++ (name ++ after)))) (· ≠ 62)
      (utf8 (before ++ part)).length = (utf8 (before ++ (part ++ name))).length := by
    have hbyte : ∀ c, ∀ b ∈ String.utf8EncodeChar c, decide (b ≠ 62) = decide (c ≠ '>') := by
      intro c b hb
      have heq : b = 62 ↔ c = '>' := eq_iff_of_mem_utf8EncodeChar (by decide) hb
      simp [heq]
    rw [← List.append_assoc, KeyValue.skipWhile_utf8 hbyte, htake, List.append_assoc]
  have hhead := slice_utf8 before part (name ++ after)
  have hpiece := slice_utf8 (before ++ part) name after
  rw [List.append_assoc, List.append_assoc] at hpiece
  have hi : (utf8 before).length < (utf8 (before ++ (part ++ (name ++ after)))).length := by
    obtain ⟨rest, rfl⟩ := exists_cons_of_mem_openers hpart
    simp [Char.utf8Size_pos]
  conv_lhs => rw [mangleFrom, dif_pos hi]
  split
  · next prefixLen hsome =>
      obtain rfl := Option.some.inj (hopener.symm.trans hsome)
      simp only [hstart, hstop, hhead, hpiece, Option.bind_eq_bind, Option.bind_some]
      cases mangleFrom _ (utf8 (before ++ (part ++ name))).length <;> rfl
  · next hnone => rw [hopener] at hnone; exact nomatch hnone

/-! ### The whole loop -/

/-- No group that was opened before `after` is open. -/
def IsFresh (before after : List Char) : Prop :=
  ∀ first tail, before = first ++ tail → tail ≠ [] → ∀ part ∈ openers, part <+: tail ++ after →
    '>' ∈ tail

theorem IsFresh.not_opened {before after : List Char} (h : IsFresh before after) :
    ¬ Opened before := by
  rintro ⟨first, part, hpart, name, hname, rfl⟩
  have hne : part ++ name ≠ [] := by
    obtain ⟨rest, rfl⟩ := exists_cons_of_mem_openers hpart
    exact nofun
  have hmem := h first (part ++ name) rfl hne part hpart ⟨name ++ after, by simp⟩
  rcases List.mem_append.mp hmem with hmem | hmem
  · exact (plain_of_mem_openers hpart _ hmem).2.2 rfl
  · exact hname hmem

theorem IsFresh.char {before after : List Char} {c : Char} (h : IsFresh before (c :: after))
    (hnone : ∀ part ∈ openers, ¬ part <+: c :: after) : IsFresh (before ++ [c]) after := by
  intro first tail hsplit hne part hpart hprefix
  rcases List.append_eq_append_iff.mp hsplit with ⟨more, rfl, hmore⟩ | ⟨more, rfl, rfl⟩
  · cases more with
    | nil =>
        obtain rfl := hmore
        exact absurd hprefix (hnone part hpart)
    | cons d more =>
        have hnil : more = [] ∧ tail = [] := by simpa using congrArg List.length hmore
        exact absurd hnil.2 hne
  · cases more with
    | nil => exact absurd hprefix (hnone part hpart)
    | cons d more =>
        have hmem := h first (d :: more) rfl nofun part hpart (by simpa using hprefix)
        exact List.mem_append_left _ hmem

theorem isFresh_closed (before after : List Char) : IsFresh (before ++ ['>']) after := by
  intro first tail hsplit hne _ _ _
  rcases List.append_eq_append_iff.mp hsplit with ⟨more, -, hmore⟩ | ⟨more, -, rfl⟩
  · cases more with
    | nil =>
        obtain rfl : tail = ['>'] := hmore.symm
        exact List.mem_cons_self
    | cons d more =>
        have hnil : more = [] ∧ tail = [] := by simpa using congrArg List.length hmore
        exact absurd hnil.2 hne
  · exact List.mem_append_right _ List.mem_cons_self

theorem mangleText_append (before first second : List Char) :
    mangleText before (first ++ second) =
      mangleText before first ++ mangleText (before ++ first) second := by
  induction first generalizing before with
  | nil => simp [mangleText]
  | cons c first ih =>
      rw [List.cons_append, mangleText, ih, mangleText, List.append_assoc, List.append_assoc]
      rfl

theorem byteChars_ascii {c : Char} (hc : c.toNat < 128) : byteChars c = [c] := by
  rw [byteChars, utf8EncodeChar_ascii hc, List.map_singleton, ofNat_toNat_of_ascii hc]

theorem written_plain {before : List Char} {c : Char} (hc : c.toNat < 128) (hdot : c ≠ '.') :
    written before c = [c] := by
  unfold written
  split
  · exact mangleName_cons hdot []
  · exact byteChars_ascii hc

theorem mangleText_plain {before text : List Char} (h : ∀ c ∈ text, c.toNat < 128 ∧ c ≠ '.') :
    mangleText before text = text := by
  induction text generalizing before with
  | nil => rfl
  | cons c text ih =>
      obtain ⟨⟨hc, hdot⟩, htext⟩ := List.forall_mem_cons.mp h
      rw [mangleText, written_plain hc hdot, ih htext]
      rfl

/-- In a name that is open the dots are written as markers. -/
theorem mangleText_name {before name : List Char} (h : Opened before) (hname : '>' ∉ name) :
    mangleText before name = mangleName name := by
  induction name generalizing before with
  | nil => rfl
  | cons c name ih =>
      obtain ⟨hc, hrest⟩ := not_or.mp (mt List.mem_cons.mpr hname)
      have hnext : Opened (before ++ [c]) := by
        obtain ⟨first, part, hpart, done, hdone, rfl⟩ := h
        refine ⟨first, part, hpart, done ++ [c], ?_, by simp⟩
        rw [List.mem_append, List.mem_singleton]
        exact not_or.mpr ⟨hdone, hc⟩
      rw [mangleText, written, if_pos h, ih hnext hrest]
      simp [mangleName]

theorem exists_name (text : List Char) : ∃ name after, text = name ++ after ∧ '>' ∉ name ∧
    (after = [] ∨ ∃ rest, after = '>' :: rest) := by
  induction text with
  | nil => exact ⟨[], [], rfl, List.not_mem_nil, .inl rfl⟩
  | cons c text ih =>
      by_cases hc : c = '>'
      · exact ⟨[], c :: text, rfl, List.not_mem_nil, .inr ⟨text, by rw [hc]⟩⟩
      · obtain ⟨name, after, rfl, hname, hafter⟩ := ih
        refine ⟨c :: name, after, rfl, ?_, hafter⟩
        rw [List.mem_cons]
        exact not_or.mpr ⟨Ne.symm hc, hname⟩

theorem mangleText_opener {before name part : List Char} (hpart : part ∈ openers)
    (hname : '>' ∉ name) (after : List Char) :
    mangleText before (part ++ (name ++ after)) =
      part ++ mangleName name ++ mangleText (before ++ (part ++ name)) after := by
  have hopened : Opened (before ++ part) :=
    ⟨before, part, hpart, [], List.not_mem_nil, by rw [List.append_nil]⟩
  have hplain : ∀ c ∈ part, c.toNat < 128 ∧ c ≠ '.' := fun c hc =>
    ⟨(plain_of_mem_openers hpart c hc).1, (plain_of_mem_openers hpart c hc).2.1⟩
  rw [mangleText_append, mangleText_append, mangleText_plain hplain,
    mangleText_name hopened hname, List.append_assoc, List.append_assoc]

theorem mangleFrom_eq {before after : List Char} (h : IsFresh before after) :
    mangleFrom (before ++ after) (utf8 before).length = some (mangleText before after) := by
  induction hn : after.length using Nat.strong_induction_on generalizing before after with
  | h n ih =>
  by_cases hopen : ∃ part ∈ openers, part <+: after
  · -- a group: its name is gone through at once, and the `>` that ends it is the next character
    obtain ⟨part, hpart, rest, rfl⟩ := hopen
    obtain ⟨name, after, rfl, hname, hafter⟩ := exists_name rest
    rw [mangleFrom_opener hpart hname hafter, mangleText_opener hpart hname]
    rcases hafter with rfl | ⟨after, rfl⟩
    · have hend := mangleFrom_end (before ++ (part ++ name))
      rw [List.append_nil, hend]
      rfl
    · have hnone : ∀ other ∈ openers, ¬ other <+: '>' :: after := by
        rintro other hother hprefix
        obtain ⟨more, rfl⟩ := exists_cons_of_mem_openers hother
        exact absurd (List.cons_prefix_cons.mp hprefix).1 (by decide)
      have hlength : after.length < n := by
        rw [← hn]
        simp only [List.length_append, List.length_cons]
        omega
      have hnext := ih after.length hlength (isFresh_closed (before ++ (part ++ name)) after) rfl
      have hchar := @mangleFrom_char (before ++ (part ++ name)) _ _ hnone
      simp only [List.append_assoc, List.singleton_append] at hnext hchar ⊢
      rw [hchar, hnext, mangleText, written_plain (by decide) (by decide),
        byteChars_ascii (by decide)]
      simp
  · push Not at hopen
    cases after with
    | nil =>
        have hend := mangleFrom_end before
        rwa [List.append_nil]
    | cons c after =>
        have hnext := ih after.length (by simp [← hn]) (h.char hopen) rfl
        rw [mangleFrom_char hopen]
        rw [List.append_assoc, List.singleton_append] at hnext
        rw [hnext, mangleText, written, if_neg h.not_opened]
        rfl

theorem manglePattern_eq (pattern : List Char) :
    manglePattern pattern = some (mangleText [] pattern) := by
  refine @mangleFrom_eq [] pattern fun first tail hsplit hne => ?_
  exact absurd (List.append_eq_nil_iff.mp hsplit.symm).2 hne

/-! ### What changes -/

/-- The pattern with the dots in the names of its groups written as markers, where `isName` says
which characters those are. -/
def renameGroups (isName : ℕ → Bool) (i : ℕ) : List Char → List Char
  | [] => []
  | c :: rest =>
    (if isName i then mangleName [c] else [c]) ++ renameGroups isName (i + 1) rest

/-- Only a character of a name is not ASCII, and only a dot of a name stands in an open name. -/
structure IsKept (isName : ℕ → Bool) (before : List Char) (c : Char) : Prop where
  ascii : 128 ≤ c.toNat → Opened before
  dot : c = '.' → Opened before → isName before.length

variable {isName : ℕ → Bool}

theorem mangleName_singleton {c : Char} (hc : c ≠ '.') : mangleName [c] = [c] :=
  mangleName_cons hc []

theorem length_byteChars {c : Char} (hc : 128 ≤ c.toNat) : 2 ≤ (byteChars c).length := by
  have hsize : c.utf8Size ≠ 1 := fun h => by
    have hle : c.toNat ≤ 127 := UInt32.le_iff_toNat_le.mp (Char.utf8Size_eq_one_iff.mp h)
    omega
  have hpos := c.utf8Size_pos
  rw [byteChars, List.length_map, String.length_utf8EncodeChar]
  omega

theorem written_cases {before : List Char} {c : Char}
    (hname : isName before.length → Opened before) :
    (IsKept isName before c ∧
      written before c = if isName before.length then mangleName [c] else [c]) ∨
    (¬ IsKept isName before c ∧
      (if isName before.length then mangleName [c] else [c]).length <
        (written before c).length) := by
  by_cases hopened : Opened before
  · rw [written, if_pos hopened]
    by_cases hdot : c = '.'
    · subst hdot
      by_cases hin : isName before.length
      · exact .inl ⟨⟨fun _ => hopened, fun _ _ => hin⟩, (if_pos hin).symm⟩
      · rw [if_neg hin]
        exact .inr ⟨fun h => hin (h.dot rfl hopened), by decide⟩
    · rw [mangleName_singleton hdot, ite_self]
      exact .inl ⟨⟨fun _ => hopened, fun h => absurd h hdot⟩, rfl⟩
  · have hin : ¬ isName before.length := fun h => hopened (hname h)
    rw [written, if_neg hopened, if_neg hin]
    by_cases hc : c.toNat < 128
    · exact .inl ⟨⟨fun h => absurd h (by omega), fun _ h => absurd h hopened⟩, byteChars_ascii hc⟩
    · have hle : 128 ≤ c.toNat := by omega
      exact .inr ⟨fun h => hopened (h.ascii hle), length_byteChars hle⟩

theorem length_renameGroups_le {before after : List Char}
    (hname : ∀ first c rest, after = first ++ c :: rest →
      isName (before ++ first).length → Opened (before ++ first)) :
    (renameGroups isName before.length after).length ≤ (mangleText before after).length ∧
    (mangleText before after = renameGroups isName before.length after ↔
      ∀ first c rest, after = first ++ c :: rest → IsKept isName (before ++ first) c) := by
  induction after generalizing before with
  | nil => exact ⟨le_rfl, iff_of_true rfl fun first c rest h => by simp at h⟩
  | cons c after ih =>
      have hhead : isName before.length → Opened before := by
        simpa using hname [] c after rfl
      have hrest := @ih (before ++ [c]) fun first d rest hsplit => by
        simpa using hname (c :: first) d rest (by rw [hsplit]; rfl)
      have hlength : (before ++ [c]).length = before.length + 1 := List.length_append
      rw [hlength] at hrest
      obtain ⟨hle, hiff⟩ := hrest
      have hall : (∀ first d rest, c :: after = first ++ d :: rest →
            IsKept isName (before ++ first) d) ↔
          IsKept isName before c ∧ ∀ first d rest, after = first ++ d :: rest →
            IsKept isName (before ++ [c] ++ first) d := by
        constructor
        · refine fun h => ⟨by simpa using h [] c after rfl, fun first d rest hsplit => ?_⟩
          simpa using h (c :: first) d rest (by rw [hsplit]; rfl)
        · rintro ⟨hc, h⟩ first d rest hsplit
          cases first with
          | nil =>
              obtain ⟨rfl, -⟩ := List.cons.inj hsplit
              simpa using hc
          | cons e first =>
              obtain ⟨rfl, hrest⟩ := List.cons.inj hsplit
              simpa using h first d rest hrest
      rw [hall, ← hiff, mangleText, renameGroups, List.length_append, List.length_append]
      rcases @written_cases _ before c hhead with ⟨hkept, heq⟩ | ⟨hkept, hlt⟩
      · rw [heq]
        refine ⟨by omega, ?_⟩
        rw [List.append_cancel_left_eq, and_iff_right hkept]
      · refine ⟨by omega, iff_of_false (fun h => ?_) fun h => hkept h.1⟩
        have := congrArg List.length h
        rw [List.length_append, List.length_append] at this
        omega

/-- **The pattern is kept but for the dots in its names exactly when every character is.** -/
theorem manglePattern_eq_iff {pattern : List Char}
    (hname : ∀ before c after, pattern = before ++ c :: after →
      isName before.length → Opened before) :
    manglePattern pattern = some (renameGroups isName 0 pattern) ↔
      ∀ before c after, pattern = before ++ c :: after → IsKept isName before c := by
  rw [manglePattern_eq, Option.some_inj]
  exact (@length_renameGroups_le _ [] pattern hname).2

/-- **Mangling keeps a pattern but for the dots in its names, gives back every name in which
nothing is read as a marker, and tells such names apart.** -/
theorem mangling_faithful {pattern : List Char}
    (hname : ∀ before c after, pattern = before ++ c :: after →
      isName before.length → Opened before)
    (hkept : ∀ before c after, pattern = before ++ c :: after → IsKept isName before c) :
    manglePattern pattern = some (renameGroups isName 0 pattern) ∧
      (∀ name, demangle (mangleName name) = name ↔ ¬ IsMisread name) ∧
      ∀ name other, ¬ IsMisread name → ¬ IsMisread other → name ≠ other →
        mangleName name ≠ mangleName other :=
  ⟨(manglePattern_eq_iff hname).mpr hkept, fun _ => demangle_mangleName_iff,
    fun _ _ h hother hne heq => hne (mangleName_injOn h hother heq)⟩

theorem mangling_faithful_group :
    manglePattern "(?P<a.b>x)".toList = some "(?P<a__DOT__b>x)".toList ∧
      demangle (mangleName "a.b".toList) = "a.b".toList ∧
        mangleName "a.b".toList ≠ mangleName "a.c".toList := by
  have hname : ∀ before c after, "(?P<a.b>x)".toList = before ++ c :: after →
      decide (4 ≤ before.length ∧ before.length < 7) = true → Opened before := by
    intro before c after hsplit hin
    have hbefore : before = "(?P<a.b>x)".toList.take before.length := by
      rw [hsplit, List.take_left]
    obtain ⟨hle, hlt⟩ := of_decide_eq_true hin
    obtain h | h | h : before.length = 4 ∨ before.length = 5 ∨ before.length = 6 := by omega
    all_goals rw [h] at hbefore; subst hbefore
    · exact ⟨[], "(?P<".toList, by decide, [], by decide, rfl⟩
    · exact ⟨[], "(?P<".toList, by decide, "a".toList, by decide, rfl⟩
    · exact ⟨[], "(?P<".toList, by decide, "a.".toList, by decide, rfl⟩
  have hkept : ∀ before c after, "(?P<a.b>x)".toList = before ++ c :: after →
      IsKept (fun i => decide (4 ≤ i ∧ i < 7)) before c := by
    intro before c after hsplit
    refine ⟨fun hc => ?_, fun hdot _ => ?_⟩
    · have hall : ∀ d ∈ "(?P<a.b>x)".toList, d.toNat < 128 := by decide
      have := hall c (hsplit ▸ List.mem_append_right _ List.mem_cons_self)
      omega
    · have hget : "(?P<a.b>x)".toList[before.length]? = some '.' := by
        rw [hsplit, List.getElem?_append_right le_rfl, Nat.sub_self, hdot]
        rfl
      have hlt : before.length < 10 := (List.getElem?_eq_some_iff.mp hget).1
      have hdots : ∀ n < 10, "(?P<a.b>x)".toList[n]? = some '.' →
          decide (4 ≤ n ∧ n < 7) = true := by decide
      exact hdots before.length hlt hget
  obtain ⟨hpattern, hgiven, hapart⟩ := mangling_faithful hname hkept
  exact ⟨hpattern, (hgiven _).mpr (not_isMisread (by decide)),
    hapart _ _ (not_isMisread (by decide)) (not_isMisread (by decide)) (by decide)⟩

/-- A name that holds the marker is read as another. -/
theorem marker_read_as_dot :
    "a.b".toList ≠ "a__DOT__b".toList ∧
      mangleName "a.b".toList = mangleName "a__DOT__b".toList ∧
        demangle (mangleName "a__DOT__b".toList) = "a.b".toList := by
  have hmangled : mangleName "a__DOT__b".toList = mangleName "a.b".toList := by decide
  refine ⟨by decide, hmangled.symm, ?_⟩
  rw [hmangled]
  exact demangle_mangleName_iff.mpr (not_isMisread (by decide))

end Patterns

end Limpid.Functions.RegexParse
