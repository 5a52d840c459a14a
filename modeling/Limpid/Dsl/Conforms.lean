import Limpid.Dsl.Schema

/-!
# What a schema accepts

`Conforms` says when a list of properties fits a schema: every key is declared, not quoted and has a
value of its kind, at every depth.  The validator reports nothing exactly for these lists
(`validate_eq_nil_iff`).
-/

namespace Limpid.Dsl.Schema

variable {upper : Char → List Char}

section Accepts

variable (upper)

mutual

/-- The property is of the kind. -/
inductive Accepts : PropertyValueKind → Property → Prop where
  | stringLit {key : String} {quoted : Bool} (s : String) :
      Accepts .string (.keyValue key quoted (.stringLit s))
  | stringTemplate {key : String} {quoted : Bool} (frags : List TemplateFragment) :
      Accepts .string (.keyValue key quoted (.template frags))
  | stringIdent {key : String} {quoted : Bool} (parts : List String) :
      Accepts .string (.keyValue key quoted (.ident parts))
  | stringInt {key : String} {quoted : Bool} (n : Int64) :
      Accepts .string (.keyValue key quoted (.intLit n))
  | int {key : String} {quoted : Bool} (n : Int64) :
      Accepts .int (.keyValue key quoted (.intLit n))
  | bool {key : String} {quoted : Bool} (b : Bool) :
      Accepts .bool (.keyValue key quoted (.boolLit b))
  | boolIdent {key : String} {quoted : Bool} {word : String} (h : word = "true" ∨ word = "false") :
      Accepts .bool (.keyValue key quoted (.ident [word]))
  | duration {key : String} {quoted : Bool} {s : String} {duration : Props.Duration}
      (h : Props.parseDuration s = .ok duration) :
      Accepts .duration (.keyValue key quoted (.stringLit s))
  | size {key : String} {quoted : Bool} {s : String} {size : ℕ}
      (h : Props.parseSize upper s = .ok size) :
      Accepts .size (.keyValue key quoted (.stringLit s))
  | enum {key : String} {quoted : Bool} {allowed : List String} {word : String}
      (h : word ∈ allowed) : Accepts (.enum allowed) (.keyValue key quoted (.ident [word]))
  | block {key : String} {quoted : Bool} {inner : List PropertySpec} {properties : List Property}
      (h : Conforms inner properties) : Accepts (.block inner) (.block key quoted properties)
  | blockMap {key : String} {quoted : Bool} {inner : List PropertySpec}
      {properties : List Property}
      (bare : ∀ prop ∈ properties, prop.keyQuoted = false)
      (blocks : ∀ prop ∈ properties, prop.isBlock = true)
      (conforms : ∀ k q entry, .block k q entry ∈ properties → Conforms inner entry) :
      Accepts (.blockMap inner) (.block key quoted properties)
  | stringMap {key : String} {quoted : Bool} {entries : List (String × Expr)}
      (h : ∀ entry ∈ entries, ∃ s, entry.2 = .stringLit s) :
      Accepts .stringMap (.keyValue key quoted (.hashLit entries))
  | emptyStringMap {key : String} {quoted : Bool} : Accepts .stringMap (.block key quoted [])
  | oneOf {variants : List PropertyValueKind} {kind : PropertyValueKind} {prop : Property}
      (mem : kind ∈ variants) (h : Accepts kind prop) : Accepts (.oneOf variants) prop

/-- The properties fit the schema. -/
inductive Conforms : List PropertySpec → List Property → Prop where
  | intro {spec : List PropertySpec} {props : List Property}
      (bare : ∀ prop ∈ props, prop.keyQuoted = false)
      (declared : ∀ prop ∈ props, (lookup spec prop.key).isSome)
      (accepted : ∀ prop ∈ props, ∀ s, lookup spec prop.key = some s → Accepts s.kind prop)
      (once : ∀ key s, lookup spec key = some s → s.repeatable = false →
        (props.filter (·.key = key)).length ≤ 1)
      (required : ∀ s ∈ spec, s.required = true → ∃ prop ∈ props, prop.key = s.name)
      (exclusive : ∀ group, ∀ p ∈ props, ∀ q ∈ props,
        (lookup spec p.key).bind (·.exclusiveGroup) = some group →
        (lookup spec q.key).bind (·.exclusiveGroup) = some group → p.key = q.key) :
      Conforms spec props

end

end Accepts

/-! ### The loop -/

/-- What the loop has to find for a list of properties so that it reports nothing. -/
structure Fine (upper : Char → List Char) (spec : List PropertySpec) (props : List Property) :
    Prop where
  bare : ∀ prop ∈ props, prop.keyQuoted = false
  declared : ∀ prop ∈ props, (lookup spec prop.key).isSome
  checked : ∀ prop ∈ props, ∀ s, lookup spec prop.key = some s →
    checkProperty upper s.kind prop.key prop = []
  once : ∀ key s, lookup spec key = some s → s.repeatable = false →
    (props.filter (·.key = key)).length ≤ 1

/-- The names of a group. -/
def namesOf (groups : List (String × List String)) (group : String) : List String :=
  (groups.lookup group).getD []

theorem namesOf_pushGroup (group name g : String) (groups : List (String × List String)) :
    namesOf (pushGroup group name groups) g =
      if g = group then namesOf groups g ++ [name] else namesOf groups g := by
  rw [namesOf, pushGroup, Entries.lookup_insert]
  split
  case isTrue h => rw [h, Option.getD_some, namesOf]
  case isFalse => rfl

/-- The group that a property belongs to. -/
def groupOf (spec : List PropertySpec) (key : String) : Option String :=
  (lookup spec key).bind (·.exclusiveGroup)

/-- The state of the loop after the properties. -/
structure Scanned (upper : Char → List Char) (spec : List PropertySpec) (props : List Property)
    (scan : Scan) : Prop where
  errs : scan.errs = [] ↔ Fine upper spec props
  seen : Fine upper spec props → ∀ key, key ∈ scan.seen ↔ ∃ prop ∈ props, prop.key = key
  groups : Fine upper spec props → ∀ group name,
    name ∈ namesOf scan.exclusiveGroups group ↔
      groupOf spec name = some group ∧ ∃ prop ∈ props, prop.key = name
  nodup : (Entries.keys scan.exclusiveGroups).Nodup

theorem fine_append {spec : List PropertySpec} {props : List Property} {prop : Property} :
    Fine upper spec (props ++ [prop]) ↔ Fine upper spec props ∧ prop.keyQuoted = false ∧
      ∃ s, lookup spec prop.key = some s ∧ checkProperty upper s.kind prop.key prop = [] ∧
        (s.repeatable = false → ∀ earlier ∈ props, earlier.key ≠ prop.key) := by
  constructor
  · intro h
    refine ⟨⟨fun p hp => h.bare p (by simp [hp]), fun p hp => h.declared p (by simp [hp]),
      fun p hp => h.checked p (by simp [hp]), ?_⟩, h.bare prop (by simp), ?_⟩
    · intro key s hs hrepeatable
      have hle := h.once key s hs hrepeatable
      rw [List.filter_append, List.length_append] at hle
      omega
    · obtain ⟨s, hs⟩ := Option.isSome_iff_exists.mp (h.declared prop (by simp))
      refine ⟨s, hs, h.checked prop (by simp) s hs, ?_⟩
      intro hrepeatable earlier hearlier hkey
      have hle := h.once prop.key s hs hrepeatable
      have hpos := List.length_pos_of_mem
        (List.mem_filter.mpr ⟨hearlier, by simpa using hkey⟩ :
          earlier ∈ props.filter (·.key = prop.key))
      have hlast : ([prop].filter (·.key = prop.key)).length = 1 := by simp
      rw [List.filter_append, List.length_append] at hle
      omega
  · rintro ⟨h, hbare, s, hs, hcheck, hfirst⟩
    refine ⟨?_, ?_, ?_, ?_⟩
    · intro p hp
      rcases List.mem_append.mp hp with hp | hp
      · exact h.bare p hp
      · rwa [List.mem_singleton.mp hp]
    · intro p hp
      rcases List.mem_append.mp hp with hp | hp
      · exact h.declared p hp
      · rw [List.mem_singleton.mp hp, hs, Option.isSome_some]
    · intro p hp t ht
      rcases List.mem_append.mp hp with hp | hp
      · exact h.checked p hp t ht
      · rw [List.mem_singleton.mp hp] at ht ⊢
        rw [hs] at ht
        cases ht
        exact hcheck
    · intro key t ht hrepeatable
      rw [List.filter_append, List.length_append]
      by_cases hkey : prop.key = key
      · subst hkey
        rw [hs] at ht
        cases ht
        -- the key has not come before
        have hnone : props.filter (·.key = prop.key) = [] := by
          rw [List.filter_eq_nil_iff]
          intro earlier hearlier
          simpa using hfirst hrepeatable earlier hearlier
        simp [hnone]
      · simpa [hkey] using h.once key t ht hrepeatable

theorem validateStep_quoted (declared : List Declared) (scan : Scan) {prop : Property}
    (h : prop.keyQuoted = true) :
    validateStep declared scan prop =
      { scan with errs := scan.errs ++ [⟨.quotedKeyOutsideStringMap, prop.key, none⟩] } := by
  rw [validateStep, quotedKeyError, if_pos h]

variable (upper) in
theorem validateStep_unknown (spec : List PropertySpec) (scan : Scan) {prop : Property}
    (hbare : prop.keyQuoted = false) (h : lookup spec prop.key = none) :
    ∃ error, validateStep (declare upper spec) scan prop =
      { scan with errs := scan.errs ++ [error] } := by
  rw [validateStep, quotedKeyError, if_neg (by simp [hbare])]
  dsimp only
  rw [find?_declare, h]
  exact ⟨_, rfl⟩

theorem validateStep_declared (spec : List PropertySpec) (scan : Scan) {prop : Property}
    {s : PropertySpec} (hbare : prop.keyQuoted = false) (h : lookup spec prop.key = some s) :
    validateStep (declare upper spec) scan prop =
      { errs := scan.errs ++
          (if prop.key ∈ scan.seen ∧ s.repeatable = false then
            [⟨.duplicateKey, prop.key, none⟩] else []) ++
          checkProperty upper s.kind prop.key prop
        seen := prop.key :: scan.seen
        exclusiveGroups :=
          match s.exclusiveGroup with
          | some group => pushGroup group prop.key scan.exclusiveGroups
          | none => scan.exclusiveGroups } := by
  rw [validateStep, quotedKeyError, if_neg (by simp [hbare])]
  dsimp only
  rw [find?_declare, h]
  rfl

/-- After a property that is reported at once nothing is fine any more. -/
theorem Scanned.report {spec : List PropertySpec} {props : List Property} {scan : Scan}
    (h : Scanned upper spec props scan) {prop : Property} (error : SchemaError)
    (hprop : prop.keyQuoted = true ∨ lookup spec prop.key = none) :
    Scanned upper spec (props ++ [prop]) { scan with errs := scan.errs ++ [error] } := by
  have hnot : ¬ Fine upper spec (props ++ [prop]) := by
    rw [fine_append]
    rintro ⟨-, hbare, s, hs, -⟩
    rcases hprop with hprop | hprop
    · simp [hbare] at hprop
    · simp [hs] at hprop
  exact ⟨iff_of_false (by simp) hnot, fun hfine => absurd hfine hnot,
    fun hfine => absurd hfine hnot, h.nodup⟩

theorem Scanned.step {spec : List PropertySpec} {props : List Property} {scan : Scan}
    (h : Scanned upper spec props scan) (prop : Property) :
    Scanned upper spec (props ++ [prop]) (validateStep (declare upper spec) scan prop) := by
  cases hbare : prop.keyQuoted with
  | true =>
      rw [validateStep_quoted _ _ hbare]
      exact h.report _ (.inl hbare)
  | false =>
      cases hs : lookup spec prop.key with
      | none =>
          obtain ⟨error, herror⟩ := validateStep_unknown upper spec scan hbare hs
          rw [herror]
          exact h.report error (.inr hs)
      | some s =>
          rw [validateStep_declared spec scan hbare hs]
          refine ⟨?_, ?_, ?_, ?_⟩
          · -- a duplicate is seen only when all before it is fine
            simp only [List.append_eq_nil_iff, h.errs, fine_append]
            constructor
            · rintro ⟨⟨hfine, hduplicate⟩, hcheck⟩
              refine ⟨hfine, hbare, s, hs, hcheck, ?_⟩
              intro hrepeatable earlier hearlier hkey
              rw [if_pos ⟨(h.seen hfine _).mpr ⟨earlier, hearlier, hkey⟩, hrepeatable⟩] at hduplicate
              cases hduplicate
            · rintro ⟨hfine, -, t, ht, hcheck, hfirst⟩
              rw [hs] at ht
              cases ht
              refine ⟨⟨hfine, if_neg ?_⟩, hcheck⟩
              rintro ⟨hseen, hrepeatable⟩
              obtain ⟨earlier, hearlier, hkey⟩ := (h.seen hfine _).mp hseen
              exact hfirst hrepeatable earlier hearlier hkey
          · intro hfine key
            have hseen := h.seen (fine_append.mp hfine).1 key
            simp only [List.mem_cons, hseen, List.mem_append, List.not_mem_nil, or_false]
            constructor
            · rintro (rfl | ⟨p, hp, hkey⟩)
              · exact ⟨prop, .inr rfl, rfl⟩
              · exact ⟨p, .inl hp, hkey⟩
            · rintro ⟨p, hp | rfl, hkey⟩
              · exact .inr ⟨p, hp, hkey⟩
              · exact .inl hkey.symm
          · -- the names of a group, as far as they have been seen
            intro hfine group name
            have hgroups := h.groups (fine_append.mp hfine).1 group name
            have hmem : (∃ p ∈ props ++ [prop], p.key = name) ↔
                (∃ p ∈ props, p.key = name) ∨ prop.key = name := by
              simp [or_and_right, exists_or]
            rw [hmem]
            cases hgroup : s.exclusiveGroup with
            | none =>
                dsimp only
                rw [hgroups]
                constructor
                · rintro ⟨hof, hp⟩
                  exact ⟨hof, .inl hp⟩
                · rintro ⟨hof, hp | rfl⟩
                  · exact ⟨hof, hp⟩
                  · simp [groupOf, hs, hgroup] at hof
            | some g =>
                dsimp only
                rw [namesOf_pushGroup]
                have hof : groupOf spec prop.key = some g := by simp [groupOf, hs, hgroup]
                split
                case isTrue heq =>
                  subst heq
                  rw [List.mem_append, hgroups, List.mem_singleton]
                  constructor
                  · rintro (⟨hname, hp⟩ | rfl)
                    · exact ⟨hname, .inl hp⟩
                    · exact ⟨hof, .inr rfl⟩
                  · rintro ⟨hname, hp | rfl⟩
                    · exact .inl ⟨hname, hp⟩
                    · exact .inr rfl
                case isFalse hne =>
                  rw [hgroups]
                  constructor
                  · rintro ⟨hname, hp⟩
                    exact ⟨hname, .inl hp⟩
                  · rintro ⟨hname, hp | rfl⟩
                    · exact ⟨hname, hp⟩
                    · rw [hof] at hname
                      exact absurd (Option.some.inj hname).symm hne
          · cases s.exclusiveGroup with
            | none => exact h.nodup
            | some group => exact Entries.nodup_insert h.nodup _ _

variable (upper) in
theorem scanned_foldl (spec : List PropertySpec) (props : List Property) :
    Scanned upper spec props (props.foldl (validateStep (declare upper spec)) ⟨[], [], []⟩) := by
  induction props using List.reverseRecOn with
  | nil =>
      refine ⟨iff_of_true rfl ⟨by simp, by simp, by simp, by simp⟩, ?_, ?_, List.nodup_nil⟩
      · intro _ key
        simp
      · intro _ group name
        simp [namesOf]
  | append_singleton props prop ih =>
      rw [List.foldl_append]
      exact ih.step prop

theorem missingRequired_eq_nil_iff {spec : List PropertySpec} {seen : List String} :
    missingRequired (declare upper spec) seen = [] ↔
      ∀ s ∈ spec, s.required = true → s.name ∈ seen := by
  rw [missingRequired, List.filterMap_eq_nil_iff, declare_eq, List.forall_mem_map]
  refine forall₂_congr fun s _ => ?_
  simp

theorem dedup_length_le_one_iff {names : List String} :
    (names.mergeSort fun a b => decide (a ≤ b)).dedup.length ≤ 1 ↔
      ∀ a ∈ names, ∀ b ∈ names, a = b := by
  rw [← List.card_toFinset, Finset.card_le_one]
  simp only [List.mem_toFinset, List.mem_mergeSort]

theorem mem_iff_lookup_of_nodup {groups : List (String × List String)}
    (h : (Entries.keys groups).Nodup) {group : String} {names : List String} :
    (group, names) ∈ groups ↔ groups.lookup group = some names := by
  constructor
  · intro hmem
    cases hlookup : groups.lookup group with
    | none =>
        rw [Entries.lookup_eq_none_iff] at hlookup
        exact absurd (List.mem_map.mpr ⟨(group, names), hmem, rfl⟩) hlookup
    | some found =>
        obtain ⟨before, after, rfl, -⟩ := List.lookup_eq_some_iff.mp hlookup
        have hfound : (group, found) ∈ before ++ (group, found) :: after := by simp
        rw [Entries.eq_of_mem h hmem hfound]
  · intro hlookup
    obtain ⟨before, after, rfl, -⟩ := List.lookup_eq_some_iff.mp hlookup
    simp

theorem groupViolations_eq_nil_iff {groups : List (String × List String)}
    (h : (Entries.keys groups).Nodup) :
    groupViolations groups = [] ↔
      ∀ group, ∀ a ∈ namesOf groups group, ∀ b ∈ namesOf groups group, a = b := by
  rw [groupViolations, List.filterMap_eq_nil_iff]
  constructor
  · intro hnone group
    unfold namesOf
    cases hlookup : groups.lookup group with
    | none => simp
    | some names =>
        rw [Option.getD_some, ← dedup_length_le_one_iff]
        have hentry := hnone _ ((mem_iff_lookup_of_nodup h).mpr hlookup)
        by_contra! hlt
        dsimp only at hentry
        rw [if_pos hlt] at hentry
        cases hentry
  · rintro hequal ⟨group, names⟩ hmem
    have hnames : namesOf groups group = names := by
      rw [namesOf, (mem_iff_lookup_of_nodup h).mp hmem, Option.getD_some]
    have hle := dedup_length_le_one_iff.mpr (hnames ▸ hequal group)
    dsimp only
    rw [if_neg (by omega)]

/-! ### The validator -/

theorem validateWith_eq_nil_iff {spec : List PropertySpec} {props : List Property} :
    validateWith (declare upper spec) props = [] ↔
      Fine upper spec props ∧
        (∀ s ∈ spec, s.required = true → ∃ prop ∈ props, prop.key = s.name) ∧
        ∀ group, ∀ p ∈ props, ∀ q ∈ props, groupOf spec p.key = some group →
          groupOf spec q.key = some group → p.key = q.key := by
  have h := scanned_foldl upper spec props
  rw [validateWith, List.append_eq_nil_iff, List.append_eq_nil_iff, h.errs, missingRequired_eq_nil_iff,
    groupViolations_eq_nil_iff h.nodup, and_assoc]
  refine and_congr_right fun hfine => and_congr ?_ ?_
  · refine forall₂_congr fun s _ => ?_
    rw [h.seen hfine]
  · refine forall_congr' fun group => ?_
    simp only [h.groups hfine]
    constructor
    · intro hequal p hp q hq hpGroup hqGroup
      exact hequal _ ⟨hpGroup, p, hp, rfl⟩ _ ⟨hqGroup, q, hq, rfl⟩
    · rintro hequal a ⟨haGroup, p, hp, rfl⟩ b ⟨hbGroup, q, hq, rfl⟩
      exact hequal p hp q hq haGroup hbGroup

theorem conforms_iff {spec : List PropertySpec} {props : List Property}
    (h : ∀ s ∈ spec, ∀ key prop, checkProperty upper s.kind key prop = [] ↔
      Accepts upper s.kind prop) :
    validateWith (declare upper spec) props = [] ↔ Conforms upper spec props := by
  rw [validateWith_eq_nil_iff]
  constructor
  · rintro ⟨hfine, hrequired, hexclusive⟩
    refine .intro hfine.bare hfine.declared ?_ hfine.once hrequired hexclusive
    intro prop hprop s hs
    exact (h s (mem_of_lookup hs).1 _ _).mp (hfine.checked prop hprop s hs)
  · rintro ⟨hbare, hdeclared, haccepted, honce, hrequired, hexclusive⟩
    refine ⟨⟨hbare, hdeclared, ?_, honce⟩, hrequired, hexclusive⟩
    intro prop hprop s hs
    exact (h s (mem_of_lookup hs).1 _ _).mpr (haccepted prop hprop s hs)

theorem validateBlockMapWith_eq_nil_iff {declared : List Declared} {properties : List Property} :
    validateBlockMapWith declared properties = [] ↔
      (∀ prop ∈ properties, prop.keyQuoted = false) ∧
      (∀ prop ∈ properties, prop.isBlock = true) ∧
      ∀ k q entry, .block k q entry ∈ properties → validateWith declared entry = [] := by
  rw [validateBlockMapWith, List.flatMap_eq_nil_iff]
  constructor
  · intro h
    have hbare : ∀ prop ∈ properties, prop.keyQuoted = false := by
      intro prop hprop
      have hprop := h prop hprop
      by_contra hquoted
      rw [quotedKeyError, if_pos (by simpa using hquoted)] at hprop
      cases hprop
    refine ⟨hbare, ?_, ?_⟩
    · intro prop hprop
      have hcheck := h prop hprop
      rw [quotedKeyError, if_neg (by simp [hbare prop hprop])] at hcheck
      cases prop with
      | keyValue key quoted value => cases hcheck
      | block key quoted entry => rfl
    · intro k q entry hentry
      have hcheck := h _ hentry
      rwa [quotedKeyError, if_neg (by simp [hbare _ hentry])] at hcheck
  · rintro ⟨hbare, hblocks, hentries⟩ prop hprop
    rw [quotedKeyError, if_neg (by simp [hbare prop hprop])]
    cases prop with
    | keyValue key quoted value => exact absurd (hblocks _ hprop) (by simp [Property.isBlock])
    | block key quoted entry => exact hentries key quoted entry hprop

/-- A mismatch is reported only when no variant accepts, whatever is then reported. -/
theorem oneOfErrors_eq_nil_iff {key : String} {variants : List PropertyValueKind}
    {prop : Property} {perVariant : List (List SchemaError)} :
    oneOfErrors key variants prop perVariant = [] ↔ [] ∈ perVariant := by
  rw [oneOfErrors]
  split
  case isTrue h =>
    obtain ⟨errs, herrs, hempty⟩ := List.any_eq_true.mp h
    exact iff_of_true rfl (List.isEmpty_iff.mp hempty ▸ herrs)
  case isFalse h =>
    have hnone : [] ∉ perVariant := fun hmem => h (List.any_eq_true.mpr ⟨[], hmem, rfl⟩)
    dsimp only
    split
    next only honly =>
      -- the errors that are shown are those of a variant
      have hmem : only ∈ perVariant := by
        have honly : only ∈ ((variants.zip perVariant).filter fun entry =>
            entry.1.expectsBlockOuterShape == prop.isBlock).map Prod.snd := by
          rw [honly]
          exact List.mem_singleton.mpr rfl
        obtain ⟨entry, hentry, rfl⟩ := List.mem_map.mp honly
        exact (List.of_mem_zip (List.mem_of_mem_filter hentry)).2
      refine iff_of_false ?_ hnone
      rintro rfl
      exact hnone hmem
    next => exact iff_of_false (by simp) hnone

theorem validateStringMap_eq_nil_iff {key k : String} {quoted : Bool} {value : Expr} :
    validateStringMap key value = [] ↔ Accepts upper .stringMap (.keyValue k quoted value) := by
  constructor
  · intro h
    cases value with
    | hashLit entries =>
        rw [validateStringMap, List.filterMap_eq_nil_iff] at h
        apply Accepts.stringMap
        intro entry hentry
        have hentry := h entry hentry
        cases hvalue : entry.2 with
        | stringLit s => exact ⟨s, rfl⟩
        | _ => simp [hvalue] at hentry
    | _ => simp [validateStringMap] at h
  · intro h
    cases h with
    | stringMap hentries =>
        rw [validateStringMap, List.filterMap_eq_nil_iff]
        intro entry hentry
        obtain ⟨s, hs⟩ := hentries entry hentry
        rw [hs]

/-- The kinds of a single value. -/
def PropertyValueKind.IsScalar : PropertyValueKind → Prop
  | .block _ => False
  | .blockMap _ => False
  | .stringMap => False
  | .oneOf _ => False
  | _ => True

theorem checkValue_eq_none_iff {kind : PropertyValueKind} (hkind : kind.IsScalar) {key : String}
    {k : String} {quoted : Bool} {value : Expr} :
    checkValue upper key kind value = none ↔ Accepts upper kind (.keyValue k quoted value) := by
  constructor
  · intro h
    cases kind with
    | string =>
        cases value with
        | stringLit s => exact .stringLit s
        | template frags => exact .stringTemplate frags
        | ident parts => exact .stringIdent parts
        | intLit n => exact .stringInt n
        | _ => simp [checkValue] at h
    | int =>
        cases value with
        | intLit n => exact .int n
        | _ => simp [checkValue] at h
    | bool =>
        cases value with
        | boolLit b => exact .bool b
        | ident parts =>
            rcases parts with _ | ⟨word, _ | ⟨second, rest⟩⟩
            · simp [checkValue] at h
            · apply Accepts.boolIdent
              by_contra hword
              simp [checkValue, if_neg hword] at h
            · simp [checkValue] at h
        | _ => simp [checkValue] at h
    | duration =>
        cases value with
        | stringLit s =>
            cases hparse : Props.parseDuration s with
            | ok duration => exact .duration hparse
            | error message => simp [checkValue, hparse] at h
        | _ => simp [checkValue] at h
    | size =>
        cases value with
        | stringLit s =>
            cases hparse : Props.parseSize upper s with
            | ok size => exact .size hparse
            | error message => simp [checkValue, hparse] at h
        | _ => simp [checkValue] at h
    | enum allowed =>
        cases value with
        | ident parts =>
            rcases parts with _ | ⟨word, _ | ⟨second, rest⟩⟩
            · simp [checkValue] at h
            · exact .enum (by simpa [checkValue] using h)
            · simp [checkValue] at h
        | _ => simp [checkValue] at h
    | _ => exact hkind.elim
  · intro h
    cases h with
    | boolIdent hword => simp [checkValue, if_pos hword]
    | duration hparse => simp [checkValue, hparse]
    | size hparse => simp [checkValue, hparse]
    | enum hword => simpa [checkValue] using hword
    | stringMap _ => exact hkind.elim
    | oneOf _ _ => exact hkind.elim
    | _ => rfl

theorem checkScalar_eq_nil_iff {kind : PropertyValueKind} (hkind : kind.IsScalar) {key : String}
    {prop : Property} : checkScalar upper kind key prop = [] ↔ Accepts upper kind prop := by
  cases prop with
  | keyValue k quoted value =>
      rw [checkScalar, Option.toList_eq_nil_iff]
      exact checkValue_eq_none_iff hkind
  | block k quoted properties =>
      refine iff_of_false (by simp [checkScalar]) ?_
      intro h
      cases h <;> exact hkind.elim

/-- The empty block stands for the empty map. -/
theorem checkStringMap_eq_nil_iff {key : String} {prop : Property} :
    checkProperty upper .stringMap key prop = [] ↔ Accepts upper .stringMap prop := by
  cases prop with
  | keyValue k quoted value =>
      rw [checkProperty]
      exact validateStringMap_eq_nil_iff
  | block k quoted properties =>
      cases properties with
      | nil => exact iff_of_true (by rw [checkProperty]) .emptyStringMap
      | cons first rest =>
          refine iff_of_false (by simp [checkProperty]) ?_
          intro h
          cases h

/-- A block, when its inner schema has been dealt with. -/
theorem checkBlock_eq_nil_iff {inner : List PropertySpec}
    (hinner : ∀ s ∈ inner, ∀ key prop,
      checkProperty upper s.kind key prop = [] ↔ Accepts upper s.kind prop)
    {key : String} {prop : Property} :
    checkProperty upper (.block inner) key prop = [] ↔ Accepts upper (.block inner) prop := by
  cases prop with
  | keyValue k quoted value =>
      refine iff_of_false (by simp [checkProperty]) ?_
      intro h
      cases h
  | block k quoted properties =>
      rw [checkProperty, conforms_iff hinner]
      constructor
      · exact .block
      · intro h
        cases h with
        | block h => exact h

theorem checkBlockMap_eq_nil_iff {inner : List PropertySpec}
    (hinner : ∀ s ∈ inner, ∀ key prop,
      checkProperty upper s.kind key prop = [] ↔ Accepts upper s.kind prop)
    {key : String} {prop : Property} :
    checkProperty upper (.blockMap inner) key prop = [] ↔
      Accepts upper (.blockMap inner) prop := by
  cases prop with
  | keyValue k quoted value =>
      refine iff_of_false (by simp [checkProperty]) ?_
      intro h
      cases h
  | block k quoted properties =>
      rw [checkProperty, validateBlockMapWith_eq_nil_iff]
      simp only [conforms_iff hinner]
      constructor
      · rintro ⟨hbare, hblocks, hconforms⟩
        exact .blockMap hbare hblocks hconforms
      · intro h
        cases h with
        | blockMap hbare hblocks hconforms => exact ⟨hbare, hblocks, hconforms⟩

theorem checkOneOf_eq_nil_iff {variants : List PropertyValueKind}
    (hvariants : ∀ kind ∈ variants, ∀ key prop,
      checkProperty upper kind key prop = [] ↔ Accepts upper kind prop)
    {key : String} {prop : Property} :
    checkProperty upper (.oneOf variants) key prop = [] ↔
      Accepts upper (.oneOf variants) prop := by
  rw [checkProperty, oneOfErrors_eq_nil_iff, checkVariants_eq, List.mem_map]
  constructor
  · rintro ⟨kind, hkind, hnil⟩
    exact .oneOf hkind ((hvariants kind hkind key prop).mp hnil)
  · intro h
    cases h with
    | oneOf hkind h => exact ⟨_, hkind, (hvariants _ hkind key prop).mpr h⟩

mutual

/-- The check of a kind reports nothing exactly for the properties of the kind. -/
theorem checkProperty_eq_nil_iff (kind : PropertyValueKind) (key : String) (prop : Property) :
    checkProperty upper kind key prop = [] ↔ Accepts upper kind prop := by
  cases kind with
  | block inner => exact checkBlock_eq_nil_iff (declared_eq_nil_iff inner)
  | blockMap inner => exact checkBlockMap_eq_nil_iff (declared_eq_nil_iff inner)
  | stringMap => exact checkStringMap_eq_nil_iff
  | oneOf variants => exact checkOneOf_eq_nil_iff (variants_eq_nil_iff variants)
  | _ => rw [checkProperty, checkScalar_eq_nil_iff (by simp [PropertyValueKind.IsScalar])]

theorem declared_eq_nil_iff (spec : List PropertySpec) : ∀ s ∈ spec,
    ∀ (key : String) (prop : Property),
      checkProperty upper s.kind key prop = [] ↔ Accepts upper s.kind prop := by
  intro s hs key prop
  cases spec with
  | nil => cases hs
  | cons first rest =>
      cases first with
      | mk name required repeatable group kind =>
          rcases List.mem_cons.mp hs with rfl | hs
          · exact checkProperty_eq_nil_iff kind key prop
          · exact declared_eq_nil_iff rest s hs key prop

theorem variants_eq_nil_iff (variants : List PropertyValueKind) : ∀ kind ∈ variants,
    ∀ (key : String) (prop : Property),
      checkProperty upper kind key prop = [] ↔ Accepts upper kind prop := by
  intro kind hkind key prop
  cases variants with
  | nil => cases hkind
  | cons first rest =>
      rcases List.mem_cons.mp hkind with rfl | hkind
      · exact checkProperty_eq_nil_iff kind key prop
      · exact variants_eq_nil_iff rest kind hkind key prop

end

/-- **The validator accepts what fits the schema.** -/
theorem validate_eq_nil_iff {props : List Property} {spec : List PropertySpec} :
    validate upper props spec = [] ↔ Conforms upper spec props := by
  rw [validate]
  exact conforms_iff (declared_eq_nil_iff spec)

end Limpid.Dsl.Schema
