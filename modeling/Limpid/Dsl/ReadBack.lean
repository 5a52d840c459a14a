import Limpid.Dsl.Conforms
import Limpid.Dsl.Negation

/-!
# Reading back what a schema accepts

The modules read their settings with the accessors of `dsl/props.rs`.  These go by the form of a
value, on their own; the validator goes by the kind of the key.  On an accepted list the two agree,
at every depth: a key that may not be repeated has at most one property, the accessor of the kind
gives nothing (or the empty map) when there is none, and what the property says when there is one
(`reads_back`).
-/

namespace Limpid.Dsl.Schema

mutual

/-- The property as the accessors see it. -/
def Property.read : Property → Dsl.Property
  | .keyValue key _ value => .keyValue key value
  | .block key _ properties => .block key (readAll properties)

/-- The properties as the accessors read them. -/
def readAll : List Property → List Dsl.Property
  | [] => []
  | prop :: rest => prop.read :: readAll rest

end

theorem readAll_eq_map (props : List Property) : readAll props = props.map Property.read := by
  induction props with
  | nil => rw [readAll, List.map_nil]
  | cons prop props ih => rw [readAll, List.map_cons, ih]

/-- What an accessor returns. -/
inductive Setting where
  | text (s : String)
  | number (n : Int64)
  | flag (b : Bool)
  | word (w : String)
  | properties (block : List Dsl.Property)
  | entries (map : List (String × String))

section Access

variable (upper : Char → List Char) (rt : Runtime) (formats : Props.Formats)

/-- The accessor of each kind.  The reader of a `oneOf` asks with the accessors of its variants. -/
def access : PropertyValueKind → List Dsl.Property → String → Option Setting
  | .string, props, key => (Props.getString rt formats props key).map .text
  | .duration, props, key => (Props.getString rt formats props key).map .text
  | .size, props, key => (Props.getString rt formats props key).map .text
  | .int, props, key => (Props.getInt props key).map .number
  | .bool, props, key => (Props.getBool props key).map .flag
  | .enum _, props, key => (Props.getIdent props key).map .word
  | .block _, props, key => (Props.getBlock props key).map .properties
  | .blockMap _, props, key => (Props.getBlock props key).map .properties
  | .stringMap, props, key => some (.entries (Props.getStringMap props key))
  | .oneOf _, _, _ => none

/-- What the accessor of a kind gives for a key that is not there. -/
def unset : PropertyValueKind → Option Setting
  | .stringMap => some (.entries [])
  | _ => none

/-- The text of a template: its literals as they are, and each expression inside `$\x7b` and
`\x7d`. -/
inductive TemplateText : List TemplateFragment → String → Prop where
  | nil : TemplateText [] ""
  | literal (s : String) {frags : List TemplateFragment} {text : String}
      (h : TemplateText frags text) : TemplateText (.literal s :: frags) (s ++ text)
  | interp (e : Expr) {frags : List TemplateFragment} {text : String}
      (h : TemplateText frags text) :
      TemplateText (.interp e :: frags)
        ("$\x7b" ++ Props.exprSource rt formats e ++ "\x7d" ++ text)

/-- What a property of a kind says. -/
inductive Means : PropertyValueKind → Property → Setting → Prop where
  | stringLit {key : String} {quoted : Bool} (s : String) :
      Means .string (.keyValue key quoted (.stringLit s)) (.text s)
  | stringTemplate {key : String} {quoted : Bool} {frags : List TemplateFragment} {text : String}
      (h : TemplateText rt formats frags text) :
      Means .string (.keyValue key quoted (.template frags)) (.text text)
  | stringIdent {key : String} {quoted : Bool} (parts : List String) :
      Means .string (.keyValue key quoted (.ident parts)) (.text (dotted parts))
  | stringInt {key : String} {quoted : Bool} (n : Int64) :
      Means .string (.keyValue key quoted (.intLit n)) (.text (toString n.toInt))
  | int {key : String} {quoted : Bool} (n : Int64) :
      Means .int (.keyValue key quoted (.intLit n)) (.number n)
  | bool {key : String} {quoted : Bool} (b : Bool) :
      Means .bool (.keyValue key quoted (.boolLit b)) (.flag b)
  | boolTrue {key : String} {quoted : Bool} :
      Means .bool (.keyValue key quoted (.ident ["true"])) (.flag true)
  | boolFalse {key : String} {quoted : Bool} :
      Means .bool (.keyValue key quoted (.ident ["false"])) (.flag false)
  | duration {key : String} {quoted : Bool} {s : String} {duration : Props.Duration}
      (h : Props.parseDuration s = .ok duration) :
      Means .duration (.keyValue key quoted (.stringLit s)) (.text s)
  | size {key : String} {quoted : Bool} {s : String} {size : ℕ}
      (h : Props.parseSize upper s = .ok size) :
      Means .size (.keyValue key quoted (.stringLit s)) (.text s)
  | enum {key : String} {quoted : Bool} {allowed : List String} {word : String}
      (h : word ∈ allowed) :
      Means (.enum allowed) (.keyValue key quoted (.ident [word])) (.word word)
  | block {key : String} {quoted : Bool} {inner : List PropertySpec} {properties : List Property} :
      Means (.block inner) (.block key quoted properties) (.properties (readAll properties))
  | blockMap {key : String} {quoted : Bool} {inner : List PropertySpec}
      {properties : List Property} :
      Means (.blockMap inner) (.block key quoted properties) (.properties (readAll properties))
  | stringMap {key : String} {quoted : Bool} (map : List (String × String)) :
      Means .stringMap
        (.keyValue key quoted (.hashLit (map.map fun entry => (entry.1, .stringLit entry.2))))
        (.entries map)
  | emptyStringMap {key : String} {quoted : Bool} :
      Means .stringMap (.block key quoted []) (.entries [])

/-- No property has the key. -/
def Absent (props : List Property) (key : String) : Prop := ∀ prop ∈ props, prop.key ≠ key

/-- The key has one property, and it says this. -/
def Written (kind : PropertyValueKind) (props : List Property) (key : String) (setting : Setting) :
    Prop :=
  ∃ prop, props.filter (·.key = key) = [prop] ∧ Means upper rt formats kind prop setting

/-- A value comes from what is written under a key, and is a default when nothing is. -/
def Takes {α : Type} (kind : PropertyValueKind) (props : List Property) (key : String)
    (means : Setting → α → Prop) (default value : α) : Prop :=
  (Absent props key ∧ value = default) ∨
    ∃ setting, Written upper rt formats kind props key setting ∧ means setting value

/-- A kind other than `oneOf` that a kind allows. -/
inductive Variant : PropertyValueKind → PropertyValueKind → Prop where
  | self {kind : PropertyValueKind} (h : ∀ variants, kind ≠ .oneOf variants) : Variant kind kind
  | oneOf {variants : List PropertyValueKind} {kind variant : PropertyValueKind}
      (mem : kind ∈ variants) (h : Variant kind variant) : Variant (.oneOf variants) variant

/-- A property of a kind holds a surface of its own. -/
inductive Within : PropertyValueKind → Property → List PropertySpec → List Property → Prop where
  | block {key : String} {quoted : Bool} {inner : List PropertySpec} {properties : List Property} :
      Within (.block inner) (.block key quoted properties) inner properties
  | entry {key : String} {quoted : Bool} {inner : List PropertySpec} {properties : List Property}
      {k : String} {q : Bool} {entry : List Property} (mem : .block k q entry ∈ properties) :
      Within (.blockMap inner) (.block key quoted properties) inner entry
  | variant {variants : List PropertyValueKind} {kind : PropertyValueKind} {prop : Property}
      {inner : List PropertySpec} {properties : List Property} (mem : kind ∈ variants)
      (accepts : Accepts upper kind prop) (h : Within kind prop inner properties) :
      Within (.oneOf variants) prop inner properties

/-- The surfaces of a list of properties, at any depth, each with its schema. -/
inductive Surface (spec : List PropertySpec) (props : List Property) :
    List PropertySpec → List Property → Prop where
  | root : Surface spec props spec props
  | inner {outer inner : List PropertySpec} {properties entry : List Property} {prop : Property}
      {s : PropertySpec} (h : Surface spec props outer properties) (mem : prop ∈ properties)
      (declared : lookup outer prop.key = some s) (within : Within upper s.kind prop inner entry) :
      Surface spec props inner entry

end Access

variable {upper : Char → List Char} {rt : Runtime} {formats : Props.Formats}

/-! ### Surfaces -/

theorem Within.conforms {kind : PropertyValueKind} {prop : Property} {inner : List PropertySpec}
    {properties : List Property} (h : Within upper kind prop inner properties)
    (haccepts : Accepts upper kind prop) : Conforms upper inner properties := by
  induction h with
  | block =>
      cases haccepts with
      | block h => exact h
  | entry mem =>
      cases haccepts with
      | blockMap _ _ conforms => exact conforms _ _ _ mem
  | variant _ accepts _ ih => exact ih accepts

/-- Every surface of an accepted list is accepted. -/
theorem Surface.conforms {spec inner : List PropertySpec} {props properties : List Property}
    (h : Surface upper spec props inner properties) (hconforms : Conforms upper spec props) :
    Conforms upper inner properties := by
  induction h with
  | root => exact hconforms
  | inner _ mem declared within ih =>
      cases ih with
      | intro _ _ accepted _ _ _ => exact within.conforms (accepted _ mem _ declared)

/-! ### The only property of a key -/

/-- What an accessor looks for: something of a property with the key. -/
def Keyed {β : Type*} (key : String) (f : Dsl.Property → Option β) : Prop :=
  (∀ k value, k ≠ key → f (.keyValue k value) = none) ∧
    ∀ k properties, k ≠ key → f (.block k properties) = none

theorem Keyed.eq_none {β : Type*} {key : String} {f : Dsl.Property → Option β} (h : Keyed key f)
    {prop : Property} (hkey : prop.key ≠ key) : f prop.read = none := by
  cases prop with
  | keyValue k quoted value =>
      rw [Property.read]
      exact h.1 k value hkey
  | block k quoted properties =>
      rw [Property.read]
      exact h.2 k _ hkey

theorem Keyed.findSome?_none {β : Type*} {key : String} {f : Dsl.Property → Option β}
    (h : Keyed key f) {props : List Property} (hnone : Absent props key) :
    (readAll props).findSome? f = none := by
  rw [readAll_eq_map, List.findSome?_eq_none_iff]
  intro p hp
  obtain ⟨prop, hprop, rfl⟩ := List.mem_map.mp hp
  exact h.eq_none (hnone prop hprop)

theorem Keyed.findSome?_only {β : Type*} {key : String} {f : Dsl.Property → Option β}
    (h : Keyed key f) {props : List Property} {prop : Property}
    (honly : props.filter (·.key = key) = [prop]) : (readAll props).findSome? f = f prop.read := by
  induction props with
  | nil => cases honly
  | cons first rest ih =>
      rw [readAll, List.findSome?_cons]
      by_cases hkey : first.key = key
      · rw [List.filter_cons_of_pos (by simpa using hkey)] at honly
        obtain ⟨rfl, hrest⟩ := List.cons.inj honly
        have hrest : Absent rest key := by
          intro p hp hpkey
          exact List.filter_eq_nil_iff.mp hrest p hp (by simpa using hpkey)
        rw [h.findSome?_none hrest]
        cases f first.read <;> rfl
      · rw [List.filter_cons_of_neg (by simpa using hkey)] at honly
        rw [h.eq_none hkey]
        exact ih honly

theorem key_of_only {props : List Property} {prop : Property} {key : String}
    (honly : props.filter (·.key = key) = [prop]) : prop.key = key := by
  have hmem : prop ∈ props.filter (·.key = key) := by
    rw [honly]
    exact List.mem_singleton.mpr rfl
  exact of_decide_eq_true (List.mem_filter.mp hmem).2

/-! ### The accessors -/

section Accessors

variable {props : List Property} {key : String}

theorem getExpr_none (hnone : Absent props key) :
    Props.getExpr (readAll props) key = none :=
  Keyed.findSome?_none ⟨fun _ _ hk => if_neg hk, fun _ _ _ => rfl⟩ hnone

theorem getInt_none (hnone : Absent props key) :
    Props.getInt (readAll props) key = none := by
  refine Keyed.findSome?_none ⟨?_, fun _ _ _ => rfl⟩ hnone
  intro k value hk
  cases value <;> simp [hk]

theorem getIdent_none (hnone : Absent props key) :
    Props.getIdent (readAll props) key = none := by
  rw [Props.getIdent, Keyed.findSome?_none ⟨?_, fun _ _ _ => rfl⟩ hnone, Option.bind_none]
  intro k value hk
  cases value <;> simp [hk]

theorem getBlock_none (hnone : Absent props key) :
    Props.getBlock (readAll props) key = none :=
  Keyed.findSome?_none ⟨fun _ _ _ => rfl, fun _ _ hk => if_neg hk⟩ hnone

variable {k : String} {quoted : Bool}

theorem getExpr_only {value : Expr}
    (honly : props.filter (·.key = key) = [.keyValue k quoted value]) :
    Props.getExpr (readAll props) key = some value := by
  rw [Props.getExpr, Keyed.findSome?_only ⟨fun _ _ hk => if_neg hk, fun _ _ _ => rfl⟩ honly,
    Property.read]
  exact if_pos (key_of_only honly)

theorem getExpr_only_block {properties : List Property}
    (honly : props.filter (·.key = key) = [.block k quoted properties]) :
    Props.getExpr (readAll props) key = none := by
  rw [Props.getExpr, Keyed.findSome?_only ⟨fun _ _ hk => if_neg hk, fun _ _ _ => rfl⟩ honly,
    Property.read]

theorem getInt_only {n : Int64}
    (honly : props.filter (·.key = key) = [.keyValue k quoted (.intLit n)]) :
    Props.getInt (readAll props) key = some n := by
  rw [Props.getInt, Keyed.findSome?_only ⟨?_, fun _ _ _ => rfl⟩ honly, Property.read]
  · exact if_pos (key_of_only honly)
  · intro k value hk
    cases value <;> simp [hk]

theorem getIdent_only {parts : List String}
    (honly : props.filter (·.key = key) = [.keyValue k quoted (.ident parts)]) :
    Props.getIdent (readAll props) key = parts.head? := by
  rw [Props.getIdent, Keyed.findSome?_only ⟨?_, fun _ _ _ => rfl⟩ honly, Property.read]
  · dsimp only
    rw [if_pos (show k = key from key_of_only honly), Option.bind_some]
  · intro k value hk
    cases value <;> simp [hk]

theorem getBlock_only {properties : List Property}
    (honly : props.filter (·.key = key) = [.block k quoted properties]) :
    Props.getBlock (readAll props) key = some (readAll properties) := by
  rw [Props.getBlock, Keyed.findSome?_only ⟨fun _ _ _ => rfl, fun _ _ hk => if_neg hk⟩ honly,
    Property.read]
  exact if_pos (key_of_only honly)

end Accessors

/-- A key that is not there is read as unset, whatever its kind. -/
theorem access_eq_unset {kind : PropertyValueKind} {props : List Property} {key : String}
    (hnone : Absent props key) :
    access rt formats kind (readAll props) key = unset kind := by
  have hexpr := getExpr_none hnone
  cases kind with
  | string => simp [access, unset, Props.getString, hexpr]
  | duration => simp [access, unset, Props.getString, hexpr]
  | size => simp [access, unset, Props.getString, hexpr]
  | int => simp [access, unset, getInt_none hnone]
  | bool => simp [access, unset, Props.getBool, hexpr]
  | enum allowed => simp [access, unset, getIdent_none hnone]
  | block inner => simp [access, unset, getBlock_none hnone]
  | blockMap inner => simp [access, unset, getBlock_none hnone]
  | stringMap => simp [access, unset, Props.getStringMap, hexpr]
  | oneOf variants => rfl

/-- A template has one text. -/
theorem templateText_iff {frags : List TemplateFragment} {text : String} :
    TemplateText rt formats frags text ↔ text = Props.templateToSource rt formats frags := by
  unfold Props.templateToSource
  constructor
  · intro h
    induction h with
    | nil => rfl
    | literal s h ih => rw [List.map_cons, String.join_cons, ← ih]
    | interp e h ih => rw [List.map_cons, String.join_cons, ← ih]
  · rintro rfl
    induction frags with
    | nil => exact .nil
    | cons frag rest ih =>
        rw [List.map_cons, String.join_cons]
        cases frag with
        | literal s => exact .literal s ih
        | interp e => exact .interp e ih

/-- The accessor of a kind returns what the only property of the key says. -/
theorem access_eq_some {kind : PropertyValueKind} {props : List Property} {prop : Property}
    {key : String} {setting : Setting} (honly : props.filter (·.key = key) = [prop])
    (hmeans : Means upper rt formats kind prop setting) :
    access rt formats kind (readAll props) key = some setting := by
  cases hmeans with
  | stringLit s => simp [access, Props.getString, getExpr_only honly]
  | stringTemplate h =>
      rw [templateText_iff.mp h]
      simp [access, Props.getString, getExpr_only honly]
  | stringIdent parts => simp [access, Props.getString, getExpr_only honly]
  | stringInt n => simp [access, Props.getString, getExpr_only honly]
  | int n => simp [access, getInt_only honly]
  | bool b => simp [access, Props.getBool, getExpr_only honly]
  | boolTrue => simp [access, Props.getBool, getExpr_only honly]
  | boolFalse => simp [access, Props.getBool, getExpr_only honly]
  | duration _ => simp [access, Props.getString, getExpr_only honly]
  | size _ => simp [access, Props.getString, getExpr_only honly]
  | enum _ => simp [access, getIdent_only honly]
  | block => simp [access, getBlock_only honly]
  | blockMap => simp [access, getBlock_only honly]
  | stringMap map =>
      rw [access, Props.getStringMap, getExpr_only honly]
      dsimp only
      rw [List.filterMap_map]
      exact congrArg (some ∘ Setting.entries) List.filterMap_some
  | emptyStringMap => simp [access, Props.getStringMap, getExpr_only_block honly]

theorem Written.access {kind : PropertyValueKind} {props : List Property} {key : String}
    {setting : Setting} (h : Written upper rt formats kind props key setting) :
    access rt formats kind (readAll props) key = some setting := by
  obtain ⟨prop, honly, hmeans⟩ := h
  exact access_eq_some honly hmeans

theorem exists_map_stringLit {entries : List (String × Expr)}
    (h : ∀ entry ∈ entries, ∃ s, entry.2 = .stringLit s) :
    ∃ map : List (String × String),
      entries = map.map fun entry => (entry.1, .stringLit entry.2) := by
  induction entries with
  | nil => exact ⟨[], rfl⟩
  | cons entry entries ih =>
      obtain ⟨hentry, hentries⟩ := List.forall_mem_cons.mp h
      obtain ⟨s, hs⟩ := hentry
      obtain ⟨map, rfl⟩ := ih hentries
      exact ⟨(entry.1, s) :: map, by rw [List.map_cons, ← hs]⟩

mutual

/-- A property that is accepted says something, read as one of the variants of its kind. -/
theorem Accepts.means (kind : PropertyValueKind) {prop : Property} (h : Accepts upper kind prop) :
    ∃ variant setting, Variant kind variant ∧ Means upper rt formats variant prop setting := by
  cases kind with
  | oneOf variants =>
      cases h with
      | oneOf mem h =>
          obtain ⟨variant, setting, hvariant, hmeans⟩ := means_of_mem variants _ mem h
          exact ⟨variant, setting, .oneOf mem hvariant, hmeans⟩
  | string =>
      cases h with
      | stringLit s => exact ⟨_, _, .self (by simp), .stringLit s⟩
      | stringTemplate frags =>
          exact ⟨_, _, .self (by simp), .stringTemplate (templateText_iff.mpr rfl)⟩
      | stringIdent parts => exact ⟨_, _, .self (by simp), .stringIdent parts⟩
      | stringInt n => exact ⟨_, _, .self (by simp), .stringInt n⟩
  | int =>
      cases h with
      | int n => exact ⟨_, _, .self (by simp), .int n⟩
  | bool =>
      cases h with
      | bool b => exact ⟨_, _, .self (by simp), .bool b⟩
      | boolIdent hword =>
          rcases hword with rfl | rfl
          · exact ⟨_, _, .self (by simp), .boolTrue⟩
          · exact ⟨_, _, .self (by simp), .boolFalse⟩
  | duration =>
      cases h with
      | duration h => exact ⟨_, _, .self (by simp), .duration h⟩
  | size =>
      cases h with
      | size h => exact ⟨_, _, .self (by simp), .size h⟩
  | enum allowed =>
      cases h with
      | enum h => exact ⟨_, _, .self (by simp), .enum h⟩
  | block inner =>
      cases h with
      | block _ => exact ⟨_, _, .self (by simp), .block⟩
  | blockMap inner =>
      cases h with
      | blockMap _ _ _ => exact ⟨_, _, .self (by simp), .blockMap⟩
  | stringMap =>
      cases h with
      | stringMap h =>
          obtain ⟨map, rfl⟩ := exists_map_stringLit h
          exact ⟨_, _, .self (by simp), .stringMap map⟩
      | emptyStringMap => exact ⟨_, _, .self (by simp), .emptyStringMap⟩

theorem means_of_mem (variants : List PropertyValueKind) : ∀ kind ∈ variants, ∀ {prop : Property},
    Accepts upper kind prop →
      ∃ variant setting, Variant kind variant ∧ Means upper rt formats variant prop setting := by
  intro kind hkind prop h
  cases variants with
  | nil => cases hkind
  | cons first rest =>
      rcases List.mem_cons.mp hkind with rfl | hkind
      · exact Accepts.means _ h
      · exact means_of_mem rest kind hkind h

end

theorem Conforms.only {spec : List PropertySpec} {props : List Property}
    (h : Conforms upper spec props) {key : String} {s : PropertySpec}
    (hs : lookup spec key = some s) (hrepeatable : s.repeatable = false) :
    Absent props key ∨
      ∃ prop, props.filter (·.key = key) = [prop] ∧ Accepts upper s.kind prop := by
  cases h with
  | intro _ _ accepted once _ _ =>
      have hle := once key s hs hrepeatable
      cases hfilter : props.filter (·.key = key) with
      | nil =>
          left
          intro prop hprop hkey
          exact List.filter_eq_nil_iff.mp hfilter prop hprop (by simpa using hkey)
      | cons prop rest =>
          rw [hfilter, List.length_cons] at hle
          have hrest : rest = [] := List.length_eq_zero_iff.mp (by omega)
          subst hrest
          right
          refine ⟨prop, rfl, ?_⟩
          have hmem : prop ∈ props := List.mem_of_mem_filter (by rw [hfilter]; simp)
          have hkey := key_of_only hfilter
          exact accepted prop hmem s (hkey ▸ hs)

/-- **What the validator accepts, the accessors read.**  On every surface of an accepted list, a
key that may not be repeated is either not there, and read as unset by the accessor of each kind it
may have, or it has one property, which the accessor of its kind reads as what it says. -/
theorem reads_back {spec inner : List PropertySpec} {props properties : List Property}
    (haccepted : validate upper props spec = [])
    (hsurface : Surface upper spec props inner properties) {key : String} {s : PropertySpec}
    (hs : lookup inner key = some s) (hrepeatable : s.repeatable = false) :
    (Absent properties key ∧ ∀ variant, Variant s.kind variant →
        access rt formats variant (readAll properties) key = unset variant) ∨
      ∃ variant setting, Variant s.kind variant ∧
        Written upper rt formats variant properties key setting ∧
        access rt formats variant (readAll properties) key = some setting := by
  have hconforms := hsurface.conforms (validate_eq_nil_iff.mp haccepted)
  rcases hconforms.only hs hrepeatable with hnone | ⟨prop, honly, haccepts⟩
  · exact .inl ⟨hnone, fun _ _ => access_eq_unset hnone⟩
  · obtain ⟨variant, setting, hvariant, hmeans⟩ := haccepts.means
    exact .inr ⟨variant, setting, hvariant, ⟨prop, honly, hmeans⟩, access_eq_some honly hmeans⟩

/-- A `retry` block with one wait. -/
def waitSchema : List PropertySpec := [⟨"initial_wait", false, false, none, .duration⟩]

/-- A block with a duration in it. -/
def nestedSchema : List PropertySpec := [⟨"retry", false, false, none, .block waitSchema⟩]

/-- The inner block. -/
def waitBlock : List Property := [.keyValue "initial_wait" false (.stringLit "5s")]

/-- The properties around it. -/
def nestedProps : List Property := [.block "retry" false waitBlock]

theorem reads_back_nested :
    (Absent waitBlock "initial_wait" ∧ ∀ variant, Variant .duration variant →
        access binary64 ⟨fun _ => ""⟩ variant (readAll waitBlock) "initial_wait" =
          unset variant) ∨
      ∃ variant setting, Variant .duration variant ∧
        Written List.singleton binary64 ⟨fun _ => ""⟩ variant waitBlock "initial_wait"
          setting ∧
        access binary64 ⟨fun _ => ""⟩ variant (readAll waitBlock) "initial_wait" =
          some setting :=
  reads_back (show validate List.singleton nestedProps nestedSchema = [] by decide)
    (.inner .root (List.mem_singleton.mpr rfl) rfl .block)
    (show lookup waitSchema "initial_wait" = some _ from rfl) rfl

/-! ### By kind -/

section Kinds

theorem Variant.eq {kind variant : PropertyValueKind} (h : Variant kind variant)
    (hkind : ∀ variants, kind ≠ .oneOf variants) : variant = kind := by
  cases h with
  | self _ => rfl
  | oneOf _ _ => exact absurd rfl (hkind _)

variable {spec : List PropertySpec} {props : List Property} {key : String} {s : PropertySpec}

variable (rt formats) in
/-- For a key whose kind is not a `oneOf`. -/
theorem Conforms.access_cases (h : Conforms upper spec props) (hs : lookup spec key = some s)
    (hrepeatable : s.repeatable = false) (hkind : ∀ variants, s.kind ≠ .oneOf variants) :
    (Absent props key ∧ access rt formats s.kind (readAll props) key = unset s.kind) ∨
      ∃ setting, Written upper rt formats s.kind props key setting ∧
        access rt formats s.kind (readAll props) key = some setting := by
  rcases h.only hs hrepeatable with hnone | ⟨prop, honly, haccepts⟩
  · exact .inl ⟨hnone, access_eq_unset hnone⟩
  · obtain ⟨variant, setting, hvariant, hmeans⟩ := haccepts.means
    rw [hvariant.eq hkind] at hmeans
    exact .inr ⟨setting, ⟨prop, honly, hmeans⟩, access_eq_some honly hmeans⟩

theorem unset_eq_none {kind : PropertyValueKind} (h : kind ≠ .stringMap) : unset kind = none := by
  cases kind with
  | stringMap => exact absurd rfl h
  | _ => rfl

variable (rt formats) in
/-- For an accessor that returns nothing when the key is not there. -/
theorem Conforms.read_cases {β : Type} {read : Option β} {ctor : β → Setting}
    (h : Conforms upper spec props) (hs : lookup spec key = some s)
    (hrepeatable : s.repeatable = false) (hkind : ∀ variants, s.kind ≠ .oneOf variants)
    (hmap : s.kind ≠ .stringMap)
    (hread : access rt formats s.kind (readAll props) key = read.map ctor) :
    (Absent props key ∧ read = none) ∨
      ∃ b, Written upper rt formats s.kind props key (ctor b) ∧ read = some b := by
  rcases h.access_cases rt formats hs hrepeatable hkind with
    ⟨hnone, haccess⟩ | ⟨setting, hwritten, haccess⟩
  · rw [hread, unset_eq_none hmap, Option.map_eq_none_iff] at haccess
    exact .inl ⟨hnone, haccess⟩
  · rw [hread, Option.map_eq_some_iff] at haccess
    obtain ⟨b, hb, rfl⟩ := haccess
    exact .inr ⟨b, hwritten, hb⟩

variable (h : Conforms upper spec props) (hs : lookup spec key = some s)
  (hrepeatable : s.repeatable = false)

include h hs hrepeatable

theorem getString_string (hkind : s.kind = .string) :
    (Absent props key ∧ Props.getString rt formats (readAll props) key = none) ∨
      ∃ text, Written upper rt formats .string props key (.text text) ∧
        Props.getString rt formats (readAll props) key = some text := by
  rcases h.read_cases rt formats hs hrepeatable (by simp [hkind]) (by simp [hkind])
    (by rw [hkind, access]) with hnone | ⟨text, hwritten, hread⟩
  · exact .inl hnone
  · exact .inr ⟨text, hkind ▸ hwritten, hread⟩

theorem takes_string (hkind : s.kind = .string) (default : String) :
    Takes upper rt formats .string props key (fun setting text => setting = .text text) default
      ((Props.getString rt formats (readAll props) key).getD default) := by
  rcases getString_string h hs hrepeatable hkind with ⟨hnone, hread⟩ | ⟨text, hwritten, hread⟩
  · exact .inl ⟨hnone, by rw [hread, Option.getD_none]⟩
  · exact .inr ⟨.text text, hwritten, by rw [hread, Option.getD_some]⟩

theorem takes_bool (hkind : s.kind = .bool) (default : Bool) :
    Takes upper rt formats .bool props key (fun setting b => setting = .flag b) default
      ((Props.getBool (readAll props) key).getD default) := by
  rcases h.read_cases rt formats hs hrepeatable (by simp [hkind]) (by simp [hkind])
    (by rw [hkind, access]) with ⟨hnone, hread⟩ | ⟨b, hwritten, hread⟩
  · exact .inl ⟨hnone, by rw [hread, Option.getD_none]⟩
  · exact .inr ⟨.flag b, hkind ▸ hwritten, by rw [hread, Option.getD_some]⟩

theorem takes_stringMap (hkind : s.kind = .stringMap) :
    Takes upper rt formats .stringMap props key (fun setting map => setting = .entries map) []
      (Props.getStringMap (readAll props) key) := by
  rcases h.access_cases rt formats hs hrepeatable (by simp [hkind]) with
    ⟨hnone, haccess⟩ | ⟨setting, hwritten, haccess⟩
  · rw [hkind, access, unset] at haccess
    exact .inl ⟨hnone, Setting.entries.inj (Option.some.inj haccess)⟩
  · rw [hkind, access] at haccess
    exact .inr ⟨setting, hkind ▸ hwritten, (Option.some.inj haccess).symm⟩

/-- The text of a duration parses. -/
theorem getString_duration (hkind : s.kind = .duration) :
    (Absent props key ∧ Props.getString rt formats (readAll props) key = none) ∨
      ∃ text duration, Written upper rt formats .duration props key (.text text) ∧
        Props.parseDuration text = .ok duration ∧
        Props.getString rt formats (readAll props) key = some text := by
  rcases h.read_cases rt formats hs hrepeatable (by simp [hkind]) (by simp [hkind])
    (by rw [hkind, access]) with hnone | ⟨text, hwritten, hread⟩
  · exact .inl hnone
  · rw [hkind] at hwritten
    obtain ⟨prop, honly, hmeans⟩ := hwritten
    cases hmeans with
    | duration hparse => exact .inr ⟨text, _, ⟨_, honly, .duration hparse⟩, hparse, hread⟩

/-- The text of a size parses. -/
theorem getString_size (hkind : s.kind = .size) :
    (Absent props key ∧ Props.getString rt formats (readAll props) key = none) ∨
      ∃ text size, Written upper rt formats .size props key (.text text) ∧
        Props.parseSize upper text = .ok size ∧
        Props.getString rt formats (readAll props) key = some text := by
  rcases h.read_cases rt formats hs hrepeatable (by simp [hkind]) (by simp [hkind])
    (by rw [hkind, access]) with hnone | ⟨text, hwritten, hread⟩
  · exact .inl hnone
  · rw [hkind] at hwritten
    obtain ⟨prop, honly, hmeans⟩ := hwritten
    cases hmeans with
    | size hparse => exact .inr ⟨text, _, ⟨_, honly, .size hparse⟩, hparse, hread⟩

variable (rt formats) in
theorem getPositiveInt_cases (hkind : s.kind = .int) :
    (Absent props key ∧ Props.getPositiveInt (readAll props) key = .ok none) ∨
      ∃ n, Written upper rt formats .int props key (.number n) ∧
        Props.getPositiveInt (readAll props) key =
          if 0 ≤ n then .ok (some n.toInt.toNat)
          else .error s!"'{key}' must be non-negative, got {n.toInt}" := by
  rcases h.read_cases rt formats hs hrepeatable (by simp [hkind])
    (by simp [hkind]) (by rw [hkind, access]) with ⟨hnone, hread⟩ | ⟨n, hwritten, hread⟩
  · exact .inl ⟨hnone, by rw [Props.getPositiveInt, hread]⟩
  · exact .inr ⟨n, hkind ▸ hwritten, by rw [Props.getPositiveInt, hread]⟩

variable (rt formats) in
theorem getIdent_enum {allowed : List String} (hkind : s.kind = .enum allowed) :
    (Absent props key ∧ Props.getIdent (readAll props) key = none) ∨
      ∃ word ∈ allowed, Written upper rt formats (.enum allowed) props key (.word word) ∧
        Props.getIdent (readAll props) key = some word := by
  rcases h.read_cases rt formats hs hrepeatable (by simp [hkind])
    (by simp [hkind]) (by rw [hkind, access]) with hnone | ⟨word, hwritten, hread⟩
  · exact .inl hnone
  · rw [hkind] at hwritten
    obtain ⟨prop, honly, hmeans⟩ := hwritten
    cases hmeans with
    | enum hmem => exact .inr ⟨word, hmem, ⟨_, honly, .enum hmem⟩, hread⟩

theorem getBlock_cases {inner : List PropertySpec} (hkind : s.kind = .block inner) :
    (Absent props key ∧ Props.getBlock (readAll props) key = none) ∨
      ∃ k q block, props.filter (·.key = key) = [.block k q block] ∧ Conforms upper inner block ∧
        Props.getBlock (readAll props) key = some (readAll block) := by
  rcases h.only hs hrepeatable with hnone | ⟨prop, honly, haccepts⟩
  · exact .inl ⟨hnone, getBlock_none hnone⟩
  · rw [hkind] at haccepts
    cases haccepts with
    | block hblock => exact .inr ⟨_, _, _, honly, hblock, getBlock_only honly⟩

end Kinds

end Limpid.Dsl.Schema
