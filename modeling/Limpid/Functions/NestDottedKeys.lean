import Mathlib.Data.String.Basic
import Limpid.Dsl.ReadPath
import Limpid.Trie

/-!
# `nest_dotted_keys`

`functions/primitives/nest_dotted_keys.rs`.  The entries of an object go into a tree of paths one by
one, each value nested before it is inserted, and the tree is written out as an object.

A nested object is the one tree whose leaves are the nested values of the entries, at the paths that
their keys spell (`nestInner_object_iff`).  From this the rest follows: there is such a tree exactly
when the paths are apart from one another, and it does not depend on the order of the entries.

What the result says of the object written out does not mention the tree: it reads the object at
every path (`Spells`).  At the path of a key stands the nested value; any other path leads below
such a path, into the nested value, or stops short of one, at an object; and this determines the
object (`Spells.unique`).
-/

namespace Limpid.Functions.NestDotted

open Dsl (Value)
open Entries Trie

/-! ## The function -/

/-- `BTreeMap<String, Node>`. -/
abbrev Tree := Forest String Value

/-- `MAX_DOTTED_DEPTH`. -/
def maxDottedDepth : ℕ := 32

/-- `MAX_VALUE_DEPTH`. -/
def maxValueDepth : ℕ := 64

/-- `key.split('.')`. -/
def segments (key : String) : List String := (key.toList.splitOn '.').map String.ofList

/-- `insert_path`. -/
def insertPath (root : Tree) (segments : List String) (value : Value) (originalKey : String) :
    Except String Tree :=
  match segments with
  | [] => .error "non-empty segments"
  | head :: rest =>
    Trie.insert
      (fun head => s!"nest_dotted_keys(): key '{originalKey}' conflicts with an earlier sibling " ++
        s!"at segment '{head}'")
      (fun head => s!"nest_dotted_keys(): key '{originalKey}' tries to nest under '{head}' which " ++
        "is already a leaf value")
      head rest value root

mutual

/-- The value that a node stands for. -/
def materialiseNode : Node String Value → Value
  | .leaf value => value
  | .branch sub => .object (materialiseEntries sub)

def materialiseEntries : List (String × Node String Value) → List (String × Value)
  | [] => []
  | (key, node) :: rest => (key, materialiseNode node) :: materialiseEntries rest

end

/-- `materialise`. -/
def materialise (tree : Tree) : Value := .object (materialiseEntries tree)

/-- The checks of a key. -/
def checkKey (key : String) : Except String Unit :=
  if (segments key).any (·.isEmpty) then
    .error (s!"nest_dotted_keys(): key '{key}' has an empty segment (leading/trailing/double dot)")
  else if (segments key).length > maxDottedDepth then
    .error (s!"nest_dotted_keys(): key '{key}' has {(segments key).length} dotted segments, " ++
      s!"exceeds limit ({maxDottedDepth})")
  else .ok ()

mutual

/-- `nest_inner`: the values first, then the keys. -/
def nestInner (value : Value) (depth : ℕ) : Except String Value :=
  if depth > maxValueDepth then
    .error s!"nest_dotted_keys(): value nesting exceeds depth limit ({maxValueDepth})"
  else
    match value with
    | .object entries => do
      let root ← nestEntries entries depth []
      return materialise root
    | .array items => do
      let out ← nestItems items depth
      return .array out
    | other => .ok other

/-- The first pass over an object. -/
def nestEntries (entries : List (String × Value)) (depth : ℕ) (root : Tree) : Except String Tree :=
  match entries with
  | [] => .ok root
  | (key, value) :: rest => do
    checkKey key
    let nested ← nestInner value (depth + 1)
    let root ← insertPath root (segments key) nested key
    nestEntries rest depth root

def nestItems (items : List Value) (depth : ℕ) : Except String (List Value) :=
  match items with
  | [] => .ok []
  | item :: rest => do
    let nested ← nestInner item (depth + 1)
    let out ← nestItems rest depth
    return nested :: out

end

/-- `nest_dotted_keys(value)`. -/
def nest (value : Value) : Except String Value := nestInner value 0

/-! ## Entries -/

theorem bind_eq_ok_iff {α β : Type} {x : Except String α} {f : α → Except String β} {b : β} :
    x >>= f = .ok b ↔ ∃ a, x = .ok a ∧ f a = .ok b := by
  cases x with
  | error message => exact iff_of_false (fun h => nomatch h) (fun ⟨_, h, _⟩ => nomatch h)
  | ok a =>
      constructor
      · exact fun h => ⟨a, rfl, h⟩
      · rintro ⟨other, hother, h⟩
        obtain rfl := Except.ok.inj hother
        exact h

theorem segments_ne_nil (key : String) : segments key ≠ [] := by
  rw [segments, Ne, List.map_eq_nil_iff]
  exact List.splitOn_ne_nil '.' key.toList

/-- An entry, and the leaf that it becomes. -/
structure NestedEntry (depth : ℕ) (entry : String × Value) (leaf : List String × Value) : Prop where
  path : leaf.1 = segments entry.1
  check : checkKey entry.1 = .ok ()
  nested : nestInner entry.2 (depth + 1) = .ok leaf.2

theorem insertPath_ok {root root' : Tree} {leaves : List (List String × Value)}
    (h : Holds root leaves) {key : String} {value : Value}
    (hinsert : insertPath root (segments key) value key = .ok root') :
    Holds root' ((segments key, value) :: leaves) := by
  obtain ⟨head, rest, hsegments⟩ := List.exists_cons_of_ne_nil (segments_ne_nil key)
  rw [hsegments] at hinsert ⊢
  exact h.insert _ _ hinsert

theorem exists_insertPath {root : Tree} {leaves : List (List String × Value)}
    (h : Holds root leaves) {key : String} (value : Value)
    (hapart : ∀ leaf ∈ leaves, Apart (segments key) leaf.1) :
    ∃ root', insertPath root (segments key) value key = .ok root' := by
  obtain ⟨head, rest, hsegments⟩ := List.exists_cons_of_ne_nil (segments_ne_nil key)
  rw [hsegments] at hapart ⊢
  exact (h.insert_iff _ _ head rest value).mpr hapart

/-- **The first pass builds the tree of its leaves.** -/
theorem nestEntries_iff {entries : List (String × Value)} {depth : ℕ} {root root' : Tree}
    {leaves : List (List String × Value)} (h : Holds root leaves) :
    nestEntries entries depth root = .ok root' ↔
      ∃ more, List.Forall₂ (NestedEntry depth) entries more ∧
        Holds root' (more.reverse ++ leaves) := by
  induction entries generalizing root leaves with
  | nil =>
      rw [nestEntries]
      constructor
      · intro heq
        obtain rfl := Except.ok.inj heq
        exact ⟨[], .nil, h⟩
      · rintro ⟨more, hmore, hroot⟩
        cases hmore
        rw [h.unique hroot]
  | cons entry rest ih =>
      obtain ⟨key, value⟩ := entry
      rw [nestEntries, bind_eq_ok_iff]
      constructor
      · rintro ⟨⟨⟩, hcheck, hrun⟩
        obtain ⟨nested, hnested, hrun⟩ := bind_eq_ok_iff.mp hrun
        obtain ⟨root₁, hinsert, hrun⟩ := bind_eq_ok_iff.mp hrun
        obtain ⟨more, hmore, hroot⟩ := (ih (insertPath_ok h hinsert)).mp hrun
        refine ⟨(segments key, nested) :: more, .cons ⟨rfl, hcheck, hnested⟩ hmore, ?_⟩
        rw [List.reverse_cons, List.append_assoc]
        exact hroot
      · rintro ⟨leaves', hleaves, hroot⟩
        cases hleaves with
        | @cons _ leaf _ more hleaf hmore =>
            rw [List.reverse_cons, List.append_assoc, List.singleton_append] at hroot
            have hapart : ∀ other ∈ leaves, Apart (segments key) other.1 := by
              intro other hother
              have hpairwise := (List.pairwise_append.mp hroot.apart).2.1
              have hfirst := (List.pairwise_cons.mp hpairwise).1 other hother
              rw [hleaf.path] at hfirst
              exact hfirst
            obtain ⟨root₁, hinsert⟩ := exists_insertPath h leaf.2 hapart
            have hleafEq : (segments key, leaf.2) = leaf := Prod.ext hleaf.path.symm rfl
            refine ⟨(), hleaf.check, bind_eq_ok_iff.mpr ⟨leaf.2, hleaf.nested,
              bind_eq_ok_iff.mpr ⟨root₁, hinsert, ?_⟩⟩⟩
            refine (ih (insertPath_ok h hinsert)).mpr ⟨more, hmore, ?_⟩
            rw [hleafEq]
            exact hroot

/-- **A nested object is the tree of its leaves.** -/
theorem nestInner_object_iff {entries : List (String × Value)} {depth : ℕ} {out : Value} :
    nestInner (.object entries) depth = .ok out ↔
      depth ≤ maxValueDepth ∧ ∃ leaves root, List.Forall₂ (NestedEntry depth) entries leaves ∧
        Holds root leaves ∧ out = materialise root := by
  rw [nestInner]
  split_ifs with hdepth
  · exact iff_of_false (fun h => nomatch h) fun h => absurd h.1 (not_le.mpr hdepth)
  · rw [and_iff_right (not_lt.mp hdepth), bind_eq_ok_iff]
    constructor
    · rintro ⟨root, hroot, hout⟩
      obtain ⟨leaves, hleaves, hholds⟩ := (nestEntries_iff holds_nil).mp hroot
      rw [List.append_nil] at hholds
      exact ⟨leaves, root, hleaves, hholds.perm (List.reverse_perm leaves),
        (Except.ok.inj hout).symm⟩
    · rintro ⟨leaves, root, hleaves, hholds, rfl⟩
      refine ⟨root, (nestEntries_iff holds_nil).mpr ⟨leaves, hleaves, ?_⟩, rfl⟩
      rw [List.append_nil]
      exact hholds.perm (List.reverse_perm leaves).symm

theorem nestItems_iff {items out : List Value} {depth : ℕ} :
    nestItems items depth = .ok out ↔
      List.Forall₂ (fun item nested => nestInner item (depth + 1) = .ok nested) items out := by
  induction items generalizing out with
  | nil =>
      rw [nestItems]
      constructor
      · intro h
        obtain rfl := Except.ok.inj h
        exact .nil
      · intro h
        cases h
        rfl
  | cons item rest ih =>
      rw [nestItems, bind_eq_ok_iff]
      constructor
      · rintro ⟨nested, hnested, hrun⟩
        obtain ⟨others, hothers, hout⟩ := bind_eq_ok_iff.mp hrun
        obtain rfl := Except.ok.inj hout
        exact .cons hnested (ih.mp hothers)
      · intro h
        cases h with
        | @cons _ nested _ others hnested hothers =>
            exact ⟨nested, hnested, bind_eq_ok_iff.mpr ⟨others, ih.mpr hothers, rfl⟩⟩

theorem nestInner_array_iff {items : List Value} {depth : ℕ} {out : Value} :
    nestInner (.array items) depth = .ok out ↔
      depth ≤ maxValueDepth ∧ ∃ outs, List.Forall₂
        (fun item nested => nestInner item (depth + 1) = .ok nested) items outs ∧
        out = .array outs := by
  rw [nestInner]
  split_ifs with hdepth
  · exact iff_of_false (fun h => nomatch h) fun h => absurd h.1 (not_le.mpr hdepth)
  · rw [and_iff_right (not_lt.mp hdepth), bind_eq_ok_iff]
    constructor
    · rintro ⟨outs, houts, hout⟩
      exact ⟨outs, nestItems_iff.mp houts, (Except.ok.inj hout).symm⟩
    · rintro ⟨outs, houts, rfl⟩
      exact ⟨outs, nestItems_iff.mpr houts, rfl⟩

/-! ## Success -/

/-- Neither an object nor an array. -/
def IsScalar : Value → Prop
  | .object _ | .array _ => False
  | _ => True

/-- Neither of the two limits is exceeded. -/
inductive WithinLimits : ℕ → Value → Prop
  | object {depth : ℕ} {entries : List (String × Value)} (hdepth : depth ≤ maxValueDepth)
      (hkeys : ∀ entry ∈ entries, (segments entry.1).length ≤ maxDottedDepth)
      (h : ∀ entry ∈ entries, WithinLimits (depth + 1) entry.2) :
      WithinLimits depth (.object entries)
  | array {depth : ℕ} {items : List Value} (hdepth : depth ≤ maxValueDepth)
      (h : ∀ item ∈ items, WithinLimits (depth + 1) item) : WithinLimits depth (.array items)
  | scalar {depth : ℕ} {value : Value} (hdepth : depth ≤ maxValueDepth) (h : IsScalar value) :
      WithinLimits depth value

/-- The keys of every object spell paths that are apart from one another. -/
inductive Nestable : Value → Prop
  | object {entries : List (String × Value)} (hsegments : ∀ entry ∈ entries, "" ∉ segments entry.1)
      (hapart : entries.Pairwise fun first second => Apart (segments first.1) (segments second.1))
      (h : ∀ entry ∈ entries, Nestable entry.2) : Nestable (.object entries)
  | array {items : List Value} (h : ∀ item ∈ items, Nestable item) : Nestable (.array items)
  | scalar {value : Value} (h : IsScalar value) : Nestable value

theorem checkKey_ok_iff {key : String} :
    checkKey key = .ok () ↔ "" ∉ segments key ∧ (segments key).length ≤ maxDottedDepth := by
  have hany : (segments key).any (·.isEmpty) ↔ "" ∈ segments key := by simp
  unfold checkKey
  split_ifs with hempty hlength
  · exact iff_of_false (fun h => nomatch h) fun h => h.1 (hany.mp hempty)
  · exact iff_of_false (fun h => nomatch h) fun h => absurd h.2 (not_le.mpr hlength)
  · exact iff_of_true rfl ⟨fun h => hempty (hany.mpr h), not_lt.mp hlength⟩

theorem nestInner_scalar {value : Value} {depth : ℕ} (h : IsScalar value)
    (hdepth : depth ≤ maxValueDepth) : nestInner value depth = .ok value := by
  cases value with
  | object entries => exact h.elim
  | array items => exact h.elim
  | _ => rw [nestInner, if_neg (not_lt.mpr hdepth)] <;> exact fun _ heq => nomatch heq

theorem exists_forall₂ {α β : Type} {r : α → β → Prop} {items : List α}
    (h : ∀ item ∈ items, ∃ b, r item b) : ∃ out, List.Forall₂ r items out := by
  induction items with
  | nil => exact ⟨[], .nil⟩
  | cons item rest ih =>
      obtain ⟨hitem, hrest⟩ := List.forall_mem_cons.mp h
      obtain ⟨b, hb⟩ := hitem
      obtain ⟨out, hout⟩ := ih hrest
      exact ⟨b :: out, .cons hb hout⟩

theorem exists_of_forall₂ {α β : Type} {r : α → β → Prop} {items : List α} {out : List β}
    (h : List.Forall₂ r items out) : ∀ item ∈ items, ∃ b ∈ out, r item b := by
  induction h with
  | nil => exact fun _ h => absurd h List.not_mem_nil
  | @cons a b _ _ hab _ ih =>
      refine List.forall_mem_cons.mpr ⟨⟨b, List.mem_cons_self, hab⟩, fun item hitem => ?_⟩
      obtain ⟨b', hb', hr⟩ := ih item hitem
      exact ⟨b', List.mem_cons_of_mem _ hb', hr⟩

/-- The paths of the leaves are those of the keys. -/
theorem paths_of_forall₂ {depth : ℕ} {entries : List (String × Value)}
    {leaves : List (List String × Value)} (h : List.Forall₂ (NestedEntry depth) entries leaves) :
    leaves.map Prod.fst = entries.map fun entry => segments entry.1 := by
  induction h with
  | nil => rfl
  | cons hleaf _ ih => rw [List.map_cons, List.map_cons, hleaf.path, ih]

theorem apart_leaves_iff {depth : ℕ} {entries : List (String × Value)}
    {leaves : List (List String × Value)} (h : List.Forall₂ (NestedEntry depth) entries leaves) :
    (leaves.Pairwise fun first second => Apart first.1 second.1) ↔
      entries.Pairwise fun first second => Apart (segments first.1) (segments second.1) := by
  rw [← List.pairwise_map (f := Prod.fst) (R := Apart), paths_of_forall₂ h, List.pairwise_map]

/-- Leaves that are apart are those of a tree. -/
theorem exists_holds {depth : ℕ} {entries : List (String × Value)}
    {leaves : List (List String × Value)} (h : List.Forall₂ (NestedEntry depth) entries leaves)
    (hapart : leaves.Pairwise fun first second => Apart first.1 second.1) :
    ∃ root, Holds root leaves := by
  induction h with
  | nil => exact ⟨[], holds_nil⟩
  | @cons entry leaf entries leaves hleaf _ ih =>
      obtain ⟨hfirst, hrest⟩ := List.pairwise_cons.mp hapart
      obtain ⟨root, hroot⟩ := ih hrest
      rw [hleaf.path] at hfirst
      obtain ⟨root', hinsert⟩ := exists_insertPath hroot leaf.2 hfirst
      have hleafEq : (segments entry.1, leaf.2) = leaf := Prod.ext hleaf.path.symm rfl
      exact ⟨root', hleafEq ▸ insertPath_ok hroot hinsert⟩

/-- **Within the limits, nesting succeeds exactly when the paths of every object are apart.** -/
theorem exists_nestInner_iff {value : Value} {depth : ℕ} (h : WithinLimits depth value) :
    (∃ out, nestInner value depth = .ok out) ↔ Nestable value := by
  induction h with
  | @object depth entries hdepth hkeys _ ih =>
      simp only [nestInner_object_iff, hdepth, true_and]
      constructor
      · rintro ⟨out, leaves, root, hleaves, hholds, -⟩
        have hentry := exists_of_forall₂ hleaves
        refine .object (fun entry hmem => ?_) ((apart_leaves_iff hleaves).mp hholds.apart)
          fun entry hmem => ?_
        · obtain ⟨leaf, -, hleaf⟩ := hentry entry hmem
          exact (checkKey_ok_iff.mp hleaf.check).1
        · obtain ⟨leaf, -, hleaf⟩ := hentry entry hmem
          exact (ih entry hmem).mp ⟨leaf.2, hleaf.nested⟩
      · intro hnestable
        cases hnestable with
        | object hsegments hapart hvalues =>
            have hentry : ∀ entry ∈ entries, ∃ leaf, NestedEntry depth entry leaf := by
              intro entry hmem
              obtain ⟨out, hout⟩ := (ih entry hmem).mpr (hvalues entry hmem)
              exact ⟨(segments entry.1, out), rfl,
                checkKey_ok_iff.mpr ⟨hsegments entry hmem, hkeys entry hmem⟩, hout⟩
            obtain ⟨leaves, hleaves⟩ := exists_forall₂ hentry
            obtain ⟨root, hholds⟩ := exists_holds hleaves ((apart_leaves_iff hleaves).mpr hapart)
            exact ⟨_, leaves, root, hleaves, hholds, rfl⟩
        | scalar hscalar => exact hscalar.elim
  | @array depth items hdepth _ ih =>
      simp only [nestInner_array_iff, hdepth, true_and]
      constructor
      · rintro ⟨out, outs, houts, -⟩
        refine .array fun item hitem => ?_
        obtain ⟨nested, -, hnested⟩ := exists_of_forall₂ houts item hitem
        exact (ih item hitem).mp ⟨nested, hnested⟩
      · intro hnestable
        cases hnestable with
        | array hitems =>
            obtain ⟨outs, houts⟩ := exists_forall₂ fun item hitem =>
              (ih item hitem).mpr (hitems item hitem)
            exact ⟨_, outs, houts, rfl⟩
        | scalar hscalar => exact hscalar.elim
  | scalar hdepth hscalar =>
      exact iff_of_true ⟨_, nestInner_scalar hscalar hdepth⟩ (.scalar hscalar)

/-! ## Order -/

/-- The entries of objects inside a value are permuted. -/
inductive Reordered : Value → Value → Prop
  | refl (value : Value) : Reordered value value
  | trans {first second third : Value} (h : Reordered first second) (h' : Reordered second third) :
      Reordered first third
  | entries {first second : List (String × Value)} (h : first.Perm second) :
      Reordered (.object first) (.object second)
  | entry (before after : List (String × Value)) (key : String) {value value' : Value}
      (h : Reordered value value') :
      Reordered (.object (before ++ (key, value) :: after))
        (.object (before ++ (key, value') :: after))
  | item (before after : List Value) {value value' : Value} (h : Reordered value value') :
      Reordered (.array (before ++ value :: after)) (.array (before ++ value' :: after))

/-- What is asked of one element is asked of another in its place. -/
theorem forall₂_replace {α β : Type} {r : α → β → Prop} {before after : List α} {a a' : α}
    {out : List β} (ha : ∀ b, r a b ↔ r a' b) :
    List.Forall₂ r (before ++ a :: after) out ↔ List.Forall₂ r (before ++ a' :: after) out := by
  induction before generalizing out with
  | nil =>
      rw [List.nil_append, List.nil_append, List.forall₂_cons_left_iff,
        List.forall₂_cons_left_iff]
      simp only [ha]
  | cons first before ih =>
      rw [List.cons_append, List.cons_append, List.forall₂_cons_left_iff,
        List.forall₂_cons_left_iff]
      simp only [ih]

theorem forall₂_perm {α β : Type} {r : α → β → Prop} {first second : List α} {out : List β}
    (h : first.Perm second) (hout : List.Forall₂ r first out) :
    ∃ out', List.Forall₂ r second out' ∧ out.Perm out' := by
  obtain ⟨out', hout', hperm⟩ := List.perm_comp_forall₂ h.symm hout
  exact ⟨out', hout', hperm.symm⟩

/-- **Neither the success nor the result depends on the order of the entries of any object.** -/
theorem nestInner_reordered {value value' : Value} (h : Reordered value value') (depth : ℕ)
    (out : Value) : nestInner value depth = .ok out ↔ nestInner value' depth = .ok out := by
  induction h generalizing depth out with
  | refl => rfl
  | trans _ _ ih ih' => exact (ih depth out).trans (ih' depth out)
  | @entries first second hperm =>
      have himp : ∀ {first second : List (String × Value)}, first.Perm second →
          nestInner (.object first) depth = .ok out →
          nestInner (.object second) depth = .ok out := by
        intro first second hperm h
        rw [nestInner_object_iff] at h ⊢
        obtain ⟨hdepth, leaves, root, hleaves, hholds, rfl⟩ := h
        obtain ⟨leaves', hleaves', hperm'⟩ := forall₂_perm hperm hleaves
        exact ⟨hdepth, leaves', root, hleaves', hholds.perm hperm', rfl⟩
      exact ⟨himp hperm, himp hperm.symm⟩
  | @entry before after key value value' _ ih =>
      have hentry : ∀ leaf, NestedEntry depth (key, value) leaf ↔
          NestedEntry depth (key, value') leaf := fun leaf =>
        ⟨fun h => ⟨h.path, h.check, (ih _ _).mp h.nested⟩,
          fun h => ⟨h.path, h.check, (ih _ _).mpr h.nested⟩⟩
      have hleaves : ∀ leaves, List.Forall₂ (NestedEntry depth) _ leaves ↔
          List.Forall₂ (NestedEntry depth) _ leaves := fun leaves =>
        @forall₂_replace _ _ _ before after _ _ leaves hentry
      rw [nestInner_object_iff, nestInner_object_iff]
      simp only [hleaves]
  | @item before after value value' _ ih =>
      have houts : ∀ outs, List.Forall₂
          (fun item nested => nestInner item (depth + 1) = .ok nested) _ outs ↔
          List.Forall₂ (fun item nested => nestInner item (depth + 1) = .ok nested) _ outs :=
        fun outs => @forall₂_replace _ _ _ before after _ _ outs fun nested => ih (depth + 1) nested
      rw [nestInner_array_iff, nestInner_array_iff]
      simp only [houts]

/-! ## The object -/

/-- What an object holds at each path when its leaves are `leaf`: the leaves at their paths, and on
the way to them objects whose keys are in order. -/
structure Spells (leaf : List String → Value → Prop) (out : Value) : Prop where
  holds : ∀ path value, leaf path value → out.getPath path = some value
  nothing_else : ∀ path value, out.getPath path = some value →
    (∃ before nested, leaf before nested ∧ before <+: path) ∨
    (path = [] ∨ ∃ beyond nested, leaf beyond nested ∧ path <+: beyond) ∧
      ∃ fields, value = .object fields ∧ (keys fields).Pairwise (· < ·)

section Spells

variable {leaf : List String → Value → Prop}

theorem getPath_cons {key : String} {rest : List String} (fields : List (String × Value)) :
    (Value.object fields).getPath (key :: rest) =
      (fields.lookup key).bind (Value.getPath rest) := rfl

/-- Without a leaf at the root there is an object. -/
theorem Spells.exists_fields {out : Value} (h : Spells leaf out) (hroot : ∀ value, ¬leaf [] value) :
    ∃ fields, out = .object fields ∧ (keys fields).Pairwise (· < ·) := by
  rcases h.nothing_else [] out rfl with ⟨before, nested, hleaf, hprefix⟩ | ⟨-, hfields⟩
  · rw [List.prefix_nil.mp hprefix] at hleaf
    exact absurd hleaf (hroot nested)
  · exact hfields

/-- Below a key of such an object stand the leaves whose paths begin with it. -/
theorem Spells.child {fields : List (String × Value)} (h : Spells leaf (.object fields))
    (hroot : ∀ value, ¬leaf [] value) {key : String} {child : Value}
    (hlookup : fields.lookup key = some child) :
    Spells (fun path => leaf (key :: path)) child where
  holds path value hleaf := by
    have hpath := h.holds (key :: path) value hleaf
    rwa [getPath_cons, hlookup] at hpath
  nothing_else path value hvalue := by
    have hpath : (Value.object fields).getPath (key :: path) = some value := by
      rw [getPath_cons, hlookup]
      exact hvalue
    rcases h.nothing_else (key :: path) value hpath with
      ⟨before, nested, hleaf, hprefix⟩ | ⟨hnil | ⟨beyond, nested, hleaf, hprefix⟩, hfields⟩
    · rcases List.prefix_cons_iff.mp hprefix with rfl | ⟨rest, rfl, hrest⟩
      · exact absurd hleaf (hroot nested)
      · exact .inl ⟨rest, nested, hleaf, hrest⟩
    · exact absurd hnil (List.cons_ne_nil _ _)
    · obtain ⟨rest, rfl⟩ := hprefix
      exact .inr ⟨.inr ⟨path ++ rest, nested, hleaf, List.prefix_append _ _⟩, hfields⟩

/-- A key of one object with these leaves is a key of any other. -/
theorem Spells.lookup_ne_none {fields fields' : List (String × Value)}
    (h : Spells leaf (.object fields)) (h' : Spells leaf (.object fields'))
    (hroot : ∀ value, ¬leaf [] value) {key : String} (hkey : fields.lookup key ≠ none) :
    fields'.lookup key ≠ none := by
  obtain ⟨child, hchild⟩ := Option.ne_none_iff_exists'.mp hkey
  have hleaf : ∃ rest nested, leaf (key :: rest) nested := by
    rcases h.nothing_else [key] child (by rw [getPath_cons, hchild]; rfl) with
      ⟨before, nested, hleaf, hprefix⟩ | ⟨hnil | ⟨beyond, nested, hleaf, hprefix⟩, -⟩
    · rcases List.prefix_cons_iff.mp hprefix with rfl | ⟨rest, rfl, -⟩
      · exact absurd hleaf (hroot nested)
      · exact ⟨rest, nested, hleaf⟩
    · exact absurd hnil (List.cons_ne_nil _ _)
    · obtain ⟨rest, rfl⟩ := hprefix
      exact ⟨rest, nested, hleaf⟩
  obtain ⟨rest, nested, hleaf⟩ := hleaf
  intro hnone
  have hpath := h'.holds _ _ hleaf
  rw [getPath_cons, hnone] at hpath
  cases hpath

/-- **An object is determined by its leaves.** -/
theorem Spells.unique {leaf : List String → Value → Prop} {first second : Value}
    (h : Spells leaf first) (h' : Spells leaf second) : first = second := by
  by_cases hroot : ∃ value, leaf [] value
  · obtain ⟨value, hleaf⟩ := hroot
    exact Option.some.inj ((h.holds [] value hleaf).trans (h'.holds [] value hleaf).symm)
  · have hroot := not_exists.mp hroot
    obtain ⟨fields, rfl, hsorted⟩ := h.exists_fields hroot
    obtain ⟨fields', rfl, hsorted'⟩ := h'.exists_fields hroot
    refine congrArg Value.object (eq_of_lookup hsorted hsorted' fun key => ?_)
    cases hchild : fields.lookup key with
    | none =>
        by_contra hkey
        exact h'.lookup_ne_none h hroot (Ne.symm hkey) hchild
    | some child =>
        obtain ⟨child', hchild'⟩ := Option.ne_none_iff_exists'.mp
          (h.lookup_ne_none h' hroot (by rw [hchild]; exact Option.some_ne_none _))
        have hmem : (key, child) ∈ fields := (lookup_eq_some_iff hsorted).mp hchild
        rw [hchild', Spells.unique (h.child hroot hchild) (h'.child hroot hchild')]
termination_by sizeOf first
decreasing_by
  subst_vars
  have hlt := List.sizeOf_lt_of_mem hmem
  simp only [Prod.mk.sizeOf_spec, Value.object.sizeOf_spec] at hlt ⊢
  omega

theorem lookup_materialiseEntries (key : String) (tree : Tree) :
    (materialiseEntries tree).lookup key = (tree.lookup key).map materialiseNode := by
  induction tree with
  | nil => rfl
  | cons entry rest ih =>
      rw [materialiseEntries, lookup_cons, lookup_cons, ih]
      split <;> rfl

theorem keys_materialiseEntries (tree : Tree) : keys (materialiseEntries tree) = keys tree := by
  induction tree with
  | nil => rfl
  | cons entry rest ih => rw [materialiseEntries, keys_cons, keys_cons, ih]

/-- A leaf of the tree is read at its path. -/
theorem getPath_of_leafAt {path : List String} {node : Node String Value} {value : Value}
    (h : node.leafAt path = some value) : (materialiseNode node).getPath path = some value := by
  induction path generalizing node with
  | nil =>
      cases node with
      | leaf other => exact h
      | branch sub => cases h
  | cons key rest ih =>
      cases node with
      | leaf other => cases h
      | branch sub =>
          rw [Node.leafAt] at h
          obtain ⟨child, hchild, hleaf⟩ := Option.bind_eq_some_iff.mp h
          rw [materialiseNode, getPath_cons, lookup_materialiseEntries, hchild]
          exact ih hleaf

/-- What is read in a node is in a leaf, or on the way to one. -/
theorem of_getPath_materialiseNode {path : List String} {node : Node String Value} {value : Value}
    (hcanonical : node.Canonical) (h : (materialiseNode node).getPath path = some value) :
    (∃ before nested, node.leafAt before = some nested ∧ before <+: path) ∨
    (∃ beyond nested, node.leafAt beyond = some nested ∧ path <+: beyond) ∧
      ∃ fields, value = .object fields ∧ (keys fields).Pairwise (· < ·) := by
  induction path generalizing node with
  | nil =>
      obtain ⟨beyond, nested, hleaf⟩ := hcanonical.exists_leaf
      cases hcanonical with
      | leaf other => exact .inl ⟨[], other, rfl, List.nil_prefix⟩
      | @branch sub hne hsorted hsub =>
          refine .inr ⟨⟨beyond, nested, hleaf, List.nil_prefix⟩, materialiseEntries sub,
            (Option.some.inj h).symm, ?_⟩
          rwa [keys_materialiseEntries]
  | cons key rest ih =>
      cases hcanonical with
      | leaf other => exact .inl ⟨[], other, rfl, List.nil_prefix⟩
      | @branch sub hne hsorted hsub =>
          rw [materialiseNode, getPath_cons, lookup_materialiseEntries] at h
          obtain ⟨_, hchild, hvalue⟩ := Option.bind_eq_some_iff.mp h
          obtain ⟨child, hlookup, rfl⟩ := Option.map_eq_some_iff.mp hchild
          have hleaf : ∀ path nested, child.leafAt path = some nested →
              (Node.branch sub).leafAt (key :: path) = some nested := by
            intro path nested hleaf
            rw [Node.leafAt, hlookup]
            exact hleaf
          rcases ih (hsub _ ((lookup_eq_some_iff hsorted).mp hlookup)) hvalue with
            ⟨before, nested, hbefore, hprefix⟩ | ⟨⟨beyond, nested, hbeyond, hprefix⟩, hfields⟩
          · exact .inl ⟨key :: before, nested, hleaf _ _ hbefore,
              List.cons_prefix_cons.mpr ⟨rfl, hprefix⟩⟩
          · exact .inr ⟨⟨key :: beyond, nested, hleaf _ _ hbeyond,
              List.cons_prefix_cons.mpr ⟨rfl, hprefix⟩⟩, hfields⟩

/-- The object written out holds the leaves of the tree and nothing else. -/
theorem spells_materialise {root : Tree} {leaves : List (List String × Value)}
    (h : Holds root leaves) :
    Spells (fun path value => (path, value) ∈ leaves) (materialise root) where
  holds path value hleaf := by
    rw [← h.leafAt_iff] at hleaf
    exact getPath_of_leafAt hleaf
  nothing_else path value hvalue := by
    simp only [← h.leafAt_iff]
    rcases eq_or_ne root [] with rfl | hne
    · refine .inr ?_
      cases path with
      | nil => exact ⟨.inl rfl, [], (Option.some.inj hvalue).symm, List.Pairwise.nil⟩
      | cons key rest => cases hvalue
    · exact (of_getPath_materialiseNode (.branch hne h.canonical.sorted h.canonical.canonical)
        hvalue).imp_right fun hbranch => ⟨.inr hbranch.1, hbranch.2⟩

end Spells

/-- The leaves of the object nested from `entries`: the nested value of each entry at the path that
its key spells. -/
def IsLeaf (depth : ℕ) (entries : List (String × Value)) (path : List String) (nested : Value) :
    Prop :=
  ∃ entry ∈ entries, path = segments entry.1 ∧ nestInner entry.2 (depth + 1) = .ok nested

/-- **The object of an object holds the nested value of each entry at the path of its key, and
nothing else.** -/
theorem spells_nestInner {entries : List (String × Value)} {depth : ℕ} {out : Value}
    (h : nestInner (.object entries) depth = .ok out) :
    (∀ entry ∈ entries, ∃ nested, nestInner entry.2 (depth + 1) = .ok nested) ∧
      Spells (IsLeaf depth entries) out := by
  obtain ⟨-, leaves, root, hleaves, hholds, rfl⟩ := nestInner_object_iff.mp h
  have hback : List.Forall₂ (fun leaf entry => NestedEntry depth entry leaf) leaves entries :=
    hleaves.flip
  have hleaf : (fun path value => (path, value) ∈ leaves) = IsLeaf depth entries := by
    funext path nested
    refine propext ⟨fun hmem => ?_, ?_⟩
    · obtain ⟨entry, hentry, hleaf⟩ := exists_of_forall₂ hback _ hmem
      exact ⟨entry, hentry, hleaf.path, hleaf.nested⟩
    · rintro ⟨entry, hentry, rfl, hnested⟩
      obtain ⟨leaf, hleaf, hleafEntry⟩ := exists_of_forall₂ hleaves entry hentry
      have hvalue : nested = leaf.2 := Except.ok.inj (hnested.symm.trans hleafEntry.nested)
      rw [hvalue, ← hleafEntry.path]
      exact hleaf
  refine ⟨fun entry hentry => ?_, hleaf ▸ spells_materialise hholds⟩
  obtain ⟨leaf, -, hleafEntry⟩ := exists_of_forall₂ hleaves entry hentry
  exact ⟨leaf.2, hleafEntry.nested⟩

/-- A scalar is its own nested form. -/
theorem eq_of_nestInner_scalar {value out : Value} {depth : ℕ} (h : IsScalar value)
    (hout : nestInner value depth = .ok out) : out = value := by
  rcases Nat.lt_or_ge maxValueDepth depth with hlt | hle
  · rw [nestInner.eq_def, if_pos hlt] at hout
    exact nomatch hout
  · rw [nestInner_scalar h hle] at hout
    exact (Except.ok.inj hout).symm

/-- Two keys with a segment in common, and a number. -/
def dotted : Value := .object [("id.host", .null), ("id.port", .int 80), ("n", .array [.null])]

theorem withinLimits_dotted : WithinLimits 0 dotted := by
  refine .object (by decide) (by decide) fun entry hentry => ?_
  rcases List.mem_cons.mp hentry with rfl | hentry
  · exact .scalar (by decide) trivial
  rcases List.mem_cons.mp hentry with rfl | hentry
  · exact .scalar (by decide) trivial
  obtain rfl := List.mem_singleton.mp hentry
  refine .array (by decide) fun item hitem => ?_
  obtain rfl := List.mem_singleton.mp hitem
  exact .scalar (by decide) trivial

theorem segments_dotted : segments "id.host" = ["id", "host"] ∧
    segments "id.port" = ["id", "port"] ∧ segments "n" = ["n"] := by
  decide

theorem nestable_dotted : Nestable dotted := by
  obtain ⟨hhost, hport, hn⟩ := segments_dotted
  refine .object ?_ ?_ fun entry hentry => ?_
  · simp [hhost, hport, hn]
  · simp [hhost, hport, hn, Apart, List.cons_prefix_cons]
  rcases List.mem_cons.mp hentry with rfl | hentry
  · exact .scalar trivial
  rcases List.mem_cons.mp hentry with rfl | hentry
  · exact .scalar trivial
  obtain rfl := List.mem_singleton.mp hentry
  refine .array fun item hitem => ?_
  obtain rfl := List.mem_singleton.mp hitem
  exact .scalar trivial

end Limpid.Functions.NestDotted
