import Mathlib.Data.List.Infix
import Mathlib.Order.Lattice
import Limpid.Entries

/-!
# Trees of paths

A `Forest` holds values at the ends of paths.  A path leads through branches to a leaf, so of two
paths none is a prefix of the other (`Apart`).  Children are kept in the order of their keys, and a
branch has a child at least: a forest is then determined by its leaves (`Canonical.eq_of_leafAt`).

`insert` puts a value at the end of a new path, and fails exactly when the path is not apart from
one that is there (`insert_ok_iff`).  `Holds` is what a run of insertions keeps: the leaves are the
pairs inserted so far, in whatever order.
-/

namespace Limpid.Trie

open Entries

/-! ## Sorted maps -/

section Maps

variable {K W : Type*} [LinearOrder K]

/-- Write into a map that is in the order of its keys. -/
def put (key : K) (value : W) : List (K × W) → List (K × W)
  | [] => [(key, value)]
  | (k, v) :: rest =>
    if key < k then (key, value) :: (k, v) :: rest
    else if key = k then (key, value) :: rest
    else (k, v) :: put key value rest

theorem lookup_put (key k : K) (value : W) (map : List (K × W)) :
    (put key value map).lookup k = if k = key then some value else map.lookup k := by
  induction map with
  | nil => rw [put, lookup_cons]
  | cons entry rest ih =>
      obtain ⟨k', v⟩ := entry
      rw [put]
      by_cases hlt : key < k'
      · rw [if_pos hlt, lookup_cons]
      by_cases heq : key = k'
      · subst heq
        rw [if_neg hlt, if_pos rfl, lookup_cons, lookup_cons]
        by_cases hk : k = key <;> simp [hk]
      · rw [if_neg hlt, if_neg heq, lookup_cons, lookup_cons, ih]
        by_cases hk : k = k'
        · subst hk
          simp [Ne.symm heq]
        · simp [hk]

theorem mem_put {key : K} {value : W} {map : List (K × W)} {entry : K × W}
    (h : entry ∈ put key value map) : entry = (key, value) ∨ entry ∈ map := by
  induction map with
  | nil => exact .inl (List.mem_singleton.mp h)
  | cons other rest ih =>
      obtain ⟨k, v⟩ := other
      rw [put] at h
      split_ifs at h
      · exact List.mem_cons.mp h
      · rcases List.mem_cons.mp h with heq | hmem
        · exact .inl heq
        · exact .inr (List.mem_cons_of_mem _ hmem)
      · rcases List.mem_cons.mp h with heq | hmem
        · exact .inr (List.mem_cons.mpr (.inl heq))
        · exact (ih hmem).imp id (List.mem_cons_of_mem _)

theorem put_ne_nil (key : K) (value : W) (map : List (K × W)) : put key value map ≠ [] := by
  cases map with
  | nil => exact List.cons_ne_nil _ _
  | cons entry rest =>
      rw [put]
      split_ifs <;> exact List.cons_ne_nil _ _

theorem pairwise_put {map : List (K × W)} (h : (keys map).Pairwise (· < ·)) (key : K) (value : W) :
    (keys (put key value map)).Pairwise (· < ·) := by
  induction map with
  | nil => exact List.pairwise_singleton _ _
  | cons entry rest ih =>
      obtain ⟨k, v⟩ := entry
      have hsorted := h
      rw [keys_cons, List.pairwise_cons] at h
      rw [put]
      split_ifs with hlt heq
      · rw [keys_cons, List.pairwise_cons]
        refine ⟨?_, hsorted⟩
        intro k' hk'
        rcases List.mem_cons.mp hk' with rfl | hk'
        · exact hlt
        · exact hlt.trans (h.1 k' hk')
      · rw [keys_cons, List.pairwise_cons]
        exact ⟨fun k' hk' => heq ▸ h.1 k' hk', h.2⟩
      · rw [keys_cons, List.pairwise_cons]
        refine ⟨?_, ih h.2⟩
        intro k' hk'
        obtain ⟨entry, hentry, rfl⟩ := List.mem_map.mp hk'
        rcases mem_put hentry with rfl | hmem
        · exact lt_of_le_of_ne (not_lt.mp hlt) (Ne.symm heq)
        · exact h.1 _ (List.mem_map_of_mem hmem)

theorem lookup_eq_some_iff {map : List (K × W)} (h : (keys map).Pairwise (· < ·)) {key : K}
    {value : W} : map.lookup key = some value ↔ (key, value) ∈ map := by
  induction map with
  | nil => simp
  | cons entry rest ih =>
      rw [keys_cons, List.pairwise_cons] at h
      rw [lookup_cons, List.mem_cons]
      by_cases hkey : key = entry.1
      · have hnot : (key, value) ∉ rest := fun hmem =>
          lt_irrefl key (hkey.trans_lt (h.1 key (List.mem_map_of_mem hmem)))
        rw [if_pos hkey, or_iff_left hnot, Option.some.injEq]
        constructor
        · rintro rfl
          rw [hkey]
        · rintro rfl
          rfl
      · rw [if_neg hkey, ih h.2, or_iff_right]
        rintro rfl
        exact hkey rfl

/-- Sorted maps that read the same are the same. -/
theorem eq_of_lookup {first second : List (K × W)} (hfirst : (keys first).Pairwise (· < ·))
    (hsecond : (keys second).Pairwise (· < ·))
    (h : ∀ key, first.lookup key = second.lookup key) : first = second := by
  have hpairwise := List.pairwise_map.mp hfirst
  have hpairwise' := List.pairwise_map.mp hsecond
  have hperm : first.Perm second := by
    rw [List.perm_ext_iff_of_nodup (hpairwise.imp fun hlt heq => (heq ▸ hlt).false)
      (hpairwise'.imp fun hlt heq => (heq ▸ hlt).false)]
    rintro ⟨key, value⟩
    rw [← lookup_eq_some_iff hfirst, ← lookup_eq_some_iff hsecond, h]
  exact hperm.eq_of_pairwise (fun _ _ _ _ hlt hgt => absurd hlt (lt_asymm hgt)) hpairwise hpairwise'

end Maps

/-! ## Forests -/

/-- A leaf, or a branch with children under keys. -/
inductive Node (K V : Type*) where
  | leaf (value : V)
  | branch (children : List (K × Node K V))

/-- The entries of a map of nodes, in the order of their keys. -/
abbrev Forest (K V : Type*) := List (K × Node K V)

section Forests

variable {K V : Type*} [LinearOrder K]

/-- The value at the end of a path. -/
def Node.leafAt : Node K V → List K → Option V
  | .leaf value, [] => some value
  | .leaf _, _ :: _ => none
  | .branch _, [] => none
  | .branch children, key :: rest => (children.lookup key).bind fun child => child.leafAt rest

/-- The leaf at a path through the forest. -/
abbrev Forest.leafAt (forest : Forest K V) (path : List K) : Option V :=
  (Node.branch forest).leafAt path

/-- Children are in the order of their keys, and every branch has one. -/
inductive Node.Canonical : Node K V → Prop
  | leaf (value : V) : Canonical (.leaf value)
  | branch {children : List (K × Node K V)} (hne : children ≠ [])
      (hsorted : (keys children).Pairwise (· < ·)) (h : ∀ entry ∈ children, entry.2.Canonical) :
      Canonical (.branch children)

/-- A forest may be empty. -/
structure Forest.Canonical (forest : Forest K V) : Prop where
  sorted : (keys forest).Pairwise (· < ·)
  canonical : ∀ entry ∈ forest, entry.2.Canonical

theorem Forest.canonical_nil : Forest.Canonical ([] : Forest K V) :=
  ⟨List.Pairwise.nil, fun _ h => absurd h List.not_mem_nil⟩

theorem Forest.Canonical.of_lookup {forest : Forest K V} (h : forest.Canonical) {key : K}
    {node : Node K V} (hlookup : forest.lookup key = some node) : node.Canonical :=
  h.canonical _ ((lookup_eq_some_iff h.sorted).mp hlookup)

theorem Node.Canonical.forest {children : Forest K V} (h : (Node.branch children).Canonical) :
    children.Canonical := by
  cases h with
  | branch _ hsorted h => exact ⟨hsorted, h⟩

theorem Forest.Canonical.put {forest : Forest K V} (h : forest.Canonical) (key : K)
    {node : Node K V}
    (hnode : node.Canonical) : Forest.Canonical (put key node forest) := by
  refine ⟨pairwise_put h.sorted key node, fun entry hentry => ?_⟩
  rcases mem_put hentry with rfl | hmem
  · exact hnode
  · exact h.canonical _ hmem

/-- A branch leads to a leaf. -/
theorem Node.Canonical.exists_leaf {node : Node K V} (h : node.Canonical) :
    ∃ path value, node.leafAt path = some value := by
  induction h with
  | leaf value => exact ⟨[], value, rfl⟩
  | @branch children hne hsorted _ ih =>
      obtain ⟨entry, rest, rfl⟩ := List.exists_cons_of_ne_nil hne
      obtain ⟨path, value, hleaf⟩ := ih entry List.mem_cons_self
      refine ⟨entry.1 :: path, value, ?_⟩
      rw [Node.leafAt, lookup_cons, if_pos rfl]
      exact hleaf

/-- Which keys a forest has, its leaves say. -/
theorem Forest.Canonical.lookup_eq_none_iff {forest : Forest K V} (h : forest.Canonical) {key : K} :
    forest.lookup key = none ↔ ∀ rest, forest.leafAt (key :: rest) = none := by
  constructor
  · intro hnone rest
    rw [Forest.leafAt, Node.leafAt, hnone]
    rfl
  · intro hnone
    cases hlookup : forest.lookup key with
    | none => rfl
    | some node =>
        obtain ⟨path, value, hleaf⟩ := (h.of_lookup hlookup).exists_leaf
        have hpath := hnone path
        rw [Forest.leafAt, Node.leafAt, hlookup, Option.bind_some, hleaf] at hpath
        exact nomatch hpath

/-- Forests with the same leaves have the same keys, and below each key the same leaves. -/
theorem Forest.Canonical.eq_of_children {first second : Forest K V} (hfirst : first.Canonical)
    (hsecond : second.Canonical) (h : ∀ path, first.leafAt path = second.leafAt path)
    (hchild : ∀ entry ∈ first, ∀ other : Node K V, other.Canonical →
      (∀ path, entry.2.leafAt path = other.leafAt path) → entry.2 = other) : first = second := by
  refine eq_of_lookup hfirst.sorted hsecond.sorted fun key => ?_
  have hnone : first.lookup key = none ↔ second.lookup key = none := by
    rw [hfirst.lookup_eq_none_iff, hsecond.lookup_eq_none_iff]
    exact forall_congr' fun rest => by rw [h]
  cases hnode : first.lookup key with
  | none => exact (hnone.mp hnode).symm
  | some node =>
      cases hother : second.lookup key with
      | none => exact absurd (hnone.mpr hother) (by simp [hnode])
      | some other =>
          have hmem := (lookup_eq_some_iff hfirst.sorted).mp hnode
          refine congrArg some (hchild _ hmem other (hsecond.of_lookup hother) fun path => ?_)
          have hpath := h (key :: path)
          simpa [Forest.leafAt, Node.leafAt, hnode, hother] using hpath

/-- A node is determined by its leaves. -/
theorem Node.Canonical.eq_of_leafAt {first second : Node K V} (hfirst : first.Canonical)
    (hsecond : second.Canonical) (h : ∀ path, first.leafAt path = second.leafAt path) :
    first = second := by
  induction hfirst generalizing second with
  | leaf value =>
      have hempty := h []
      cases hsecond with
      | leaf other => exact congrArg Node.leaf (Option.some.inj hempty)
      | branch _ _ _ => exact nomatch hempty
  | @branch children hne hsorted hchildren ih =>
      cases hsecond with
      | leaf other => exact absurd (h []) (Option.some_ne_none other).symm
      | branch _ hsorted' hchildren' =>
          exact congrArg Node.branch (Forest.Canonical.eq_of_children ⟨hsorted, hchildren⟩
            ⟨hsorted', hchildren'⟩ h fun entry hentry _ hother hleaf =>
              ih entry hentry hother hleaf)

/-- **A forest is determined by its leaves.** -/
theorem Forest.Canonical.eq_of_leafAt {first second : Forest K V} (hfirst : first.Canonical)
    (hsecond : second.Canonical) (h : ∀ path, first.leafAt path = second.leafAt path) :
    first = second :=
  hfirst.eq_of_children hsecond h fun _ hentry _ hother hleaf =>
    (hfirst.canonical _ hentry).eq_of_leafAt hother hleaf

end Forests

/-! ## Insertion -/

/-- None of the paths leads through the other. -/
def Apart {K : Type*} (first second : List K) : Prop := ¬ first <+: second ∧ ¬ second <+: first

theorem Apart.symm {K : Type*} {first second : List K} (h : Apart first second) :
    Apart second first := ⟨h.2, h.1⟩

theorem apart_cons_cons_iff {K : Type*} {key other : K} {first second : List K} :
    Apart (key :: first) (other :: second) ↔ (key = other → Apart first second) := by
  unfold Apart
  rw [List.cons_prefix_cons, List.cons_prefix_cons]
  constructor
  · rintro ⟨hfirst, hsecond⟩ rfl
    exact ⟨fun h => hfirst ⟨rfl, h⟩, fun h => hsecond ⟨rfl, h⟩⟩
  · exact fun h => ⟨fun hfirst => (h hfirst.1).1 hfirst.2,
      fun hsecond => (h hsecond.1.symm).2 hsecond.2⟩

theorem apart_cons_iff {K : Type*} {key : K} {first second : List K} :
    Apart (key :: first) (key :: second) ↔ Apart first second := by
  simp [apart_cons_cons_iff]

theorem apart_of_ne {K : Type*} {key other : K} (h : key ≠ other) (first second : List K) :
    Apart (key :: first) (other :: second) :=
  apart_cons_cons_iff.mpr fun heq => absurd heq h

theorem not_apart_nil {K : Type*} (path : List K) : ¬ Apart [] path :=
  fun h => h.1 List.nil_prefix

section Insertion

variable {K V ε : Type*} [LinearOrder K] (occupied underLeaf : K → ε)

/-- Put a value at the end of a path.  The two errors name the key at which the path meets one that
is there: there is a node at its end, or a leaf on its way. -/
def insert (head : K) : List K → V → Forest K V → Except ε (Forest K V)
  | [], value, forest =>
    match forest.lookup head with
    | none => .ok (put head (.leaf value) forest)
    | some _ => .error (occupied head)
  | next :: rest, value, forest =>
    match forest.lookup head with
    | none => (insert next rest value []).map fun sub => put head (.branch sub) forest
    | some (.branch sub) => (insert next rest value sub).map fun sub =>
      put head (.branch sub) forest
    | some (.leaf _) => .error (underLeaf head)

/-- A path that is apart from those that are there. -/
def Forest.Free (forest : Forest K V) (path : List K) : Prop :=
  ∀ other value, forest.leafAt other = some value → Apart path other

theorem free_nil (path : List K) : Forest.Free ([] : Forest K V) path := by
  intro other value h
  cases other <;> exact nomatch h

/-- Below the first key of a path. -/
theorem free_cons_iff {forest : Forest K V} {head : K} {rest : List K} :
    forest.Free (head :: rest) ↔
      ∀ node, forest.lookup head = some node →
        ∀ path value, node.leafAt path = some value → Apart rest path := by
  constructor
  · intro h node hnode path value hleaf
    refine apart_cons_iff.mp (h (head :: path) value ?_)
    rw [Forest.leafAt, Node.leafAt, hnode, Option.bind_some, hleaf]
  · intro h other value hleaf
    cases other with
    | nil => exact nomatch hleaf
    | cons key path =>
        by_cases hkey : head = key
        · subst hkey
          obtain ⟨node, hnode, hpath⟩ := Option.bind_eq_some_iff.mp hleaf
          exact apart_cons_iff.mpr (h node hnode path value hpath)
        · exact apart_of_ne hkey rest path

/-- **A path can be inserted exactly when it is apart from those that are there.** -/
theorem insert_ok_iff {head : K} {rest : List K} {value : V} {forest : Forest K V}
    (h : forest.Canonical) :
    (∃ forest', insert occupied underLeaf head rest value forest = .ok forest') ↔
      forest.Free (head :: rest) := by
  induction rest generalizing head forest with
  | nil =>
      rw [insert, free_cons_iff]
      cases hnode : forest.lookup head with
      | none => exact iff_of_true ⟨_, rfl⟩ (fun node heq => nomatch heq)
      | some node =>
          refine iff_of_false (fun ⟨_, heq⟩ => nomatch heq) fun hfree => ?_
          obtain ⟨path, value, hleaf⟩ := (h.of_lookup hnode).exists_leaf
          exact not_apart_nil path (hfree node rfl path value hleaf)
  | cons next rest ih =>
      have hmap : ∀ sub : Forest K V,
          (∃ forest', (insert occupied underLeaf next rest value sub).map
            (fun sub => put head (.branch sub) forest) = .ok forest') ↔
          ∃ sub', insert occupied underLeaf next rest value sub = .ok sub' := by
        intro sub
        cases insert occupied underLeaf next rest value sub with
        | error e => exact iff_of_false (fun ⟨_, heq⟩ => nomatch heq) (fun ⟨_, heq⟩ => nomatch heq)
        | ok sub' => exact iff_of_true ⟨_, rfl⟩ ⟨_, rfl⟩
      rw [insert, free_cons_iff]
      cases hnode : forest.lookup head with
      | none =>
          refine iff_of_true ((hmap []).mpr ?_) (fun node heq => nomatch heq)
          exact (ih Forest.canonical_nil).mpr (free_nil _)
      | some node =>
          cases node with
          | leaf other =>
              refine iff_of_false (fun ⟨_, heq⟩ => nomatch heq) fun hfree => ?_
              exact not_apart_nil _ (hfree (.leaf other) rfl [] other rfl).symm
          | branch sub =>
              dsimp only
              rw [hmap sub, ih (h.of_lookup hnode).forest]
              constructor
              · rintro hfree node heq
                obtain rfl := Option.some.inj heq
                exact hfree
              · intro hfree
                exact hfree (.branch sub) rfl

/-- What an insertion does: it writes a node at the first key of the path. -/
theorem insert_cases {head : K} {rest : List K} {value : V} {forest forest' : Forest K V}
    (h : insert occupied underLeaf head rest value forest = .ok forest') :
    (rest = [] ∧ forest.lookup head = none ∧ forest' = put head (.leaf value) forest) ∨
    ∃ next rest' sub sub', rest = next :: rest' ∧
      insert occupied underLeaf next rest' value sub = .ok sub' ∧
      forest' = put head (.branch sub') forest ∧
      (forest.lookup head = none ∧ sub = [] ∨ forest.lookup head = some (.branch sub)) := by
  cases rest with
  | nil =>
      rw [insert] at h
      split at h
      · rename_i hnode
        exact .inl ⟨rfl, hnode, (Except.ok.inj h).symm⟩
      · exact nomatch h
  | cons next rest =>
      have hmap : ∀ sub : Forest K V,
          (insert occupied underLeaf next rest value sub).map
            (fun sub => put head (.branch sub) forest) = .ok forest' →
          ∃ sub', insert occupied underLeaf next rest value sub = .ok sub' ∧
            forest' = put head (.branch sub') forest := by
        intro sub hsub
        cases hsub' : insert occupied underLeaf next rest value sub with
        | error e => rw [hsub'] at hsub; exact nomatch hsub
        | ok sub' => rw [hsub'] at hsub; exact ⟨sub', rfl, (Except.ok.inj hsub).symm⟩
      rw [insert] at h
      split at h
      · rename_i hnode
        obtain ⟨sub', hsub', hforest⟩ := hmap [] h
        exact .inr ⟨next, rest, [], sub', rfl, hsub', hforest, .inl ⟨hnode, rfl⟩⟩
      · rename_i sub hnode
        obtain ⟨sub', hsub', hforest⟩ := hmap sub h
        exact .inr ⟨next, rest, sub, sub', rfl, hsub', hforest, .inr hnode⟩
      · exact nomatch h

theorem insert_ne_nil {head : K} {rest : List K} {value : V} {forest forest' : Forest K V}
    (h : insert occupied underLeaf head rest value forest = .ok forest') : forest' ≠ [] := by
  obtain ⟨-, -, rfl⟩ | ⟨-, -, -, -, -, -, rfl, -⟩ := insert_cases occupied underLeaf h
  · exact put_ne_nil _ _ _
  · exact put_ne_nil _ _ _

/-- **An insertion keeps the form of a forest.** -/
theorem canonical_insert {head : K} {rest : List K} {value : V} {forest forest' : Forest K V}
    (hforest : forest.Canonical)
    (h : insert occupied underLeaf head rest value forest = .ok forest') : forest'.Canonical := by
  induction rest generalizing head forest forest' with
  | nil =>
      obtain ⟨-, -, rfl⟩ | ⟨_, _, _, _, heq, -⟩ := insert_cases occupied underLeaf h
      · exact hforest.put head (.leaf value)
      · exact nomatch heq
  | cons next rest ih =>
      obtain ⟨heq, -, -⟩ | ⟨_, _, sub, sub', heq, hsub, rfl, hnode⟩ :=
        insert_cases occupied underLeaf h
      · exact nomatch heq
      · obtain ⟨rfl, rfl⟩ := List.cons.inj heq
        have hcanonical : sub.Canonical := by
          rcases hnode with ⟨-, rfl⟩ | hnode
          · exact Forest.canonical_nil
          · exact (hforest.of_lookup hnode).forest
        have hsub' := ih hcanonical hsub
        exact hforest.put head (.branch (insert_ne_nil _ _ hsub) hsub'.sorted hsub'.canonical)

/-- **An insertion adds its leaf and no other.** -/
theorem leafAt_insert {head : K} {rest : List K} {value : V} {forest forest' : Forest K V}
    (h : insert occupied underLeaf head rest value forest = .ok forest') (path : List K) :
    forest'.leafAt path = if path = head :: rest then some value else forest.leafAt path := by
  induction rest generalizing head forest forest' path with
  | nil =>
      obtain ⟨-, hnode, rfl⟩ | ⟨_, _, _, _, heq, -⟩ := insert_cases occupied underLeaf h
      · cases path with
        | nil => rfl
        | cons key path =>
            rw [Forest.leafAt, Forest.leafAt, Node.leafAt, Node.leafAt, lookup_put]
            by_cases hkey : key = head
            · subst hkey
              rw [if_pos rfl, hnode]
              cases path with
              | nil => simp [Node.leafAt]
              | cons key' path => simp [Node.leafAt]
            · simp [hkey]
      · exact nomatch heq
  | cons next rest ih =>
      obtain ⟨heq, -, -⟩ | ⟨_, _, sub, sub', heq, hsub, rfl, hnode⟩ :=
        insert_cases occupied underLeaf h
      · exact nomatch heq
      · obtain ⟨rfl, rfl⟩ := List.cons.inj heq
        cases path with
        | nil => rfl
        | cons key path =>
            rw [Forest.leafAt, Forest.leafAt, Node.leafAt, Node.leafAt, lookup_put]
            by_cases hkey : key = head
            · subst hkey
              have hpath := ih hsub path
              rw [if_pos rfl, Option.bind_some]
              rw [Forest.leafAt, Forest.leafAt] at hpath
              rw [hpath]
              rcases hnode with ⟨hnone, rfl⟩ | hnode
              · rw [hnone]
                cases path <;> simp [Node.leafAt]
              · rw [hnode, Option.bind_some]
                simp
            · simp [hkey]

end Insertion

/-! ## Runs of insertions -/

section Runs

variable {K V : Type*} [LinearOrder K]

/-- The leaves of a forest are these pairs. -/
structure Holds (forest : Forest K V) (pairs : List (List K × V)) : Prop where
  canonical : forest.Canonical
  leafAt_iff : ∀ path value, forest.leafAt path = some value ↔ (path, value) ∈ pairs
  apart : pairs.Pairwise fun first second => Apart first.1 second.1

theorem holds_nil : Holds ([] : Forest K V) [] := by
  refine ⟨Forest.canonical_nil, fun path value => ?_, List.Pairwise.nil⟩
  refine iff_of_false (fun h => ?_) List.not_mem_nil
  cases path <;> exact nomatch h

theorem Holds.perm {forest : Forest K V} {pairs pairs' : List (List K × V)} (h : Holds forest pairs)
    (hperm : pairs.Perm pairs') : Holds forest pairs' :=
  ⟨h.canonical, fun path value => (h.leafAt_iff path value).trans hperm.mem_iff,
    (hperm.pairwise_iff fun hapart => hapart.symm).mp h.apart⟩

/-- **The pairs determine the forest.** -/
theorem Holds.unique {forest forest' : Forest K V} {pairs : List (List K × V)}
    (h : Holds forest pairs) (h' : Holds forest' pairs) : forest = forest' := by
  refine h.canonical.eq_of_leafAt h'.canonical fun path => Option.ext fun value => ?_
  exact (h.leafAt_iff path value).trans (h'.leafAt_iff path value).symm

variable {ε : Type*} (occupied underLeaf : K → ε)

/-- The step of a run. -/
theorem Holds.insert_iff {forest : Forest K V} {pairs : List (List K × V)} (h : Holds forest pairs)
    (head : K) (rest : List K) (value : V) :
    (∃ forest', insert occupied underLeaf head rest value forest = .ok forest') ↔
      ∀ pair ∈ pairs, Apart (head :: rest) pair.1 := by
  rw [insert_ok_iff occupied underLeaf h.canonical]
  constructor
  · rintro hfree ⟨path, value⟩ hmem
    exact hfree path value ((h.leafAt_iff path value).mpr hmem)
  · intro hapart path value hleaf
    exact hapart (path, value) ((h.leafAt_iff path value).mp hleaf)

theorem Holds.insert {forest forest' : Forest K V} {pairs : List (List K × V)}
    (h : Holds forest pairs) {head : K} {rest : List K} {value : V}
    (hinsert : Trie.insert occupied underLeaf head rest value forest = .ok forest') :
    Holds forest' ((head :: rest, value) :: pairs) := by
  have hapart := (h.insert_iff occupied underLeaf head rest value).mp ⟨_, hinsert⟩
  refine ⟨canonical_insert _ _ h.canonical hinsert, fun path other => ?_,
    List.pairwise_cons.mpr ⟨hapart, h.apart⟩⟩
  rw [leafAt_insert _ _ hinsert, List.mem_cons]
  by_cases hpath : path = head :: rest
  · subst hpath
    have hnot : (head :: rest, other) ∉ pairs := fun hmem => (hapart _ hmem).1 List.prefix_rfl
    simp [hnot, eq_comm]
  · simp [hpath, h.leafAt_iff]

end Runs

end Limpid.Trie
