import Limpid.Prometheus.Snapshot

/-!
# The derived family

What `derive_dropped_own` computes, without its indices.  The index of a series' parent is the
last place whose labels are those of a parent (`parent_eq_lastPlace`), and what the loop over the
children leaves at a place is the value there less the sum of the values whose parent it is
(`foldl_subtractChild`).  When no series has two parents, the places go and the labels remain
(`derived_mem`).
-/

namespace Limpid.Prometheus

open Dsl Metrics

/-! ## Parents by their labels -/

/-- The series of a pipeline. -/
def isRootOf (pipeline : String) (labels : Labels) : Bool :=
  labelValue labels processLabelPath = some processPathRoot &&
    labelValue labels processLabelPipeline = some pipeline

/-- The series of a frame. -/
def isFrameAt (others : Labels) (path : String) (labels : Labels) : Bool :=
  path ≠ processPathRoot && labelValue labels processLabelPath = some path &&
    dimensions labels = others

/-- Whether a series is a parent, by the labels of the child. -/
def isParentOf (child : Labels) (labels : Labels) : Bool :=
  match (labelValue child processLabelPath).bind processPathParent with
  | none => false
  | some path =>
      if path = processPathRoot then
        match labelValue child processLabelPipeline with
        | none => false
        | some pipeline => isRootOf pipeline labels
      else isFrameAt (dimensions child) path labels

/-- The last place whose labels satisfy a predicate. -/
def lastPlace (p : Labels → Bool) : ℕ → List Labels → Option ℕ
  | _, [] => none
  | start, labels :: rest =>
      (lastPlace p (start + 1) rest).or (if p labels then some start else none)

section Places

variable {p : Labels → Bool} {labels : List Labels}

theorem lastPlace_eq_none {start : ℕ} (h : ∀ l ∈ labels, p l = false) :
    lastPlace p start labels = none := by
  induction labels generalizing start with
  | nil => rfl
  | cons first rest ih =>
      obtain ⟨hfirst, hrest⟩ := List.forall_mem_cons.mp h
      rw [lastPlace, ih hrest, hfirst]
      rfl

theorem lastPlace_append (start : ℕ) (before after : List Labels) :
    lastPlace p start (before ++ after) =
      (lastPlace p (start + before.length) after).or (lastPlace p start before) := by
  induction before generalizing start with
  | nil => simp [lastPlace]
  | cons first rest ih =>
      rw [List.cons_append, lastPlace, ih, lastPlace, Option.or_assoc, List.length_cons,
        Nat.add_assoc, Nat.add_comm 1]

/-- The only place is the last. -/
theorem lastPlace_eq_some {before after : List Labels} {l : Labels} (hl : p l = true)
    (hbefore : ∀ l ∈ before, p l = false) (hafter : ∀ l ∈ after, p l = false) :
    lastPlace p 0 (before ++ l :: after) = some before.length := by
  rw [lastPlace_append, lastPlace_eq_none hbefore, lastPlace, lastPlace_eq_none hafter, if_pos hl]
  simp

theorem exists_of_lastPlace {start i : ℕ} (h : lastPlace p start labels = some i) :
    ∃ k l, i = start + k ∧ labels[k]? = some l ∧ p l = true := by
  induction labels generalizing start with
  | nil => exact nomatch h
  | cons first rest ih =>
      rw [lastPlace, Option.or_eq_some_iff] at h
      rcases h with hrest | ⟨-, hfirst⟩
      · obtain ⟨k, l, rfl, hl, hp⟩ := ih hrest
        exact ⟨k + 1, l, by omega, hl, hp⟩
      · split at hfirst
        · next hp => exact ⟨0, first, (Option.some.inj hfirst).symm, rfl, hp⟩
        · exact nomatch hfirst

end Places

/-! ## Indices -/

theorem addAll_roots (indices : Indices) (start : ℕ) (labels : List Labels) (pipeline : String) :
    (indices.addAll start labels).roots.lookup pipeline =
      (lastPlace (isRootOf pipeline) start labels).or (indices.roots.lookup pipeline) := by
  induction labels generalizing indices start with
  | nil => rfl
  | cons first rest ih =>
      rw [Indices.addAll, ih, lastPlace, Option.or_assoc]
      congr 1
      unfold Indices.add isRootOf
      cases hpath : labelValue first processLabelPath with
      | none => simp
      | some path =>
          by_cases hroot : path = processPathRoot
          · cases hname : labelValue first processLabelPipeline with
            | none => simp [hroot]
            | some name =>
                by_cases heq : name = pipeline
                · simp [hroot, heq, Entries.lookup_cons]
                · simp [hroot, heq, Ne.symm heq, Entries.lookup_cons]
          · simp [hroot]

theorem addAll_parents (indices : Indices) (start : ℕ) (labels : List Labels) (others : Labels)
    {path : String} (hpath : path ≠ processPathRoot) :
    (indices.addAll start labels).parents.lookup (others, path) =
      (lastPlace (isFrameAt others path) start labels).or
        (indices.parents.lookup (others, path)) := by
  induction labels generalizing indices start with
  | nil => rfl
  | cons first rest ih =>
      rw [Indices.addAll, ih, lastPlace, Option.or_assoc]
      congr 1
      unfold Indices.add isFrameAt
      cases hfirst : labelValue first processLabelPath with
      | none => simp
      | some other =>
          by_cases hroot : other = processPathRoot
          · cases labelValue first processLabelPipeline <;> simp [hroot, Ne.symm hpath]
          · by_cases heq : other = path ∧ dimensions first = others
            · simp [heq.1, heq.2, hpath]
            · have hne : ((others, path) == (dimensions first, other)) = false :=
                beq_eq_false_iff_ne.mpr fun h => by
                  obtain ⟨hdim, hother⟩ := Prod.mk.inj h
                  exact heq ⟨hother.symm, hdim.symm⟩
              simp [hroot, List.lookup_cons, hne, hpath, heq]

/-- **The parent of a series** is at the last place with the labels of a parent. -/
theorem parent_eq_lastPlace (labels : List Labels) (child : Labels) :
    ((⟨[], []⟩ : Indices).addAll 0 labels).parent child =
      lastPlace (isParentOf child) 0 labels := by
  unfold Indices.parent
  simp only [Option.bind_eq_bind]
  rw [← Option.bind_assoc]
  unfold isParentOf
  cases hparent : (labelValue child processLabelPath).bind processPathParent with
  | none => exact (lastPlace_eq_none fun _ _ => rfl).symm
  | some path =>
      rw [Option.bind_some]
      by_cases hroot : path = processPathRoot
      · simp only [hroot, if_true]
        cases labelValue child processLabelPipeline with
        | none => exact (lastPlace_eq_none fun _ _ => rfl).symm
        | some pipeline =>
            have hroots := addAll_roots ⟨[], []⟩ 0 labels pipeline
            rwa [List.lookup_nil, Option.or_none] at hroots
      · simp only [hroot, if_false]
        have hparents := addAll_parents ⟨[], []⟩ 0 labels (dimensions child) hroot
        rwa [List.lookup_nil, Option.or_none] at hparents

/-! ## Subtraction -/

/-- What the children at a place hold together. -/
def childSum (parent : Labels → Option ℕ) (place : ℕ) (children : List (Labels × ℕ)) : ℕ :=
  ((children.filter fun child => parent child.1 = some place).map Prod.snd).sum

/-- **The loop over the children.** -/
theorem foldl_subtractChild (indices : Indices) (children : List (Labels × ℕ)) (own : List ℕ)
    (place : ℕ) : (children.foldl (subtractChild indices) own)[place]? =
      own[place]?.map (· - childSum indices.parent place children) := by
  induction children generalizing own with
  | nil => simp [childSum]
  | cons child rest ih =>
      rw [List.foldl_cons, ih]
      unfold subtractChild childSum
      cases hparent : indices.parent child.1 with
      | none => simp [hparent]
      | some index =>
          rw [List.getElem?_modify]
          by_cases heq : index = place
          · cases own[place]? <;> simp [hparent, heq, Nat.sub_sub]
          · simp [hparent, heq]

theorem length_foldl_subtractChild (indices : Indices) (children : List (Labels × ℕ))
    (own : List ℕ) : (children.foldl (subtractChild indices) own).length = own.length := by
  induction children generalizing own with
  | nil => rfl
  | cons child rest ih =>
      rw [List.foldl_cons, ih]
      unfold subtractChild
      cases indices.parent child.1 with
      | none => rfl
      | some index => exact List.length_modify _ _ _

/-- The derived series of a source of values. -/
def derivedSeries (values : List (Labels × ℕ)) : List ExpositionSeries :=
  List.zipWith (fun series own => .value series.1 own) values
    (values.foldl (subtractChild ((⟨[], []⟩ : Indices).addAll 0 (values.map Prod.fst)))
      (values.map Prod.snd))

/-- The derived series have the labels of their source. -/
theorem keys_derivedSeries (values : List (Labels × ℕ)) :
    Entries.keys ((derivedSeries values).filterMap ExpositionSeries.toValue) =
      values.map Prod.fst := by
  have hzip : ∀ (values : List (Labels × ℕ)) (own : List ℕ), values.length = own.length →
      Entries.keys ((List.zipWith (fun series own => ExpositionSeries.value series.1 own) values
        own).filterMap ExpositionSeries.toValue) = values.map Prod.fst := by
    intro values
    induction values with
    | nil => exact fun _ _ => rfl
    | cons first rest ih =>
        intro own hlength
        cases own with
        | nil => exact nomatch hlength
        | cons value more => exact congrArg (first.1 :: ·) (ih more (Nat.succ.inj hlength))
  refine hzip values _ ?_
  rw [length_foldl_subtractChild, List.length_map]

/-- The values of series that are all of values. -/
theorem mapM_toValue {series : List ExpositionSeries}
    (h : ∀ s ∈ series, ∃ labels value, s = .value labels value) :
    series.mapM ExpositionSeries.toValue = some (series.filterMap ExpositionSeries.toValue) := by
  induction series with
  | nil => rfl
  | cons first rest ih =>
      obtain ⟨⟨labels, value, rfl⟩, hrest⟩ := List.forall_mem_cons.mp h
      rw [List.mapM_cons, ih hrest]
      rfl

/-- No two series are parents of one. -/
def OneParent (values : List (Labels × ℕ)) : Prop :=
  ∀ child ∈ values.map Prod.fst, ∀ first ∈ values.map Prod.fst,
    ∀ second ∈ values.map Prod.fst, isParentOf child first = true →
      isParentOf child second = true → first = second

/-- **A derived series** has the value of its source less those of the children. -/
theorem derived_mem {values : List (Labels × ℕ)} (hnodup : (values.map Prod.fst).Nodup)
    (hone : OneParent values) {labels : Labels} {value : ℕ} (hmem : (labels, value) ∈ values) :
    .value labels (value -
      ((values.filter fun child => isParentOf child.1 labels).map Prod.snd).sum) ∈
        derivedSeries values := by
  obtain ⟨before, after, rfl⟩ := List.append_of_mem hmem
  obtain ⟨values, hvalues⟩ : ∃ values, values = before ++ (labels, value) :: after := ⟨_, rfl⟩
  rw [← hvalues] at hnodup hone ⊢
  have hlabels : values.map Prod.fst = before.map Prod.fst ++ labels :: after.map Prod.fst := by
    rw [hvalues, List.map_append, List.map_cons]
  have hplace : values[before.length]? = some (labels, value) := by
    simp [hvalues]
  -- a child has its parent here exactly when the labels here are those of its parent
  have hparent : ∀ child ∈ values,
      decide (((⟨[], []⟩ : Indices).addAll 0 (values.map Prod.fst)).parent child.1 =
        some before.length) = isParentOf child.1 labels := by
    intro child hchild
    have hmem : child.1 ∈ values.map Prod.fst := List.mem_map_of_mem hchild
    rw [parent_eq_lastPlace, Bool.eq_iff_iff, decide_eq_true_iff]
    constructor
    · intro hlast
      obtain ⟨k, l, hk, hl, hp⟩ := exists_of_lastPlace hlast
      rw [Nat.zero_add] at hk
      rw [← hk, List.getElem?_map, hplace] at hl
      have heq : labels = l := Option.some.inj hl
      rw [heq]
      exact hp
    · intro hp
      have hother : ∀ l ∈ values.map Prod.fst, l ≠ labels → isParentOf child.1 l = false := by
        intro l hl hne
        by_contra hpl
        exact hne (hone child.1 hmem l hl labels
          (hlabels ▸ List.mem_append_right _ List.mem_cons_self) (by simpa using hpl) hp)
      have hnotin := hlabels ▸ hnodup
      rw [List.nodup_middle, List.nodup_cons, List.mem_append, not_or] at hnotin
      have hlast := @lastPlace_eq_some _ (before.map Prod.fst) (after.map Prod.fst) labels hp
        (fun l hl => hother l (hlabels ▸ List.mem_append_left _ hl) fun heq =>
          hnotin.1.1 (heq ▸ hl))
        (fun l hl => hother l
          (hlabels ▸ List.mem_append_right _ (List.mem_cons_of_mem _ hl)) fun heq =>
            hnotin.1.2 (heq ▸ hl))
      rwa [List.length_map, ← hlabels] at hlast
  rw [List.mem_iff_getElem?]
  refine ⟨before.length, ?_⟩
  rw [derivedSeries, List.getElem?_zipWith_eq_some]
  refine ⟨(labels, value), value - ((values.filter fun child =>
    isParentOf child.1 labels).map Prod.snd).sum, hplace, ?_, rfl⟩
  rw [foldl_subtractChild, List.getElem?_map, hplace, childSum, List.filter_congr hparent]
  rfl

end Limpid.Prometheus
