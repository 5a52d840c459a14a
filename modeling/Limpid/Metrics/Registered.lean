import Mathlib.Data.List.Dedup
import Limpid.Dsl.Serialize
import Limpid.Metrics.Registry

/-!
# Registries made by registrations

What a successful registration does (`register_ok`): its key is new, and its series either joins
the one family of its name, which has its type, help and label names, or comes with a family of
its own.  From this follow the invariant of a registry (`Registry.Ok`) and, over any registrations
that succeed, that its series are those asked for (`buildAll_ok`).
-/

namespace Limpid.Metrics.RegistryCore

open Dsl

variable {rt : Runtime}

/-! ## Canonical labels -/

/-- Sorted labels without a repeated name have their names in strict order. -/
theorem keys_pairwise_of_firstRepeated {labels : Labels} (hsorted : labels.Pairwise LabelLe)
    (h : firstRepeated labels = none) : (Entries.keys labels).Pairwise (· < ·) := by
  rw [← List.isChain_iff_pairwise]
  induction labels with
  | nil => exact .nil
  | cons first rest ih =>
      cases rest with
      | nil => exact .singleton _
      | cons second others =>
          rw [firstRepeated] at h
          rw [List.pairwise_cons] at hsorted
          split at h
          · exact nomatch h
          · next hne =>
            have hle := (Prod.lex_def.mp (hsorted.1 second List.mem_cons_self))
            have hlt : first.1 < second.1 := hle.resolve_right fun heq => hne heq.1
            exact .cons_cons hlt (ih hsorted.2 h)

/-- The names of labels in strict order are already sorted and without repetition. -/
theorem labelNames_eq {labels : Labels} (h : (Entries.keys labels).Pairwise (· < ·)) :
    labelNames labels = Entries.keys labels := by
  have hsorted : (Entries.keys labels).Pairwise (· ≤ ·) := h.imp le_of_lt
  have hnodup : (Entries.keys labels).Nodup := h.imp ne_of_lt
  rw [labelNames, hsorted.insertionSort_eq, List.dedup_eq_self.mpr hnodup]

/-- As a map such labels are what they are. -/
theorem labelsMap_entries {labels : Labels} (h : (Entries.keys labels).Pairwise (· < ·)) :
    (labelsMap labels).entries = labels := by
  have hnodup : (Entries.keys labels).Nodup := h.imp ne_of_lt
  change (Entries.collect labels).insertionSort (·.1 ≤ ·.1) = labels
  rw [Entries.collect_of_nodup hnodup]
  exact List.Pairwise.insertionSort_eq ((List.pairwise_map.mp h).imp le_of_lt)

/-- Names in strict order put the labels in order. -/
theorem pairwise_labelLe {labels : Labels} (h : (Entries.keys labels).Pairwise (· < ·)) :
    labels.Pairwise LabelLe :=
  (List.pairwise_map.mp h).imp fun {_ _} hlt => Prod.lex_def.mpr (.inl hlt)

/-- Sorting finds the order of the names. -/
theorem canonicalLabels_eq {labels sorted : Labels} (hperm : labels.Perm sorted)
    (hsorted : (Entries.keys sorted).Pairwise (· < ·)) : canonicalLabels labels = sorted :=
  ((List.perm_insertionSort LabelLe labels).trans hperm).eq_of_pairwise
    (fun _ _ _ _ => antisymm) (List.pairwise_insertionSort LabelLe labels)
    (pairwise_labelLe hsorted)

/-! ## One registration -/

/-- The key under which a request is registered. -/
def Request.key (request : Request) : SeriesKey :=
  ⟨request.name, canonicalLabels request.labels⟩

/-- The series of a request. -/
def Request.series (request : Request) : Series :=
  ⟨canonicalLabels request.labels, request.kind.boundaries⟩

/-- The family that a request makes when there is none of its name. -/
def Request.family (request : Request) (help : String) : MetricFamily :=
  ⟨request.name, help, labelNames (canonicalLabels request.labels), request.kind.metricType,
    [request.series]⟩

/-- A request passes the checks of its own. -/
structure Request.Valid (rt : Runtime) (request : Request) (help : String) : Prop where
  labels : (Entries.keys (canonicalLabels request.labels)).Pairwise (· < ·)
  name : isValidMetricName request.name = true
  given : request.help = some help
  nonempty : help ≠ ""
  boundaries : request.kind.boundaries.all rt.isFinite = true ∧
    strictlyIncreasing rt request.kind.boundaries = true

/-- How the families change with a registration. -/
inductive Joins (request : Request) (help : String) :
    List MetricFamily → List MetricFamily → Prop where
  | own {families : List MetricFamily} (hnew : ∀ family ∈ families, family.name ≠ request.name) :
      Joins request help families (families ++ [request.family help])
  | push {before after : List MetricFamily} {family : MetricFamily}
      (hname : family.name = request.name) (htype : family.metricType = request.kind.metricType)
      (hhelp : family.help = help)
      (hlabels : family.labelNames = labelNames (canonicalLabels request.labels)) :
      Joins request help (before ++ family :: after)
        (before ++ family.push request.series :: after)

/-- The families with the series of a request, at the place found for it. -/
def Request.place (request : Request) (help : String) (families : List MetricFamily) :
    Option ℕ → List MetricFamily
  | some index => families.modify index (MetricFamily.push request.series)
  | none => families ++ [request.family help]

theorem build_eq (request : Request) (registry : Registry) :
    request.build rt registry =
      register rt request.kind request.name request.help request.labels registry := by
  unfold Request.build
  cases request.kind <;> rfl

theorem validate_ok {request : Request} {help : String}
    (h : validate rt request.kind request.name request.help (canonicalLabels request.labels) =
      .ok help) : request.Valid rt help := by
  unfold validate at h
  obtain ⟨⟨⟩, hunique, h⟩ := Except.exists_of_bind_eq_ok h
  obtain ⟨⟨⟩, hname, h⟩ := Except.exists_of_bind_eq_ok h
  obtain ⟨text, hhelp, h⟩ := Except.exists_of_bind_eq_ok h
  obtain ⟨⟨⟩, hkind, h⟩ := Except.exists_of_bind_eq_ok h
  obtain rfl := Except.ok.inj h
  have hlabels : firstRepeated (canonicalLabels request.labels) = none := by
    unfold validateUniqueLabelNames at hunique
    split at hunique
    · exact nomatch hunique
    · assumption
  have hgiven : request.help = some text ∧ text ≠ "" := by
    unfold requireHelp at hhelp
    split at hhelp
    · split at hhelp
      · exact nomatch hhelp
      · next hnonempty =>
        obtain rfl := Except.ok.inj hhelp
        exact ⟨by assumption, fun heq => hnonempty (by simp [heq])⟩
    · exact nomatch hhelp
  refine ⟨keys_pairwise_of_firstRepeated (List.pairwise_insertionSort _ _) hlabels, ?_, hgiven.1,
    hgiven.2, ?_⟩
  · unfold validateMetricName at hname
    split at hname
    · assumption
    · exact nomatch hname
  · cases hrequest : request.kind with
    | counter => exact ⟨rfl, rfl⟩
    | gauge => exact ⟨rfl, rfl⟩
    | histogram boundaries =>
        rw [hrequest, Kind.validate, validateHistogramBoundaries] at hkind
        split at hkind
        · next hboth => exact Bool.and_eq_true_iff.mp hboth
        · exact nomatch hkind

theorem validateFamilyMetadata_ok {registry : Registry} {request : Request} {help : String}
    {index : Option ℕ}
    (h : validateFamilyMetadata rt registry request.name request.kind.metricType help
      (labelNames (canonicalLabels request.labels)) = .ok index) :
    Joins request help registry.families (request.place help registry.families index) := by
  unfold validateFamilyMetadata at h
  cases hfind : registry.families.findIdx? (·.name = request.name) with
  | none =>
      rw [hfind] at h
      obtain rfl := Except.ok.inj h
      refine .own fun family hfamily => ?_
      simpa using List.findIdx?_eq_none_iff.mp hfind family hfamily
  | some place =>
      obtain ⟨hlt, hname, -⟩ := List.findIdx?_eq_some_iff_getElem.mp hfind
      rw [hfind] at h
      dsimp only at h
      rw [List.getElem?_eq_getElem hlt] at h
      dsimp only at h
      split at h
      · next hsame =>
        obtain rfl := Except.ok.inj h
        have hsplit : registry.families = registry.families.take place ++
            registry.families[place] :: registry.families.drop (place + 1) := by
          rw [List.getElem_cons_drop, List.take_append_drop]
        rw [Request.place, List.modify_eq_take_cons_drop hlt]
        conv => arg 3; rw [hsplit]
        exact .push (by simpa using hname) hsame.1 hsame.2.1 hsame.2.2
      · exact nomatch h

/-- **What a successful registration does.** -/
theorem register_ok {request : Request} {registry next : Registry}
    (h : request.build rt registry = (.ok (), next)) :
    ∃ help, request.Valid rt help ∧ request.key ∉ registry.seriesKeys ∧
      next.seriesKeys = request.key :: registry.seriesKeys ∧
      Joins request help registry.families next.families := by
  rw [build_eq] at h
  unfold register at h
  dsimp only at h
  cases hvalid : validate rt request.kind request.name request.help
      (canonicalLabels request.labels) with
  | error e =>
      rw [hvalid] at h
      exact nomatch (Prod.mk.inj h).1
  | ok help =>
      rw [hvalid] at h
      dsimp only at h
      cases hindex : validateFamilyMetadata rt registry request.name request.kind.metricType help
          (labelNames (canonicalLabels request.labels)) with
      | error e =>
          rw [hindex] at h
          exact nomatch (Prod.mk.inj h).1
      | ok index =>
          rw [hindex] at h
          dsimp only [insertSeriesKey] at h
          refine ⟨help, validate_ok hvalid, ?_⟩
          have hjoins := validateFamilyMetadata_ok hindex
          split at h
          · exact nomatch (Prod.mk.inj h).1
          · next heq =>
            split at heq
            · exact nomatch (Prod.mk.inj heq).1
            · next hnew =>
              obtain ⟨-, rfl⟩ := Prod.mk.inj heq
              cases index with
              | none =>
                  obtain ⟨-, rfl⟩ := Prod.mk.inj h
                  exact ⟨hnew, rfl, hjoins⟩
              | some place =>
                  obtain ⟨-, rfl⟩ := Prod.mk.inj h
                  exact ⟨hnew, rfl, hjoins⟩

/-! ## The invariant of a registry -/

/-- A family as registrations make it. -/
structure FamilyOk (rt : Runtime) (family : MetricFamily) : Prop where
  name : isValidMetricName family.name = true
  help : family.help ≠ ""
  labelNames : family.labelNames.Pairwise (· < ·)
  labels : ∀ series ∈ family.series, Entries.keys series.labels = family.labelNames
  distinct : (family.series.map Series.labels).Nodup
  boundaries : ∀ series ∈ family.series, series.boundaries.all rt.isFinite = true ∧
    strictlyIncreasing rt series.boundaries = true

/-- The family has the type, and a series with the key. -/
def MetricFamily.Has (family : MetricFamily) (metricType : MetricType) (key : SeriesKey) : Prop :=
  family.name = key.name ∧ family.metricType = metricType ∧
    key.labelset ∈ family.series.map Series.labels

/-- The series is registered. -/
def HasSeries (families : List MetricFamily) (metricType : MetricType) (key : SeriesKey) : Prop :=
  ∃ family ∈ families, family.Has metricType key

/-- A registry as registrations make it. -/
structure Registry.Ok (rt : Runtime) (registry : Registry) : Prop where
  names : (registry.families.map MetricFamily.name).Nodup
  families : ∀ family ∈ registry.families, FamilyOk rt family
  keys : ∀ key, key ∈ registry.seriesKeys ↔
    ∃ metricType, HasSeries registry.families metricType key

namespace Joins

variable {request : Request} {help : String} {families next : List MetricFamily}

/-- A registration adds the series of the request and no other. -/
theorem hasSeries_iff (h : Joins request help families next) (metricType : MetricType)
    (key : SeriesKey) : HasSeries next metricType key ↔ HasSeries families metricType key ∨
      (request.kind.metricType = metricType ∧ request.key = key) := by
  have hkey : request.key = key ↔
      request.name = key.name ∧ canonicalLabels request.labels = key.labelset := by
    rw [Request.key, SeriesKey.mk.injEq]
  cases h with
  | own hnew =>
      have hown : (request.family help).Has metricType key ↔
          request.kind.metricType = metricType ∧ request.key = key := by
        simp only [MetricFamily.Has, Request.family, Request.series, List.map_cons, List.map_nil,
          List.mem_singleton, hkey]
        tauto
      simp [HasSeries, or_and_right, exists_or, hown]
  | @push before after family hname htype =>
      have hpush : (family.push request.series).Has metricType key ↔
          family.Has metricType key ∨
            (request.kind.metricType = metricType ∧ request.key = key) := by
        simp only [MetricFamily.Has, MetricFamily.push, Request.series, List.map_append,
          List.map_cons, List.map_nil, List.mem_append, List.mem_singleton, hkey, hname, htype]
        tauto
      simp only [HasSeries, List.mem_append, List.mem_cons, or_and_right, exists_or,
        exists_eq_left, hpush, or_assoc]
      rw [or_comm (a := request.kind.metricType = metricType ∧ request.key = key)]

theorem name_mem (h : Joins request help families next) {name : String}
    (hname : name ∈ next.map MetricFamily.name) :
    name ∈ families.map MetricFamily.name ∨ request.name = name := by
  cases h with
  | own =>
      rw [List.map_append, List.mem_append] at hname
      exact hname.imp_right fun hmem => (List.mem_singleton.mp hmem).symm
  | push => exact .inl (by simpa [MetricFamily.push] using hname)

theorem names_nodup (h : Joins request help families next)
    (hnames : (families.map MetricFamily.name).Nodup) :
    (next.map MetricFamily.name).Nodup := by
  cases h with
  | own hnew =>
      rw [List.map_append, List.nodup_append]
      refine ⟨hnames, List.nodup_singleton _, fun name hname other hother heq => ?_⟩
      obtain ⟨family, hfamily, rfl⟩ := List.mem_map.mp hname
      exact hnew family hfamily (heq.trans (List.mem_singleton.mp hother))
  | push => simpa [MetricFamily.push] using hnames

/-- The families stay as they are to be, when the key of the request is new. -/
theorem familiesOk (h : Joins request help families next) (hvalid : request.Valid rt help)
    (hnew : ∀ metricType, ¬HasSeries families metricType request.key)
    (hfamilies : ∀ family ∈ families, FamilyOk rt family) :
    ∀ family ∈ next, FamilyOk rt family := by
  have hnames := labelNames_eq hvalid.labels
  cases h with
  | own hother =>
      refine List.forall_mem_append.mpr ⟨hfamilies, List.forall_mem_singleton.mpr ?_⟩
      exact {
        name := hvalid.name
        help := hvalid.nonempty
        labelNames := by
          change (labelNames (canonicalLabels request.labels)).Pairwise (· < ·)
          rw [hnames]
          exact hvalid.labels
        labels := List.forall_mem_singleton.mpr hnames.symm
        distinct := List.nodup_singleton _
        boundaries := List.forall_mem_singleton.mpr hvalid.boundaries }
  | @push before after family hname htype hhelp hlabels =>
      obtain ⟨hbefore, hrest⟩ := List.forall_mem_append.mp hfamilies
      obtain ⟨hfamily, hafter⟩ := List.forall_mem_cons.mp hrest
      refine List.forall_mem_append.mpr ⟨hbefore, List.forall_mem_cons.mpr ⟨?_, hafter⟩⟩
      have hfresh : canonicalLabels request.labels ∉ family.series.map Series.labels :=
        fun hmem => hnew family.metricType
          ⟨family, List.mem_append_right _ List.mem_cons_self, hname, rfl, hmem⟩
      exact {
        name := hfamily.name
        help := hfamily.help
        labelNames := hfamily.labelNames
        labels := List.forall_mem_append.mpr ⟨hfamily.labels,
          List.forall_mem_singleton.mpr (hnames.symm.trans hlabels.symm)⟩
        distinct := by
          change ((family.series ++ [request.series]).map Series.labels).Nodup
          rw [List.map_append, List.map_singleton, List.nodup_append_comm]
          exact List.nodup_cons.mpr ⟨hfresh, hfamily.distinct⟩
        boundaries := List.forall_mem_append.mpr ⟨hfamily.boundaries,
          List.forall_mem_singleton.mpr hvalid.boundaries⟩ }

end Joins

theorem Registry.Ok.new (rt : Runtime) : Registry.new.Ok rt where
  names := List.nodup_nil
  families _ h := absurd h List.not_mem_nil
  keys key := by simp [Registry.new, HasSeries]

/-- **A registration keeps the invariant.** -/
theorem Registry.Ok.build {request : Request} {registry next : Registry} (hok : registry.Ok rt)
    (h : request.build rt registry = (.ok (), next)) : next.Ok rt := by
  obtain ⟨help, hvalid, hnew, hkeys, hjoins⟩ := register_ok h
  refine ⟨hjoins.names_nodup hok.names, hjoins.familiesOk hvalid (fun metricType hseries =>
    hnew ((hok.keys _).mpr ⟨metricType, hseries⟩)) hok.families, fun key => ?_⟩
  rw [hkeys, List.mem_cons, hok.keys]
  constructor
  · rintro (rfl | ⟨metricType, hseries⟩)
    · exact ⟨_, (hjoins.hasSeries_iff _ _).mpr (.inr ⟨rfl, rfl⟩)⟩
    · exact ⟨metricType, (hjoins.hasSeries_iff _ _).mpr (.inl hseries)⟩
  · rintro ⟨metricType, hseries⟩
    rcases (hjoins.hasSeries_iff _ _).mp hseries with hbefore | ⟨-, rfl⟩
    · exact .inr ⟨metricType, hbefore⟩
    · exact .inl rfl

/-- **What registrations do.** -/
theorem buildAll_ok {requests : List Request} {registry next : Registry} (hok : registry.Ok rt)
    (h : buildAll rt requests registry = (.ok (), next)) :
    next.Ok rt ∧ ∀ metricType key, HasSeries next.families metricType key ↔
      HasSeries registry.families metricType key ∨
        ∃ request ∈ requests, request.kind.metricType = metricType ∧ request.key = key := by
  induction requests generalizing registry with
  | nil =>
      obtain ⟨-, rfl⟩ := Prod.mk.inj h
      exact ⟨hok, fun metricType key => by simp⟩
  | cons request rest ih =>
      rw [buildAll] at h
      split at h
      · exact nomatch (Prod.mk.inj h).1
      · next middle hbuild =>
        obtain ⟨_, _, -, -, hjoins⟩ := register_ok hbuild
        obtain ⟨hnext, hseries⟩ := ih (hok.build hbuild) h
        refine ⟨hnext, fun metricType key => ?_⟩
        rw [hseries, hjoins.hasSeries_iff, List.exists_mem_cons_iff, or_assoc]

/-- The families have the names of registrations. -/
theorem buildAll_name {requests : List Request} {registry next : Registry}
    (h : buildAll rt requests registry = (.ok (), next)) {name : String}
    (hname : name ∈ next.families.map MetricFamily.name) :
    name ∈ registry.families.map MetricFamily.name ∨ ∃ request ∈ requests, request.name = name := by
  induction requests generalizing registry with
  | nil =>
      obtain ⟨-, rfl⟩ := Prod.mk.inj h
      exact .inl hname
  | cons request rest ih =>
      rw [buildAll] at h
      split at h
      · exact nomatch (Prod.mk.inj h).1
      · next middle hbuild =>
        obtain ⟨_, _, -, -, hjoins⟩ := register_ok hbuild
        rcases ih h with hmiddle | ⟨other, hother, hsame⟩
        · rcases hjoins.name_mem hmiddle with hbefore | hsame
          · exact .inl hbefore
          · exact .inr ⟨request, List.mem_cons_self, hsame⟩
        · exact .inr ⟨other, List.mem_cons_of_mem _ hother, hsame⟩

end Limpid.Metrics.RegistryCore
