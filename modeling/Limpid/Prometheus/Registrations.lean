import Limpid.Metrics.Observed
import Limpid.Prometheus.Declared

/-!
# Registrations, from the registry to the exposition

Registrations one after another, of which some fail (`registrations`).  A registration that fails
leaves the registry as it was (`build_error`), so the invariant of registries holds after any of
them (`registrations_ok`).  Whether one with a known name succeeds depends on the family of that
name (`build_ok_iff_of_known`).  What the registry leaves to the exposition is about names, and the
sums of histograms, which are finite when durations have been observed.

## Strategy

* A registration is checked in the order of the source, and nothing is written before the last check
  has passed (`build_error`).
* The invariant says what the checks establish of every family.  What a snapshot needs to be
  accepted is then read off the invariant (`snapshot_accepted`).
-/

namespace Limpid.Metrics.RegistryCore

open Dsl

variable {rt : Runtime}

/-! ## Runs -/

/-- The registry after registrations, also those that fail. -/
def registrations (rt : Runtime) (requests : List Request) (registry : Registry) : Registry :=
  requests.foldl (fun registry request => (request.build rt registry).2) registry

/-- **A registration that fails changes nothing.** -/
theorem build_error {request : Request} {registry : Registry} {e : MetricsError}
    (h : (request.build rt registry).1 = .error e) : (request.build rt registry).2 = registry := by
  rw [build_eq] at h ⊢
  unfold register at h ⊢
  dsimp only at h ⊢
  split at h
  · rfl
  · split at h
    · rfl
    · next index _ =>
      by_cases hkey : (⟨request.name, canonicalLabels request.labels⟩ : SeriesKey) ∈
          registry.seriesKeys
      · rw [insertSeriesKey, if_pos hkey]
      · rw [insertSeriesKey, if_neg hkey] at h
        cases index <;> exact nomatch h

theorem Registry.Ok.step {request : Request} {registry : Registry} (hok : registry.Ok rt) :
    (request.build rt registry).2.Ok rt := by
  cases hresult : (request.build rt registry).1 with
  | error e =>
      rw [build_error hresult]
      exact hok
  | ok _ => exact hok.build (Prod.ext hresult rfl)

/-- **The invariant holds after any registrations.** -/
theorem registrations_ok {requests : List Request} {registry : Registry} (hok : registry.Ok rt) :
    (registrations rt requests registry).Ok rt := by
  induction requests generalizing registry with
  | nil => exact hok
  | cons request rest ih => exact ih hok.step

/-! ## Known names -/

theorem firstRepeated_eq_none {labels : Labels} (h : (Entries.keys labels).Pairwise (· < ·)) :
    firstRepeated labels = none := by
  induction labels with
  | nil => rfl
  | cons first rest ih =>
      cases rest with
      | nil => rfl
      | cons second others =>
          rw [Entries.keys_cons, List.pairwise_cons] at h
          rw [firstRepeated, if_neg (ne_of_lt (h.1 _ List.mem_cons_self)), ih h.2]

/-- A request that passes its own checks. -/
theorem validate_of_valid {request : Request} {help : String} (h : request.Valid rt help) :
    validate rt request.kind request.name request.help (canonicalLabels request.labels) =
      .ok help := by
  have hkind : request.kind.validate rt request.name (canonicalLabels request.labels) = .ok () := by
    have hboundaries := h.boundaries
    cases hcase : request.kind with
    | counter | gauge => rfl
    | histogram boundaries =>
        rw [hcase] at hboundaries
        exact if_pos (Bool.and_eq_true_iff.mpr hboundaries)
  have hhelp : requireHelp request.name (canonicalLabels request.labels) request.help =
      .ok help := by
    have hnonempty : help.isEmpty = false := by simpa using h.nonempty
    unfold requireHelp
    rw [h.given]
    simp [hnonempty]
  rw [validate, validateUniqueLabelNames, firstRepeated_eq_none h.labels, validateMetricName,
    if_pos h.name, hhelp, hkind]
  rfl

/-- The label names of a request are those of the family. -/
theorem labelNames_of_perm {labels : Labels} {names : List String}
    (hnames : names.Pairwise (· < ·)) (h : (Entries.keys labels).Perm names) :
    (Entries.keys (canonicalLabels labels)).Pairwise (· < ·) ∧
      labelNames (canonicalLabels labels) = names := by
  have hperm : (Entries.keys (canonicalLabels labels)).Perm names :=
    ((List.perm_insertionSort LabelLe labels).map Prod.fst).trans h
  have hnodup : (Entries.keys (canonicalLabels labels)).Nodup :=
    hperm.nodup_iff.mpr (hnames.imp ne_of_lt)
  have hsorted : (Entries.keys (canonicalLabels labels)).Pairwise (· < ·) := by
    refine List.pairwise_map.mpr (((List.pairwise_insertionSort LabelLe labels).and
      (List.pairwise_map.mp hnodup)).imp fun {first second} hpair => ?_)
    exact (Prod.lex_def.mp hpair.1).resolve_right fun heq => hpair.2 heq.1
  refine ⟨hsorted, ?_⟩
  rw [labelNames_eq hsorted]
  exact hperm.eq_of_pairwise (fun _ _ _ _ hlt hgt => absurd hlt (lt_asymm hgt)) hsorted hnames

/-- The family of a name is found. -/
theorem validateFamilyMetadata_of_mem {registry : Registry}
    (hnames : (registry.families.map MetricFamily.name).Nodup) {family : MetricFamily}
    (hfamily : family ∈ registry.families) :
    ∃ index, validateFamilyMetadata rt registry family.name family.metricType family.help
      family.labelNames = .ok (some index) := by
  cases hfind : registry.families.findIdx? (·.name = family.name) with
  | none =>
      have hnone := List.findIdx?_eq_none_iff.mp hfind family hfamily
      simp at hnone
  | some index =>
      obtain ⟨hlt, hname, -⟩ := List.findIdx?_eq_some_iff_getElem.mp hfind
      have hsame : registry.families[index] = family := List.inj_on_of_nodup_map hnames
        (List.getElem_mem hlt) hfamily (of_decide_eq_true hname)
      refine ⟨index, ?_⟩
      rw [validateFamilyMetadata, hfind]
      dsimp only
      rw [List.getElem?_eq_getElem hlt, hsame]
      exact if_pos ⟨rfl, rfl, rfl⟩

/-- A request joins the family of its name. -/
theorem Joins.same {request : Request} {help : String} {families next : List MetricFamily}
    (h : Joins request help families next) (hnames : (families.map MetricFamily.name).Nodup)
    {family : MetricFamily} (hfamily : family ∈ families) (hname : family.name = request.name) :
    family.metricType = request.kind.metricType ∧ family.help = help ∧
      family.labelNames = labelNames (canonicalLabels request.labels) := by
  cases h with
  | own hother => exact absurd hname (hother family hfamily)
  | @push before after other hotherName htype hhelp hlabels =>
      have hsame : other = family := List.inj_on_of_nodup_map hnames
        (List.mem_append_right _ List.mem_cons_self) hfamily (hotherName.trans hname.symm)
      exact hsame ▸ ⟨htype, hhelp, hlabels⟩

/-- What a request has to agree with in the family of its name. -/
structure Agrees (request : Request) (family : MetricFamily) : Prop where
  metricType : request.kind.metricType = family.metricType
  help : request.help = some family.help
  labelNames : (Entries.keys request.labels).Perm family.labelNames
  fresh : canonicalLabels request.labels ∉ family.series.map Series.labels

/-- **A registration with a known name.** -/
theorem build_ok_iff_of_known {request : Request} {registry : Registry} (hok : registry.Ok rt)
    {family : MetricFamily} (hfamily : family ∈ registry.families)
    (hname : family.name = request.name) :
    (request.build rt registry).1 = .ok () ↔ Agrees request family ∧
      request.kind.boundaries.all rt.isFinite = true ∧
        strictlyIncreasing rt request.kind.boundaries = true := by
  have hfamilyOk := hok.families family hfamily
  constructor
  · intro h
    obtain ⟨help, hvalid, hnew, -, hjoins⟩ := register_ok (Prod.ext h rfl)
    refine ⟨?_, hvalid.boundaries⟩
    have hfresh : canonicalLabels request.labels ∉ family.series.map Series.labels :=
      fun hmem => hnew ((hok.keys _).mpr ⟨_, family, hfamily, hname, rfl, hmem⟩)
    obtain ⟨htype, hhelp, hlabels⟩ := hjoins.same hok.names hfamily hname
    refine ⟨htype.symm, hvalid.given.trans (congrArg some hhelp.symm), ?_, hfresh⟩
    rw [hlabels, labelNames_eq hvalid.labels]
    exact ((List.perm_insertionSort LabelLe request.labels).map Prod.fst).symm
  · rintro ⟨⟨htype, hhelp, hlabels, hfresh⟩, hboundaries⟩
    obtain ⟨hsorted, hlabelNames⟩ := labelNames_of_perm hfamilyOk.labelNames hlabels
    have hvalid : request.Valid rt family.help :=
      ⟨hsorted, hname ▸ hfamilyOk.name, hhelp, hfamilyOk.help, hboundaries⟩
    obtain ⟨index, hindex⟩ := @validateFamilyMetadata_of_mem rt _ hok.names _ hfamily
    have hnew : request.key ∉ registry.seriesKeys := by
      intro hmem
      obtain ⟨_, other, hother, hsame, -, hlabelset⟩ := (hok.keys _).mp hmem
      have heq : other = family :=
        List.inj_on_of_nodup_map hok.names hother hfamily (hsame.trans hname.symm)
      exact hfresh (heq ▸ hlabelset)
    rw [build_eq, register, validate_of_valid hvalid]
    dsimp only
    rw [hlabelNames, htype, ← hname, hindex, insertSeriesKey, if_neg (hname ▸ hnew)]

end Limpid.Metrics.RegistryCore

namespace Limpid.Prometheus

open Dsl Metrics RegistryCore

/-- What the registry keeps. -/
structure Kept (registry : Registry) : Prop where
  names : (registry.families.map RegistryCore.MetricFamily.name).Nodup
  labelNames : ∀ family ∈ registry.families, ∀ series ∈ family.series,
    Entries.keys series.labels = family.labelNames ∧ (Entries.keys series.labels).Nodup
  distinct : ∀ family ∈ registry.families, (family.series.map Series.labels).Nodup
  keys : ∀ key, key ∈ registry.seriesKeys ↔ ∃ family ∈ registry.families,
    ∃ series ∈ family.series, key = ⟨family.name, canonicalLabels series.labels⟩

/-- The names are such as the exposition can have. -/
structure NamesExportable (registry : Registry) : Prop where
  labels : ∀ family ∈ registry.families, ∀ name ∈ family.labelNames,
    isLegacyLabelName name = true
  suffixes : ∀ family ∈ registry.families, family.metricType = .histogram →
    ∀ suffix ∈ histogramSuffixes,
      family.name ++ suffix ∉ registry.families.map RegistryCore.MetricFamily.name

/-- The readings of the registry's histograms, when no observation is in progress. -/
def Recorded (rt : Runtime) (readings : Readings) (registry : Registry) : Prop :=
  ∀ family ∈ registry.families, family.metricType = .histogram → ∀ series ∈ family.series,
    Observed rt series.boundaries (readings.histogram ⟨family.name, series.labels⟩)

/-- Sums of durations are finite. -/
def FiniteSums (rt : Runtime) : Prop := ∀ sum, DurationSum rt sum → rt.isFinite sum = true

section Registries

variable {rt : Runtime} {registry : Registry} {readings : Readings}

theorem kept_of_ok (hok : registry.Ok rt) : Kept registry := by
  have hsorted : ∀ family ∈ registry.families, ∀ series ∈ family.series,
      (Entries.keys series.labels).Pairwise (· < ·) := fun family hfamily series hseries => by
    rw [(hok.families family hfamily).labels series hseries]
    exact (hok.families family hfamily).labelNames
  have hcanonical : ∀ family ∈ registry.families, ∀ series ∈ family.series,
      canonicalLabels series.labels = series.labels := fun family hfamily series hseries =>
    canonicalLabels_eq (List.Perm.refl _) (hsorted family hfamily series hseries)
  refine ⟨hok.names, fun family hfamily series hseries =>
    ⟨(hok.families family hfamily).labels series hseries,
      (hsorted family hfamily series hseries).imp ne_of_lt⟩,
    fun family hfamily => (hok.families family hfamily).distinct, fun key => ?_⟩
  rw [hok.keys]
  constructor
  · rintro ⟨metricType, family, hfamily, hname, -, hlabels⟩
    obtain ⟨series, hseries, hlabels⟩ := List.mem_map.mp hlabels
    refine ⟨family, hfamily, series, hseries, ?_⟩
    rw [hcanonical family hfamily series hseries, hname, hlabels]
  · rintro ⟨family, hfamily, series, hseries, rfl⟩
    rw [hcanonical family hfamily series hseries]
    exact ⟨family.metricType, family, hfamily, rfl, rfl, List.mem_map_of_mem hseries⟩

theorem snapshot_accepted (hok : registry.Ok rt) (hfinite : FiniteSums rt)
    (hnames : NamesExportable registry) (hrecorded : Recorded rt readings registry) :
    ∃ families, parseSnapshot rt (registry.snapshot readings) = .ok families := by
  obtain ⟨parsed, -, hparse⟩ := parseSnapshot_snapshot hok ⟨hnames.labels, hnames.suffixes,
    fun family hfamily htype series hseries =>
      hfinite _ (hrecorded family hfamily htype series hseries).sum⟩
  exact ⟨_, hparse⟩

end Registries

/-- **The registry, after any registrations.** -/
theorem registrations_kept (rt : Runtime) (requests : List Request) :
    Kept (registrations rt requests .new) ∧
    (∀ (request : Request) (e : MetricsError),
      (request.build rt (registrations rt requests .new)).1 = .error e →
        (request.build rt (registrations rt requests .new)).2 = registrations rt requests .new) ∧
    (∀ request : Request, ∀ family ∈ (registrations rt requests .new).families,
      family.name = request.name →
        ((request.build rt (registrations rt requests .new)).1 = .ok () ↔ Agrees request family ∧
          request.kind.boundaries.all rt.isFinite = true ∧
            strictlyIncreasing rt request.kind.boundaries = true)) ∧
    (FiniteSums rt → NamesExportable (registrations rt requests .new) → ∀ readings,
      Recorded rt readings (registrations rt requests .new) → ∃ families,
        parseSnapshot rt ((registrations rt requests .new).snapshot readings) = .ok families) := by
  have hok : (registrations rt requests .new).Ok rt := registrations_ok (.new rt)
  exact ⟨kept_of_ok hok, fun request e => build_error,
    fun request family hfamily hname => build_ok_iff_of_known hok hfamily hname,
    fun hfinite hnames readings => snapshot_accepted hok hfinite hnames⟩

/-! ## Examples -/

/-- The registration of a histogram for an input. -/
def waitsOf (input : String) (boundaries : List F64) : Request :=
  ⟨.histogram boundaries, "waits", some "Waits.", [("input", input)]⟩

theorem finiteSums_twoFloats : FiniteSums twoFloats := by
  intro sum h
  cases h <;> rfl

theorem registrations_kept_waits : ∃ families, parseSnapshot twoFloats
    ((registrations twoFloats [waitsOf "first" [.zero], waitsOf "second" [.zero]] .new).snapshot
      ⟨fun _ => 0, fun _ => .new [.zero]⟩) = .ok families := by
  refine (registrations_kept twoFloats [waitsOf "first" [.zero], waitsOf "second" [.zero]]).2.2.2
    finiteSums_twoFloats ⟨?_, ?_⟩ _ fun family hfamily _ series hseries => ?_
  · decide
  · decide
  · obtain rfl := List.mem_singleton.mp hfamily
    rcases List.mem_cons.mp hseries with rfl | hseries
    · exact .new
    · obtain rfl := List.mem_singleton.mp hseries
      exact .new

/-- A histogram with a known name is refused for its boundaries. -/
theorem known_name_refused :
    ∃ family ∈ (registrations twoFloats [waitsOf "first" [.zero]] .new).families,
      family.name = (waitsOf "second" [.one, .zero]).name ∧
        Agrees (waitsOf "second" [.one, .zero]) family ∧
          ((waitsOf "second" [.one, .zero]).build twoFloats
            (registrations twoFloats [waitsOf "first" [.zero]] .new)).1 =
              .error (.invalidBuckets "waits" [("input", "second")]) := by
  refine ⟨_, List.mem_singleton_self _, rfl, ⟨rfl, rfl, ?_, ?_⟩, ?_⟩
  · decide
  · decide
  · rfl

end Limpid.Prometheus
