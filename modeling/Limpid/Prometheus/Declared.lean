import Limpid.Prometheus.Accepted
import Limpid.Prometheus.ReadBack

/-!
# The snapshots that are accepted

What `parse_snapshot` accepts, said without its loops (`Accepted`), and what it makes of an accepted
snapshot (`exposition`): each family as it is on the wire with its series sorted, and the derived
family, sorted by name (`parseSnapshot_ok_iff`).  Neither depends on the order of the families or of
the series in them (`Rearranged.accepted`, `Rearranged.exposition_eq`).

Sorting is what makes the result independent of the order on the wire: the families have different
names and the series of a family different labels, so two sorted permutations are equal.
-/

namespace Limpid.Prometheus

open Dsl Metrics

/-! ## Families as they are on the wire -/

/-- The series of a family on the wire. -/
def wireSeries : MetricFamily → List ExpositionSeries
  | .counter _ _ series | .gauge _ _ series =>
      series.map fun raw => .value raw.labels.entries raw.value
  | .histogram _ _ series =>
      series.map fun raw => .histogram raw.labels.entries raw.buckets raw.sum raw.count

/-- The family that a metric declares. -/
def declaredFamily (metric : MetricFamily) : ExpositionFamily :=
  ⟨metric.name, .fromWire metric.metricType, metric.help, sortSeries (wireSeries metric)⟩

/-- The families that the snapshot declares. -/
def declaredFamilies (root : MetricsSnapshot) : List ExpositionFamily :=
  root.metrics.map declaredFamily

/-- The declared families and the derived one. -/
def exposedFamilies (root : MetricsSnapshot) : List ExpositionFamily :=
  declaredFamilies root ++ (deriveDroppedOwn (declaredFamilies root)).toList

/-- The families in the order of their names. -/
def exposition (root : MetricsSnapshot) : List ExpositionFamily :=
  (exposedFamilies root).insertionSort (·.name ≤ ·.name)

/-! ## What is accepted -/

/-- One bucket after another. -/
def BucketLt (rt : Runtime) (first second : F64 × ℕ) : Prop :=
  f64Ge rt first.1 second.1 = false ∧ first.2 ≤ second.2

/-- Every label has a legal name. -/
def LegalLabels (labels : Labels) : Prop := ∀ label ∈ labels, isLegacyLabelName label.1 = true

/-- A series that is accepted. -/
def SeriesAccepted (rt : Runtime) : ExpositionSeries → Prop
  | .value labels _ => LegalLabels labels
  | .histogram labels buckets sum _ => LegalLabels labels ∧
      ((∀ bucket ∈ buckets, rt.isFinite bucket.1 = true) ∧ buckets.IsChain (BucketLt rt)) ∧
        rt.isFinite sum = true

/-- A family that is accepted. -/
structure FamilyAccepted (rt : Runtime) (metric : MetricFamily) : Prop where
  name : isLegacyMetricName metric.name = true
  help : metric.help ≠ ""
  series : ∀ series ∈ wireSeries metric, SeriesAccepted rt series
  keys : ∀ first ∈ wireSeries metric, ∀ second ∈ wireSeries metric,
    Entries.keys first.labels = Entries.keys second.labels
  distinct : ((wireSeries metric).map ExpositionSeries.labels).Nodup
  exported : ((wireSeries metric).map (exportedKey (.fromWire metric.metricType))).Nodup

/-- A snapshot that is accepted. -/
structure Accepted (rt : Runtime) (root : MetricsSnapshot) : Prop where
  schema : root.schema = 1
  families : ∀ metric ∈ root.metrics, FamilyAccepted rt metric
  names : (root.metrics.map MetricFamily.name).Nodup
  namespaces : ∀ metric ∈ root.metrics, metric.metricType = .histogram →
    ∀ suffix ∈ histogramSuffixes, metric.name ++ suffix ∉ root.metrics.map MetricFamily.name

/-! ## Steps that succeed -/

section Steps

variable {ε α β : Type}

theorem bind_eq_ok_iff {x : Except ε α} {f : α → Except ε β} {b : β} :
    x >>= f = .ok b ↔ ∃ a, x = .ok a ∧ f a = .ok b := by
  cases x with
  | error message =>
      constructor
      · exact fun h => nomatch h
      · rintro ⟨a, ha, -⟩
        exact nomatch ha
  | ok a =>
      constructor
      · exact fun h => ⟨a, rfl, h⟩
      · rintro ⟨other, hother, h⟩
        obtain rfl := Except.ok.inj hother
        exact h

theorem mapM_ok_iff {f : α → Except ε β} {g : α → β} {P : α → Prop} {items : List α}
    (h : ∀ item ∈ items, ∀ b, f item = .ok b ↔ P item ∧ b = g item) {out : List β} :
    items.mapM f = .ok out ↔ (∀ item ∈ items, P item) ∧ out = items.map g := by
  induction items generalizing out with
  | nil => exact ⟨fun heq => ⟨nofun, (Except.ok.inj heq).symm⟩, fun ⟨_, heq⟩ => heq ▸ rfl⟩
  | cons item rest ih =>
      obtain ⟨hitem, hrest⟩ := List.forall_mem_cons.mp h
      rw [List.mapM_cons, bind_eq_ok_iff, List.forall_mem_cons]
      constructor
      · rintro ⟨b, hb, heq⟩
        obtain ⟨others, hothers, heq⟩ := bind_eq_ok_iff.mp heq
        obtain ⟨hP, rfl⟩ := (hitem b).mp hb
        obtain ⟨hall, rfl⟩ := (ih hrest).mp hothers
        exact ⟨⟨hP, hall⟩, (Except.ok.inj heq).symm⟩
      · rintro ⟨⟨hP, hall⟩, rfl⟩
        exact ⟨g item, (hitem _).mpr ⟨hP, rfl⟩,
          bind_eq_ok_iff.mpr ⟨_, (ih hrest).mpr ⟨hall, rfl⟩, rfl⟩⟩

end Steps

/-! ## Series -/

section Series

variable {rt : Runtime} {name : String}

theorem parseLabels_ok_iff {map : LabelMap} {labels : Labels} :
    parseLabels rt map name = .ok labels ↔ LegalLabels map.entries ∧ labels = map.entries := by
  unfold parseLabels
  rw [(RegistryCore.pairwise_labelLe map.sorted).insertionSort_eq]
  cases hfind : map.entries.find? fun entry => !isLegacyLabelName entry.1 with
  | none =>
      have hlegal : LegalLabels map.entries := fun label hlabel => by
        simpa using List.find?_eq_none.mp hfind label hlabel
      exact ⟨fun h => ⟨hlegal, (Except.ok.inj h).symm⟩, fun h => congrArg Except.ok h.2.symm⟩
  | some entry =>
      refine ⟨fun h => (nomatch h), fun h => absurd (h.1 entry ?_) ?_⟩
      · exact List.mem_of_find?_eq_some hfind
      · simpa using List.find?_some hfind

theorem parseBuckets_ok_iff {previous : Option (F64 × ℕ)} {buckets parsed : List (F64 × ℕ)} :
    parseBuckets rt name previous buckets = .ok parsed ↔
      ((∀ bucket ∈ buckets, rt.isFinite bucket.1 = true) ∧
        (previous.toList ++ buckets).IsChain (BucketLt rt)) ∧ parsed = buckets := by
  induction buckets generalizing previous parsed with
  | nil =>
      have hchain : (previous.toList ++ []).IsChain (BucketLt rt) := by cases previous <;> simp
      constructor
      · exact fun h =>
        ⟨⟨fun _ hmem => absurd hmem List.not_mem_nil, hchain⟩, (Except.ok.inj h).symm⟩
      · rintro ⟨-, rfl⟩
        rfl
  | cons bucket rest ih =>
      obtain ⟨bound, count⟩ := bucket
      have hlink : (previous.toList ++ (bound, count) :: rest).IsChain (BucketLt rt) ↔
          (previous.any (fun last => f64Ge rt last.1 bound) = false ∧
            previous.any (fun last => last.2 > count) = false) ∧
          ((bound, count) :: rest).IsChain (BucketLt rt) := by
        cases previous with
        | none => simp
        | some last => simp [BucketLt]
      rw [parseBuckets, List.forall_mem_cons, hlink]
      split
      · next hinfinite => exact ⟨fun h => (by cases h), fun h => by simp [h.1.1.1] at hinfinite⟩
      · next hfinite =>
        split
        · next hge => exact ⟨fun h => (by cases h), fun h => by simp [h.1.2.1.1] at hge⟩
        · next hlt =>
          split
          · next hgt => exact ⟨fun h => (by cases h), fun h => by simp [h.1.2.1.2] at hgt⟩
          · next hle =>
            rw [bind_eq_ok_iff]
            constructor
            · rintro ⟨others, hothers, heq⟩
              obtain ⟨⟨hall, hchain⟩, rfl⟩ := ih.mp hothers
              exact ⟨⟨⟨by simpa using hfinite, hall⟩,
                ⟨by simpa using hlt, by simpa using hle⟩, hchain⟩, (Except.ok.inj heq).symm⟩
            · rintro ⟨⟨⟨-, hall⟩, -, hchain⟩, rfl⟩
              exact ⟨rest, ih.mpr ⟨⟨hall, hchain⟩, rfl⟩, rfl⟩

theorem parseValueSeries_ok_iff {raw : ValueSeries} {series : ExpositionSeries} :
    parseValueSeries rt name raw = .ok series ↔
      SeriesAccepted rt (.value raw.labels.entries raw.value) ∧
        series = .value raw.labels.entries raw.value := by
  rw [parseValueSeries, bind_eq_ok_iff]
  constructor
  · rintro ⟨labels, hlabels, heq⟩
    obtain ⟨hlegal, rfl⟩ := parseLabels_ok_iff.mp hlabels
    exact ⟨hlegal, (Except.ok.inj heq).symm⟩
  · rintro ⟨hlegal, rfl⟩
    exact ⟨_, parseLabels_ok_iff.mpr ⟨hlegal, rfl⟩, rfl⟩

theorem parseHistogramSeries_ok_iff {raw : HistogramSeries} {series : ExpositionSeries} :
    parseHistogramSeries rt name raw = .ok series ↔
      SeriesAccepted rt (.histogram raw.labels.entries raw.buckets raw.sum raw.count) ∧
        series = .histogram raw.labels.entries raw.buckets raw.sum raw.count := by
  rw [parseHistogramSeries, bind_eq_ok_iff]
  constructor
  · rintro ⟨labels, hlabels, heq⟩
    obtain ⟨buckets, hbuckets, heq⟩ := bind_eq_ok_iff.mp heq
    obtain ⟨hlegal, rfl⟩ := parseLabels_ok_iff.mp hlabels
    obtain ⟨hok, rfl⟩ := parseBuckets_ok_iff.mp hbuckets
    split at heq
    · next hsum => exact ⟨⟨hlegal, hok, hsum⟩, (Except.ok.inj heq).symm⟩
    · cases heq
  · rintro ⟨⟨hlegal, hok, hsum⟩, rfl⟩
    refine ⟨_, parseLabels_ok_iff.mpr ⟨hlegal, rfl⟩, bind_eq_ok_iff.mpr
      ⟨_, parseBuckets_ok_iff.mpr ⟨hok, rfl⟩, ?_⟩⟩
    exact if_pos hsum

theorem parseSeries_ok_iff {metric : MetricFamily} {series : List ExpositionSeries} :
    parseSeries rt name metric = .ok series ↔
      (∀ series ∈ wireSeries metric, SeriesAccepted rt series) ∧ series = wireSeries metric := by
  cases metric with
  | counter | gauge =>
      rw [wireSeries, List.forall_mem_map]
      exact mapM_ok_iff fun raw _ _ => parseValueSeries_ok_iff
  | histogram =>
      rw [wireSeries, List.forall_mem_map]
      exact mapM_ok_iff fun raw _ _ => parseHistogramSeries_ok_iff

/-- The label sets are different and have the same names. -/
theorem checkLabelsets_ok_iff {seen labelsets : List Labels} {expected : Option (List String)} :
    checkLabelsets name seen expected labelsets = .ok () ↔
      (labelsets.Nodup ∧ ∀ labels ∈ labelsets, labels ∉ seen) ∧
        ∃ names, (∀ given ∈ expected, given = names) ∧
          ∀ labels ∈ labelsets, Entries.keys labels = names := by
  constructor
  · intro h
    induction labelsets generalizing seen expected with
    | nil =>
        cases expected with
        | none =>
            exact ⟨⟨List.nodup_nil, List.forall_mem_nil _⟩, [], fun _ h => (by cases h),
              List.forall_mem_nil _⟩
        | some given =>
            exact ⟨⟨List.nodup_nil, List.forall_mem_nil _⟩, given,
              fun _ h => (Option.some.inj h).symm, List.forall_mem_nil _⟩
    | cons labels rest ih =>
        rw [checkLabelsets.eq_def] at h
        dsimp only at h
        split at h
        · cases h
        · next hseen =>
          have hmore : ∃ next : Option (List String),
              checkLabelsets name (labels :: seen) next rest = .ok () ∧
                next = some (Entries.keys labels) ∧ ∀ given ∈ expected,
                  given = Entries.keys labels := by
            cases expected with
            | none => exact ⟨_, h, rfl, fun _ hnone => by cases hnone⟩
            | some given =>
                dsimp only at h
                split at h
                · cases h
                · next hkeys =>
                  have heq : given = Entries.keys labels := not_not.mp hkeys
                  exact ⟨_, h, congrArg some heq, fun _ hsome => (Option.some.inj hsome) ▸ heq⟩
          obtain ⟨next, hnext, hkeys, hexpected⟩ := hmore
          obtain ⟨⟨hnodup, hnew⟩, names, hgiven, hnames⟩ := ih hnext
          have hsame := hgiven _ hkeys
          refine ⟨⟨List.nodup_cons.mpr ⟨fun hmem => hnew labels hmem List.mem_cons_self, hnodup⟩,
            List.forall_mem_cons.mpr ⟨hseen, fun other hother hmem =>
              hnew other hother (List.mem_cons_of_mem _ hmem)⟩⟩, Entries.keys labels, hexpected,
              List.forall_mem_cons.mpr ⟨rfl, fun other hother => ?_⟩⟩
          exact (hnames other hother).trans hsame.symm
  · rintro ⟨⟨hnodup, hseen⟩, names, hexpected, hnames⟩
    exact checkLabelsets_ok name hnodup hseen hnames hexpected

theorem validateExportedLabelsets_ok_iff {series : List ExpositionSeries}
    {metricType : ExpositionType} : validateExportedLabelsets series metricType name = .ok () ↔
      (series.map (exportedKey metricType)).Nodup := by
  unfold validateExportedLabelsets
  split
  · next hnodup => exact ⟨fun _ => hnodup, fun _ => rfl⟩
  · next hdup => exact ⟨fun h => (nomatch h), fun h => absurd h hdup⟩

end Series

/-! ## Families -/

section Families

variable {rt : Runtime}

theorem isEmpty_of_metricName {name : String} (h : isLegacyMetricName name = true) :
    name.isEmpty = false := by
  cases hempty : name.isEmpty with
  | false => rfl
  | true =>
      rw [String.isEmpty_iff.mp hempty] at h
      exact nomatch h

theorem parseFamily_ok_iff {names : List String} {metric : MetricFamily}
    {family : ExpositionFamily} : parseFamily rt names metric = .ok family ↔
      (FamilyAccepted rt metric ∧ metric.name ∉ names) ∧ family = declaredFamily metric := by
  unfold parseFamily
  dsimp only
  constructor
  · intro h
    split at h
    · exact nomatch h
    · split at h
      · exact nomatch h
      · next hname =>
        split at h
        · exact nomatch h
        · next hnew =>
          split at h
          · exact nomatch h
          · next hhelp =>
            obtain ⟨series, hseries, h⟩ := bind_eq_ok_iff.mp h
            obtain ⟨_, hsets, h⟩ := bind_eq_ok_iff.mp h
            obtain ⟨_, hexported, h⟩ := bind_eq_ok_iff.mp h
            obtain ⟨haccepted, rfl⟩ := parseSeries_ok_iff.mp hseries
            obtain ⟨⟨hnodup, -⟩, keys, -, hkeys⟩ := checkLabelsets_ok_iff.mp hsets
            rw [List.forall_mem_map] at hkeys
            refine ⟨⟨⟨by simpa using hname, by simpa using hhelp, haccepted,
              fun first hfirst second hsecond => ?_, hnodup,
              validateExportedLabelsets_ok_iff.mp hexported⟩, hnew⟩, (Except.ok.inj h).symm⟩
            exact (hkeys first hfirst).trans (hkeys second hsecond).symm
  · rintro ⟨⟨hok, hnew⟩, rfl⟩
    have hhelp : metric.help.isEmpty = false := by simpa using hok.help
    have hkeys : ∃ keys, ∀ labels ∈ (wireSeries metric).map ExpositionSeries.labels,
        Entries.keys labels = keys := by
      cases hseries : wireSeries metric with
      | nil => exact ⟨[], nofun⟩
      | cons first rest =>
          refine ⟨Entries.keys first.labels, List.forall_mem_map.mpr fun other hother => ?_⟩
          exact hok.keys other (hseries ▸ hother) first (hseries ▸ List.mem_cons_self)
    obtain ⟨keys, hkeys⟩ := hkeys
    have hsets := (@checkLabelsets_ok_iff metric.name [] _ none).mpr
      ⟨⟨hok.distinct, fun _ _ => List.not_mem_nil⟩, keys,
        fun _ hnone => absurd hnone (Option.not_mem_none _), hkeys⟩
    have hexported := (@validateExportedLabelsets_ok_iff metric.name _ _).mpr hok.exported
    simp only [isEmpty_of_metricName hok.name, hok.name, hnew, hhelp, Bool.not_true,
      Bool.false_eq_true, if_false]
    refine bind_eq_ok_iff.mpr ⟨_, parseSeries_ok_iff.mpr ⟨hok.series, rfl⟩, ?_⟩
    refine bind_eq_ok_iff.mpr ⟨(), hsets, bind_eq_ok_iff.mpr ⟨(), hexported, rfl⟩⟩

theorem parseFamilies_ok_iff {names : List String} {metrics : List MetricFamily}
    {families : List ExpositionFamily} : parseFamilies rt names metrics = .ok families ↔
      ((∀ metric ∈ metrics, FamilyAccepted rt metric) ∧ (metrics.map MetricFamily.name).Nodup ∧
        ∀ metric ∈ metrics, metric.name ∉ names) ∧ families = metrics.map declaredFamily := by
  induction metrics generalizing names families with
  | nil =>
      constructor
      · exact fun h => ⟨⟨nofun, List.nodup_nil, nofun⟩, (Except.ok.inj h).symm⟩
      · rintro ⟨-, rfl⟩
        rfl
  | cons metric rest ih =>
      rw [parseFamilies, bind_eq_ok_iff]
      simp only [List.forall_mem_cons, List.map_cons, List.nodup_cons]
      constructor
      · rintro ⟨family, hfamily, h⟩
        obtain ⟨others, hothers, h⟩ := bind_eq_ok_iff.mp h
        obtain ⟨⟨hok, hnew⟩, rfl⟩ := parseFamily_ok_iff.mp hfamily
        obtain ⟨⟨hall, hnodup, hrest⟩, rfl⟩ := ih.mp hothers
        refine ⟨⟨⟨hok, hall⟩, ⟨fun hmem => ?_, hnodup⟩, hnew, fun other hother hmem =>
          hrest other hother (List.mem_cons_of_mem _ hmem)⟩, (Except.ok.inj h).symm⟩
        obtain ⟨other, hother, heq⟩ := List.mem_map.mp hmem
        exact hrest other hother (heq ▸ List.mem_cons_self)
      · rintro ⟨⟨⟨hok, hall⟩, ⟨hname, hnodup⟩, hnew, hrest⟩, rfl⟩
        refine ⟨_, parseFamily_ok_iff.mpr ⟨⟨hok, hnew⟩, rfl⟩, bind_eq_ok_iff.mpr
          ⟨_, ih.mpr ⟨⟨hall, hnodup, fun other hother hmem => ?_⟩, rfl⟩, rfl⟩⟩
        rcases List.mem_cons.mp hmem with heq | hmem
        · exact hname (List.mem_map.mpr ⟨other, hother, heq⟩)
        · exact hrest other hother hmem

theorem fromWire_eq_histogram {metricType : MetricType} :
    ExpositionType.fromWire metricType = .histogram ↔ metricType = .histogram := by
  cases metricType <;> decide

theorem validateHistogramNamespaces_ok_iff {metrics : List MetricFamily}
    {declaredNames : List String} :
    validateHistogramNamespaces (metrics.map declaredFamily) declaredNames = .ok () ↔
      ∀ metric ∈ metrics, metric.metricType = .histogram → ∀ suffix ∈ histogramSuffixes,
        metric.name ++ suffix ∉ declaredNames := by
  have hnone : namespaceClash declaredNames (metrics.map declaredFamily) = none ↔
      ∀ metric ∈ metrics, metric.metricType = .histogram → ∀ suffix ∈ histogramSuffixes,
        metric.name ++ suffix ∉ declaredNames := by
    simp [namespaceClash, declaredFamily, fromWire_eq_histogram]
  rw [← hnone, validateHistogramNamespaces]
  cases namespaceClash declaredNames (metrics.map declaredFamily) with
  | none => exact ⟨fun _ => rfl, fun _ => rfl⟩
  | some clash => exact ⟨fun h => (by cases h), fun h => by cases h⟩

/-- **What is accepted, and what is made of it.** -/
theorem parseSnapshot_ok_iff {root : MetricsSnapshot} {families : List ExpositionFamily} :
    parseSnapshot rt root = .ok families ↔ Accepted rt root ∧ families = exposition root := by
  unfold parseSnapshot
  constructor
  · intro h
    split at h
    · exact nomatch h
    · next hschema =>
      obtain ⟨parsed, hparsed, h⟩ := bind_eq_ok_iff.mp h
      obtain ⟨_, hnamespaces, h⟩ := bind_eq_ok_iff.mp h
      obtain ⟨⟨hall, hnodup, -⟩, rfl⟩ := parseFamilies_ok_iff.mp hparsed
      exact ⟨⟨not_not.mp hschema, hall, hnodup,
        validateHistogramNamespaces_ok_iff.mp hnamespaces⟩, (Except.ok.inj h).symm⟩
  · rintro ⟨hok, rfl⟩
    rw [if_neg (not_not.mpr hok.schema)]
    refine bind_eq_ok_iff.mpr ⟨_, parseFamilies_ok_iff.mpr
      ⟨⟨hok.families, hok.names, fun _ _ => List.not_mem_nil⟩, rfl⟩, ?_⟩
    exact bind_eq_ok_iff.mpr ⟨(), validateHistogramNamespaces_ok_iff.mpr hok.namespaces, rfl⟩

end Families

/-! ## Order -/

/-- The families are the same up to the order of their series. -/
inductive SameFamily : MetricFamily → MetricFamily → Prop
  | counter (name help : String) {series others : List ValueSeries} (h : series.Perm others) :
      SameFamily (.counter name help series) (.counter name help others)
  | gauge (name help : String) {series others : List ValueSeries} (h : series.Perm others) :
      SameFamily (.gauge name help series) (.gauge name help others)
  | histogram (name help : String) {series others : List HistogramSeries}
      (h : series.Perm others) :
      SameFamily (.histogram name help series) (.histogram name help others)

/-- The snapshots are the same up to the order of the families and of their series. -/
def Rearranged (root other : MetricsSnapshot) : Prop :=
  other.schema = root.schema ∧
    ∃ metrics, root.metrics.Perm metrics ∧ List.Forall₂ SameFamily metrics other.metrics

section Order

/-- Items with different keys are sorted in one way. -/
theorem insertionSort_eq_of_perm {α κ : Type} [LinearOrder κ] {key : α → κ} {first second : List α}
    (hperm : first.Perm second) (hnodup : (first.map key).Nodup) :
    first.insertionSort (key · ≤ key ·) = second.insertionSort (key · ≤ key ·) := by
  have hsorted : ∀ items : List α,
      (items.insertionSort (key · ≤ key ·)).Pairwise (key · ≤ key ·) := fun items =>
    @List.pairwise_insertionSort _ _ _ ⟨fun a b => le_total (key a) (key b)⟩
      ⟨fun a b c hab hbc => le_trans (a := key a) hab hbc⟩ items
  have hfirst := List.perm_insertionSort (key · ≤ key ·) first
  have hsecond := List.perm_insertionSort (key · ≤ key ·) second
  refine (hfirst.trans (hperm.trans hsecond.symm)).eq_of_pairwise ?_ (hsorted _) (hsorted _)
  intro a b ha hb hab hba
  exact List.inj_on_of_nodup_map hnodup (hfirst.mem_iff.mp ha)
    (hperm.mem_iff.mpr (hsecond.mem_iff.mp hb)) (le_antisymm hab hba)

theorem find?_eq_of_perm {α : Type} {p : α → Bool} {first second : List α}
    (hperm : first.Perm second)
    (hunique : ∀ a ∈ first, ∀ b ∈ first, p a = true → p b = true → a = b) :
    first.find? p = second.find? p := by
  cases hfind : first.find? p with
  | none =>
      refine (List.find?_eq_none.mpr fun a ha => ?_).symm
      exact List.find?_eq_none.mp hfind a (hperm.mem_iff.mpr ha)
  | some a =>
      have ha := List.mem_of_find?_eq_some hfind
      refine (find?_eq_some_of_unique (hperm.mem_iff.mp ha) (List.find?_some hfind) ?_).symm
      exact fun b hb hp => hunique b (hperm.mem_iff.mpr hb) a ha hp (List.find?_some hfind)

variable {rt : Runtime} {metric other : MetricFamily} {root rearranged : MetricsSnapshot}

namespace SameFamily

theorem name_eq (h : SameFamily metric other) : other.name = metric.name := by
  cases h <;> rfl

theorem help_eq (h : SameFamily metric other) : other.help = metric.help := by
  cases h <;> rfl

theorem metricType_eq (h : SameFamily metric other) : other.metricType = metric.metricType := by
  cases h <;> rfl

theorem wireSeries_perm (h : SameFamily metric other) :
    (wireSeries metric).Perm (wireSeries other) := by
  cases h with
  | counter _ _ hperm | gauge _ _ hperm | histogram _ _ hperm => exact hperm.map _

theorem accepted (h : SameFamily metric other) (hok : FamilyAccepted rt metric) :
    FamilyAccepted rt other := by
  have hperm := h.wireSeries_perm
  refine ⟨h.name_eq ▸ hok.name, h.help_eq ▸ hok.help,
    fun series hseries => hok.series series (hperm.mem_iff.mpr hseries),
    fun first hfirst second hsecond => hok.keys first (hperm.mem_iff.mpr hfirst) second
      (hperm.mem_iff.mpr hsecond), ?_, ?_⟩
  · exact (hperm.map _).nodup_iff.mp hok.distinct
  · rw [h.metricType_eq]
    exact (hperm.map _).nodup_iff.mp hok.exported

theorem declaredFamily_eq (h : SameFamily metric other) (hok : FamilyAccepted rt metric) :
    declaredFamily other = declaredFamily metric := by
  have hlabels : Function.Injective fun labels : Labels => labels.map toLex :=
    List.map_injective_iff.mpr toLex.injective
  have hnodup : ((wireSeries metric).map fun series => series.labels.map toLex).Nodup := by
    have hdistinct := hok.distinct.map hlabels
    rwa [List.map_map] at hdistinct
  have hsort : sortSeries (wireSeries metric) = sortSeries (wireSeries other) :=
    insertionSort_eq_of_perm h.wireSeries_perm hnodup
  rw [declaredFamily, declaredFamily, h.name_eq, h.help_eq, h.metricType_eq, hsort]

end SameFamily

namespace Rearranged

theorem exists_same {metrics others : List MetricFamily}
    (h : List.Forall₂ SameFamily metrics others) {other : MetricFamily} (hother : other ∈ others) :
    ∃ metric ∈ metrics, SameFamily metric other := by
  induction h with
  | nil => exact absurd hother List.not_mem_nil
  | cons hfirst _ ih =>
      rcases List.mem_cons.mp hother with rfl | hrest
      · exact ⟨_, List.mem_cons_self, hfirst⟩
      · obtain ⟨metric, hmetric, hsame⟩ := ih hrest
        exact ⟨metric, List.mem_cons_of_mem _ hmetric, hsame⟩

theorem names_perm (h : Rearranged root rearranged) :
    (root.metrics.map MetricFamily.name).Perm (rearranged.metrics.map MetricFamily.name) := by
  obtain ⟨-, metrics, hperm, hsame⟩ := h
  have hnames : ∀ {metrics others : List MetricFamily}, List.Forall₂ SameFamily metrics others →
      others.map MetricFamily.name = metrics.map MetricFamily.name := by
    intro metrics others hsame
    induction hsame with
    | nil => rfl
    | cons hfirst _ ih => rw [List.map_cons, List.map_cons, hfirst.name_eq, ih]
  rw [hnames hsame]
  exact hperm.map _

/-- **A snapshot is accepted in any order.** -/
theorem accepted (h : Rearranged root rearranged) (hok : Accepted rt root) :
    Accepted rt rearranged := by
  have hnames := h.names_perm
  obtain ⟨hschema, metrics, hperm, hsame⟩ := h
  refine ⟨hschema.trans hok.schema, fun other hother => ?_, hnames.nodup_iff.mp hok.names,
    fun other hother htype suffix hsuffix hmem => ?_⟩
  · obtain ⟨metric, hmetric, hsame⟩ := exists_same hsame hother
    exact hsame.accepted (hok.families metric (hperm.mem_iff.mpr hmetric))
  · obtain ⟨metric, hmetric, hsame⟩ := exists_same hsame hother
    rw [hsame.name_eq] at hmem
    rw [hsame.metricType_eq] at htype
    exact hok.namespaces metric (hperm.mem_iff.mpr hmetric) htype suffix hsuffix
      (hnames.mem_iff.mpr hmem)

theorem declaredFamilies_perm (h : Rearranged root rearranged) (hok : Accepted rt root) :
    (declaredFamilies root).Perm (declaredFamilies rearranged) := by
  obtain ⟨-, metrics, hperm, hsame⟩ := h
  have hall : ∀ metric ∈ metrics, FamilyAccepted rt metric := fun metric hmetric =>
    hok.families metric (hperm.mem_iff.mpr hmetric)
  have hdeclared : ∀ {metrics others : List MetricFamily}, List.Forall₂ SameFamily metrics others →
      (∀ metric ∈ metrics, FamilyAccepted rt metric) →
        others.map declaredFamily = metrics.map declaredFamily := by
    intro metrics others hsame hall
    induction hsame with
    | nil => rfl
    | cons hfirst _ ih =>
        obtain ⟨hmetric, hrest⟩ := List.forall_mem_cons.mp hall
        rw [List.map_cons, List.map_cons, hfirst.declaredFamily_eq hmetric, ih hrest]
  rw [declaredFamilies, declaredFamilies, hdeclared hsame hall]
  exact hperm.map _

theorem map_name_declaredFamilies (root : MetricsSnapshot) :
    (declaredFamilies root).map ExpositionFamily.name = root.metrics.map MetricFamily.name := by
  rw [declaredFamilies, List.map_map]
  rfl

/-- The derived family is the same in any order. -/
theorem derived_eq (h : Rearranged root rearranged) (hok : Accepted rt root) :
    deriveDroppedOwn (declaredFamilies rearranged) = deriveDroppedOwn (declaredFamilies root) := by
  have hnodup : ((declaredFamilies root).map ExpositionFamily.name).Nodup := by
    rw [map_name_declaredFamilies]
    exact hok.names
  have hfind : (declaredFamilies root).find? (·.name = eventsDroppedTotal) =
      (declaredFamilies rearranged).find? (·.name = eventsDroppedTotal) := by
    refine find?_eq_of_perm (h.declaredFamilies_perm hok) fun a ha b hb hp hq => ?_
    exact List.inj_on_of_nodup_map hnodup ha hb
      ((of_decide_eq_true hp).trans (of_decide_eq_true hq).symm)
  rw [deriveDroppedOwn, deriveDroppedOwn, hfind]

theorem exposedFamilies_perm (h : Rearranged root rearranged) (hok : Accepted rt root) :
    (exposedFamilies root).Perm (exposedFamilies rearranged) := by
  rw [exposedFamilies, exposedFamilies, h.derived_eq hok]
  exact (h.declaredFamilies_perm hok).append_right _

/-- **The exposition is the same in any order.** -/
theorem exposition_eq (h : Rearranged root rearranged) (hok : Accepted rt root)
    (hnames : ((exposedFamilies root).map ExpositionFamily.name).Nodup) :
    exposition rearranged = exposition root :=
  (insertionSort_eq_of_perm (h.exposedFamilies_perm hok) hnames).symm

end Rearranged

end Order

end Limpid.Prometheus
