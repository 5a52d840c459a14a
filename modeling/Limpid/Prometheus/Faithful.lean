import Mathlib.Data.List.Chain
import Limpid.Prometheus.Declared
import Limpid.Prometheus.Derived

/-!
# The exposition is faithful

The text that is rendered for an accepted snapshot, read back by the grammar of the format, gives
the families of the snapshot and the derived one (`Faithful`), unless the derived family is one that
the snapshot has declared (`ShadowsDerived`): what `parse_snapshot` checks about the names, it
checks before the family is derived.

* A declared family and the derived one can be written (`writable_declared`, `writable_derived`), so
  they are read back.
* The samples differ: within a family by the labels or the suffix, between families by the name,
  because no histogram exports a name that is declared or derived (`nodup_sampleIds`).
* The text is the same in any order (`Rearranged.exposition_eq`).
-/

namespace Limpid.Prometheus

open Dsl Metrics
open Exposition (Sample readText isBlank)

/-- The order of finite floats. -/
structure FiniteOrder (rt : Runtime) : Prop where
  self : ∀ x, rt.isFinite x = true → rt.partialCmp x x = some .eq
  total : ∀ x y, rt.isFinite x = true → rt.isFinite y = true → rt.partialCmp x y ≠ none
  trans : ∀ x y z, rt.isFinite x = true → rt.isFinite y = true → rt.isFinite z = true →
    rt.partialCmp x y = some .lt → rt.partialCmp y z = some .lt → rt.partialCmp x z = some .lt

/-! ## What is to hold -/

/-- A family as it is read back. -/
structure ReadBack (metric : MetricFamily) (family : ExpositionFamily) : Prop where
  name : family.name = metric.name
  metricType : family.metricType = .fromWire metric.metricType
  help : family.help = metric.help
  series : family.series.Perm ((wireSeries metric).map ExpositionSeries.exported)

/-- The name and the labels of each sample. -/
def sampleIds (families : List Exposition.Family) : List (String × Labels) :=
  families.flatMap fun family => family.samples.map fun sample => (sample.name, sample.labels)

/-- **A text is faithful to a snapshot.** -/
structure Faithful (rt : Runtime) (root : MetricsSnapshot) (text : String) : Prop where
  read : ∃ families, readExposition rt text = some families ∧
    (families.map ExpositionFamily.name).Nodup ∧
      ∃ declared, List.Forall₂ ReadBack root.metrics declared ∧ families.Perm (declared ++
        ((deriveDroppedOwn (declaredFamilies root)).map ExpositionFamily.exported).toList)
  samples : ∃ families, readText text.toList = some families ∧ (sampleIds families).Nodup
  shift : Function.Injective shiftKey ∧ ∀ metric ∈ root.metrics, metric.metricType = .histogram →
    ∀ first ∈ wireSeries metric, ∀ second ∈ wireSeries metric,
      mapHistogramLabels first.labels = mapHistogramLabels second.labels →
        first.labels = second.labels
  stable : ∀ other, Rearranged root other →
    ∃ families, parseSnapshot rt other = .ok families ∧ renderSnapshot rt families = text

/-- The snapshot has declared the family that is derived from it. -/
def ShadowsDerived (root : MetricsSnapshot) : Prop :=
  (∃ metric ∈ root.metrics, metric.name = eventsDroppedTotal ∧ metric.metricType = .counter) ∧
    eventsDroppedOwnTotal ∈ root.metrics.map MetricFamily.name

/-! ## Buckets in order -/

section Buckets

variable {rt : Runtime}

theorem lt_of_f64Ge_eq_false (horder : FiniteOrder rt) {first second : F64}
    (hfirst : rt.isFinite first = true) (hsecond : rt.isFinite second = true)
    (h : f64Ge rt first second = false) : rt.partialCmp first second = some .lt := by
  have htotal := horder.total first second hfirst hsecond
  unfold f64Ge at h
  cases hcmp : rt.partialCmp first second with
  | none => exact absurd hcmp htotal
  | some order =>
      rw [hcmp] at h
      cases order with
      | lt => rfl
      | eq | gt => simp at h

/-- Bounds in order are pairwise in order. -/
theorem pairwise_bounds (horder : FiniteOrder rt) {buckets : List (F64 × ℕ)}
    (hfinite : ∀ bucket ∈ buckets, rt.isFinite bucket.1 = true)
    (hchain : buckets.IsChain (BucketLt rt)) :
    (buckets.map Prod.fst).Pairwise fun first second => f64Ge rt first second = false := by
  let Lt : F64 × ℕ → F64 × ℕ → Prop := fun first second => rt.isFinite first.1 = true ∧
    rt.isFinite second.1 = true ∧ rt.partialCmp first.1 second.1 = some .lt
  have htrans : IsTrans (F64 × ℕ) Lt := ⟨fun first second third hfirst hsecond =>
    ⟨hfirst.1, hsecond.2.1, horder.trans _ _ _ hfirst.1 hfirst.2.1 hsecond.2.1 hfirst.2.2
      hsecond.2.2⟩⟩
  have hlt : buckets.IsChain Lt := hchain.imp_of_mem_imp fun first second hfirst hsecond h =>
    ⟨hfinite first hfirst, hfinite second hsecond,
      lt_of_f64Ge_eq_false horder (hfinite first hfirst) (hfinite second hsecond) h.1⟩
  refine List.pairwise_map.mpr (hlt.pairwise.imp fun h => ?_)
  exact f64Ge_of_lt (decide_eq_true h.2.2)

end Buckets

/-! ## Declared families -/

section Writable

variable {rt : Runtime} {metric : MetricFamily}

theorem sorted_wireSeries {series : ExpositionSeries} (hseries : series ∈ wireSeries metric) :
    (Entries.keys series.labels).Pairwise (· < ·) := by
  cases metric with
  | counter | gauge | histogram =>
      obtain ⟨raw, -, rfl⟩ := List.mem_map.mp hseries
      exact raw.labels.sorted

theorem seriesOk_wireSeries (horder : FiniteOrder rt) (hok : FamilyAccepted rt metric)
    {series : ExpositionSeries} (hseries : series ∈ wireSeries metric) :
    SeriesOk rt (.fromWire metric.metricType) series := by
  have haccepted := hok.series series hseries
  have hsorted := sorted_wireSeries hseries
  cases metric with
  | counter | gauge =>
      obtain ⟨raw, -, rfl⟩ := List.mem_map.mp hseries
      exact ⟨haccepted, hsorted, fun _ => ⟨_, _, rfl⟩, fun h => nomatch h⟩
  | histogram =>
      obtain ⟨raw, -, rfl⟩ := List.mem_map.mp hseries
      obtain ⟨hlegal, ⟨hfinite, hchain⟩, hsum⟩ := haccepted
      exact ⟨hlegal, hsorted, fun h => absurd rfl h, fun _ => ⟨_, _, _, _, rfl, hsum, hfinite,
        pairwise_bounds horder hfinite hchain⟩⟩

theorem writable_declared (horder : FiniteOrder rt) (hok : FamilyAccepted rt metric)
    (hhelp : ∀ c ∈ metric.help.toList.head?, isBlank c = false) :
    Writable rt (declaredFamily metric) := by
  have hperm : (sortSeries (wireSeries metric)).Perm (wireSeries metric) :=
    List.perm_insertionSort _ _
  refine ⟨hok.name, hhelp, fun series hseries => ?_, ?_⟩
  · exact seriesOk_wireSeries horder hok (hperm.mem_iff.mp hseries)
  · exact (hperm.map _).nodup_iff.mpr hok.exported

theorem readBack_declared : ReadBack metric (declaredFamily metric).exported :=
  ⟨rfl, rfl, rfl, (List.perm_insertionSort _ _).map _⟩

theorem toValue_eq_some {series : ExpositionSeries} {entry : Labels × ℕ}
    (h : series.toValue = some entry) : series = .value entry.1 entry.2 := by
  cases series with
  | value labels value => exact Option.some.inj h ▸ rfl
  | histogram => exact nomatch h

/-- The values of series, in their order. -/
theorem map_fst_of_toValue {all : List ExpositionSeries} {values : List (Labels × ℕ)}
    (h : all.mapM ExpositionSeries.toValue = some values) :
    values.map Prod.fst = all.map ExpositionSeries.labels := by
  induction all generalizing values with
  | nil =>
      obtain rfl : [] = values := Option.some.inj h
      rfl
  | cons series rest ih =>
      rw [List.mapM_cons, Option.bind_eq_bind, Option.bind_eq_some_iff] at h
      obtain ⟨entry, hentry, h⟩ := h
      rw [Option.bind_eq_bind, Option.bind_eq_some_iff] at h
      obtain ⟨others, hothers, h⟩ := h
      rw [← Option.some.inj h, List.map_cons, List.map_cons, ih hothers, toValue_eq_some hentry]
      rfl

/-- The derived family comes from the family of the dropped events. -/
theorem exists_of_derived {families : List ExpositionFamily} {derived : ExpositionFamily}
    (h : deriveDroppedOwn families = some derived) : ∃ source ∈ families, ∃ values,
      source.name = eventsDroppedTotal ∧ source.metricType = .counter ∧
        source.series.mapM ExpositionSeries.toValue = some values ∧
        derived = ⟨eventsDroppedOwnTotal, .counter, droppedOwnHelp, derivedSeries values⟩ := by
  rw [deriveDroppedOwn, Option.bind_eq_bind, Option.bind_eq_some_iff] at h
  obtain ⟨source, hsource, h⟩ := h
  split at h
  · cases h
  · next htype =>
    rw [Option.bind_eq_bind, Option.bind_eq_some_iff] at h
    obtain ⟨values, hvalues, h⟩ := h
    have hname := List.find?_some hsource
    exact ⟨source, List.mem_of_find?_eq_some hsource, values, of_decide_eq_true hname,
      not_not.mp htype, hvalues, (Option.some.inj h).symm⟩

theorem value_of_mem_derivedSeries {values : List (Labels × ℕ)} {series : ExpositionSeries}
    (h : series ∈ derivedSeries values) : ∃ labels value, series = .value labels value := by
  obtain ⟨i, hi, rfl⟩ := List.getElem_of_mem h
  exact ⟨_, _, List.getElem_zipWith⟩

theorem labels_derivedSeries (values : List (Labels × ℕ)) :
    (derivedSeries values).map ExpositionSeries.labels = values.map Prod.fst := by
  have hall := mapM_toValue fun series (hseries : series ∈ derivedSeries values) =>
    value_of_mem_derivedSeries hseries
  rw [← map_fst_of_toValue hall]
  exact keys_derivedSeries values

theorem writable_derived {families : List ExpositionFamily}
    (hall : ∀ family ∈ families, Writable rt family) {derived : ExpositionFamily}
    (h : deriveDroppedOwn families = some derived) : Writable rt derived := by
  obtain ⟨source, hsource, values, -, htype, hvalues, rfl⟩ := exists_of_derived h
  have hwritable := hall source hsource
  have hlabels : (derivedSeries values).map ExpositionSeries.labels =
      source.series.map ExpositionSeries.labels :=
    (labels_derivedSeries values).trans (map_fst_of_toValue hvalues)
  refine ⟨show isLegacyMetricName eventsDroppedOwnTotal = true by decide, fun c hc => ?_,
    fun series hseries => ?_, ?_⟩
  · have hfirst : droppedOwnHelp.toList.head? = some 'T' := rfl
    obtain rfl : 'T' = c := Option.some.inj (hfirst.symm.trans hc)
    rfl
  · have hmem : series.labels ∈ source.series.map ExpositionSeries.labels :=
      hlabels ▸ List.mem_map_of_mem hseries
    obtain ⟨other, hother, heq⟩ := List.mem_map.mp hmem
    have hok := hwritable.series other hother
    exact ⟨heq ▸ hok.legal, heq ▸ hok.sorted, fun _ => value_of_mem_derivedSeries hseries,
      fun h => nomatch h⟩
  · have hdistinct := hwritable.distinct
    rw [htype] at hdistinct
    change ((derivedSeries values).map ExpositionSeries.labels).Nodup
    rw [hlabels]
    exact hdistinct

end Writable

/-! ## Names of samples -/

/-- The end of a name, where the suffixes differ from each other and from the derived name. -/
def nameEnd (name : String) : List Char := name.toList.reverse.take 2

theorem nameEnd_append {name suffix : String} (h : 2 ≤ suffix.toList.length) :
    nameEnd (name ++ suffix) = nameEnd suffix := by
  rw [nameEnd, String.toList_append, List.reverse_append]
  exact List.take_append_of_le_length (by rwa [List.length_reverse])

theorem two_le_suffix {suffix : String} (h : suffix ∈ histogramSuffixes) :
    2 ≤ suffix.toList.length := by
  rcases List.mem_cons.mp h with rfl | h
  · decide
  · rcases List.mem_cons.mp h with rfl | h
    · decide
    · rw [List.mem_singleton.mp h]
      decide

theorem nameEnd_suffix {first second : String} (hfirst : first ∈ histogramSuffixes)
    (hsecond : second ∈ histogramSuffixes) (h : nameEnd first = nameEnd second) :
    first = second := by
  have hnodup : (histogramSuffixes.map nameEnd).Nodup := by decide
  exact List.inj_on_of_nodup_map hnodup hfirst hsecond h

/-- Names with suffixes are told apart. -/
theorem append_suffix_inj {first second suffix other : String}
    (hsuffix : suffix ∈ histogramSuffixes) (hother : other ∈ histogramSuffixes)
    (h : first ++ suffix = second ++ other) : first = second := by
  have hend : nameEnd suffix = nameEnd other := by
    rw [← nameEnd_append (two_le_suffix hsuffix), h, nameEnd_append (two_le_suffix hother)]
  rw [nameEnd_suffix hsuffix hother hend] at h
  exact (String.append_left_inj other).mp h

/-- No histogram exports the derived name. -/
theorem append_suffix_ne_derived {name suffix : String} (h : suffix ∈ histogramSuffixes) :
    name ++ suffix ≠ eventsDroppedOwnTotal := by
  intro heq
  have hend : nameEnd suffix = nameEnd eventsDroppedOwnTotal := by
    rw [← nameEnd_append (two_le_suffix h), heq]
  have hnone : nameEnd eventsDroppedOwnTotal ∉ histogramSuffixes.map nameEnd := by decide
  exact hnone (hend ▸ List.mem_map_of_mem h)

/-! ## Samples -/

section SampleIds

variable {rt : Runtime} {name : String} {metricType : ExpositionType}

theorem display_inj (hdisplay : DisplayOk rt) {first second : F64}
    (hfirst : rt.isFinite first = true) (hsecond : rt.isFinite second = true)
    (h : rt.display first = rt.display second) : first = second := by
  have hparse := hdisplay.parse first hfirst
  rw [h, hdisplay.parse second hsecond] at hparse
  exact (Option.some.inj hparse).symm

/-- The texts of the bounds, that of everything with the others. -/
theorem nodup_boundTexts (hdisplay : DisplayOk rt) (horder : FiniteOrder rt)
    {buckets : List (F64 × ℕ)} (hfinite : ∀ bucket ∈ buckets, rt.isFinite bucket.1 = true)
    (hincreasing : (buckets.map Prod.fst).Pairwise fun first second =>
      f64Ge rt first second = false) :
    (buckets.map (fun bucket => rt.display bucket.1) ++ ["+Inf"]).Nodup := by
  have hbounds : (buckets.map Prod.fst).Nodup := by
    refine hincreasing.imp_of_mem fun {first second} hfirst _ hlt heq => ?_
    obtain ⟨bucket, hbucket, rfl⟩ := List.mem_map.mp hfirst
    rw [← heq, f64Ge, horder.self _ (hfinite bucket hbucket)] at hlt
    simp at hlt
  have htexts : (buckets.map fun bucket => rt.display bucket.1).Nodup := by
    have hmap := hbounds.map_on (f := rt.display) fun first hfirst second hsecond heq => by
      obtain ⟨bucket, hbucket, rfl⟩ := List.mem_map.mp hfirst
      obtain ⟨other, hother, rfl⟩ := List.mem_map.mp hsecond
      exact display_inj hdisplay (hfinite bucket hbucket) (hfinite other hother) heq
    rwa [List.map_map] at hmap
  refine List.nodup_append.mpr ⟨htexts, List.nodup_singleton _, fun text htext other hother => ?_⟩
  obtain ⟨bucket, hbucket, rfl⟩ := List.mem_map.mp htext
  rw [List.mem_singleton.mp hother]
  intro heq
  have hchar := (hdisplay.text _ (hfinite bucket hbucket)).2 'I' (heq ▸ by decide)
  revert hchar
  decide

/-- The samples of a series differ. -/
theorem nodup_seriesSamples (hdisplay : DisplayOk rt) (horder : FiniteOrder rt)
    {series : ExpositionSeries} (h : SeriesOk rt metricType series) :
    ((seriesSamples rt name series).map fun sample => (sample.name, sample.labels)).Nodup := by
  by_cases htype : metricType = .histogram
  · obtain ⟨labels, buckets, sum, count, rfl, -, hfinite, hincreasing⟩ := h.histogram htype
    obtain ⟨hlegal, hsorted, hle⟩ := mapHistogramLabels_ok h.legal h.sorted
    have hbound : ∀ bound, (withBucketBound (mapHistogramLabels labels) bound).lookup "le" =
        some bound := fun bound => (bucketLabels hlegal hsorted hle bound).bound
    have hbucket : Function.Injective fun bound : String =>
        (name ++ "_bucket", withBucketBound (mapHistogramLabels labels) bound) := by
      intro first second heq
      have hlookup := congrArg (List.lookup "le") (Prod.mk.inj heq).2
      rw [hbound, hbound] at hlookup
      exact Option.some.inj hlookup
    have hsplit : ((seriesSamples rt name (.histogram labels buckets sum count)).map fun sample =>
        (sample.name, sample.labels)) =
        (buckets.map (fun bucket => rt.display bucket.1) ++ ["+Inf"]).map (fun bound =>
          (name ++ "_bucket", withBucketBound (mapHistogramLabels labels) bound)) ++
        [(name ++ "_sum", mapHistogramLabels labels),
          (name ++ "_count", mapHistogramLabels labels)] := by
      simp [seriesSamples]
    have hnames : name ++ "_sum" ≠ name ++ "_count" := by
      simp only [ne_eq, String.append_right_inj]
      decide
    obtain ⟨hsum, hcount⟩ := suffix_ne name
    rw [hsplit]
    refine List.nodup_append.mpr ⟨(nodup_boundTexts hdisplay horder hfinite hincreasing).map
      hbucket, ?_, fun first hfirst second hsecond heq => ?_⟩
    · refine List.nodup_cons.mpr ⟨fun hmem => ?_, List.nodup_singleton _⟩
      exact hnames (Prod.mk.inj (List.mem_singleton.mp hmem)).1
    · obtain ⟨bound, -, rfl⟩ := List.mem_map.mp hfirst
      rcases List.mem_cons.mp hsecond with rfl | hsecond
      · exact hsum (Prod.mk.inj heq).1.symm
      · rw [List.mem_singleton.mp hsecond] at heq
        exact hcount (Prod.mk.inj heq).1.symm
  · obtain ⟨labels, value, rfl⟩ := h.value htype
    exact List.nodup_singleton _

/-- Blocks whose members have the keys of the blocks. -/
theorem nodup_blocks {α β κ : Type} {block : α → List β} {key : β → κ} {keyOf : α → κ}
    {items : List α} (hnodup : (items.map keyOf).Nodup)
    (hkey : ∀ a ∈ items, ∀ b ∈ block a, key b = keyOf a)
    (hblock : ∀ a ∈ items, (block a).Nodup) : (items.flatMap block).Nodup := by
  refine List.nodup_flatMap.mpr ⟨hblock, ?_⟩
  refine (List.pairwise_map.mp hnodup).imp_of_mem fun {a b} ha hb hne => ?_
  exact fun c hfirst hsecond => hne ((hkey a ha c hfirst).symm.trans (hkey b hb c hsecond))

/-- The samples of a family differ. -/
theorem nodup_familySamples (hdisplay : DisplayOk rt) (horder : FiniteOrder rt)
    {family : ExpositionFamily} (h : Writable rt family) :
    ((familySamples rt family).map fun sample => (sample.name, sample.labels)).Nodup := by
  have hmap : ((familySamples rt family).map fun sample => (sample.name, sample.labels)) =
      family.series.flatMap fun series =>
        (seriesSamples rt family.name series).map fun sample => (sample.name, sample.labels) := by
    rw [familySamples, List.map_flatMap]
  rw [hmap]
  let key : String × Labels → Labels := fun id => seriesKey family.name ⟨id.1, id.2, ""⟩
  refine @nodup_blocks _ _ _ _ key _ _ h.distinct ?_ fun series hseries =>
    nodup_seriesSamples hdisplay horder (h.series series hseries)
  intro series hseries id hid
  obtain ⟨sample, hsample, rfl⟩ := List.mem_map.mp hid
  exact (seriesSamples_ok hdisplay h.name (h.series series hseries) sample hsample).key

/-- No histogram exports the name of a family. -/
def NamespacesOk (families : List ExpositionFamily) : Prop :=
  ∀ family ∈ families, family.metricType = .histogram → ∀ suffix ∈ histogramSuffixes,
    family.name ++ suffix ∉ families.map ExpositionFamily.name

/-- **The samples differ.** -/
theorem nodup_sampleIds (hdisplay : DisplayOk rt) (horder : FiniteOrder rt)
    {families : List ExpositionFamily} (h : ∀ family ∈ families, Writable rt family)
    (hnames : (families.map ExpositionFamily.name).Nodup) (hspaces : NamespacesOk families) :
    (sampleIds (families.map (textFamily rt))).Nodup := by
  rw [sampleIds, List.flatMap_map]
  refine List.nodup_flatMap.mpr ⟨fun family hfamily =>
    nodup_familySamples hdisplay horder (h family hfamily), ?_⟩
  refine (List.pairwise_map.mp hnames).imp_of_mem fun {first second} hfirst hsecond hne => ?_
  intro id hid hother
  obtain ⟨sample, hsample, rfl⟩ := List.mem_map.mp hid
  obtain ⟨other, hotherSample, heq⟩ := List.mem_map.mp hother
  have hname : other.name = sample.name := (Prod.mk.inj heq).1
  obtain ⟨_, -, hof⟩ := familySamples_ok hdisplay (h first hfirst) sample hsample
  obtain ⟨_, -, hofOther⟩ := familySamples_ok hdisplay (h second hsecond) other hotherSample
  rcases hof.named with hplain | ⟨htype, suffix, hsuffix, hlong⟩
  · rcases hofOther.named with hplainOther | ⟨htypeOther, suffix, hsuffix, hlongOther⟩
    · exact hne (hplain.symm.trans (hname.symm.trans hplainOther))
    · refine hspaces second hsecond htypeOther suffix hsuffix ?_
      rw [← hlongOther, hname, hplain]
      exact List.mem_map_of_mem hfirst
  · rcases hofOther.named with hplainOther | ⟨htypeOther, otherSuffix, hotherSuffix, hlongOther⟩
    · refine hspaces first hfirst htype suffix hsuffix ?_
      rw [← hlong, ← hname, hplainOther]
      exact List.mem_map_of_mem hsecond
    · exact hne (append_suffix_inj hsuffix hotherSuffix
        (hlong.symm.trans (hname.symm.trans hlongOther)))

end SampleIds

/-! ## Snapshots -/

section Snapshots

variable {rt : Runtime} {root : MetricsSnapshot}

theorem fromWire_eq_counter {metricType : MetricType} :
    ExpositionType.fromWire metricType = .counter ↔ metricType = .counter := by
  cases metricType <;> decide

/-- There is a derived family if there is a counter of the dropped events. -/
theorem exists_derived_iff (hok : Accepted rt root) :
    (∃ derived, deriveDroppedOwn (declaredFamilies root) = some derived) ↔
      ∃ metric ∈ root.metrics, metric.name = eventsDroppedTotal ∧ metric.metricType = .counter := by
  constructor
  · rintro ⟨derived, h⟩
    obtain ⟨source, hsource, _, hname, htype, -⟩ := exists_of_derived h
    obtain ⟨metric, hmetric, rfl⟩ := List.mem_map.mp hsource
    exact ⟨metric, hmetric, hname, fromWire_eq_counter.mp htype⟩
  · rintro ⟨metric, hmetric, hname, htype⟩
    have hfind : (declaredFamilies root).find? (·.name = eventsDroppedTotal) =
        some (declaredFamily metric) := by
      refine find?_eq_some_of_unique (List.mem_map_of_mem hmetric) (decide_eq_true hname) ?_
      intro family hfamily hother
      obtain ⟨other, hmem, rfl⟩ := List.mem_map.mp hfamily
      have hsame : other = metric := List.inj_on_of_nodup_map hok.names hmem hmetric
        ((of_decide_eq_true hother).trans hname.symm)
      rw [hsame]
    have hvalues : ∀ series ∈ (declaredFamily metric).series,
        ∃ labels value, series = .value labels value := by
      intro series hseries
      have hmem : series ∈ wireSeries metric := (List.perm_insertionSort _ _).mem_iff.mp hseries
      cases metric with
      | counter =>
          obtain ⟨raw, -, rfl⟩ := List.mem_map.mp hmem
          exact ⟨_, _, rfl⟩
      | gauge | histogram => exact nomatch htype
    refine ⟨⟨eventsDroppedOwnTotal, .counter, droppedOwnHelp,
      derivedSeries ((declaredFamily metric).series.filterMap ExpositionSeries.toValue)⟩, ?_⟩
    have hcounter : (declaredFamily metric).metricType = .counter := fromWire_eq_counter.mpr htype
    rw [deriveDroppedOwn, hfind, Option.bind_eq_bind, Option.bind_some,
      if_neg (not_not.mpr hcounter),
      mapM_toValue hvalues]
    rfl

/-- A family is declared twice exactly where the snapshot has declared the derived one. -/
theorem nodup_exposed_iff (hok : Accepted rt root) :
    ((exposedFamilies root).map ExpositionFamily.name).Nodup ↔ ¬ShadowsDerived root := by
  rw [exposedFamilies, List.map_append, Rearranged.map_name_declaredFamilies, ShadowsDerived,
    ← exists_derived_iff hok]
  cases hderived : deriveDroppedOwn (declaredFamilies root) with
  | none =>
      simp only [Option.toList_none, List.map_nil, List.append_nil]
      constructor
      · rintro - ⟨⟨_, hnone⟩, -⟩
        cases hnone
      · exact fun _ => hok.names
  | some derived =>
      obtain ⟨_, -, _, -, -, -, rfl⟩ := exists_of_derived hderived
      change (_ ++ [eventsDroppedOwnTotal]).Nodup ↔ _
      rw [List.nodup_append_comm, List.singleton_append, List.nodup_cons]
      exact ⟨fun h hshadow => h.1 hshadow.2, fun h => ⟨fun hmem => h ⟨⟨_, rfl⟩, hmem⟩, hok.names⟩⟩

theorem writable_exposed (horder : FiniteOrder rt) (hok : Accepted rt root)
    (hhelp : ∀ metric ∈ root.metrics, ∀ c ∈ metric.help.toList.head?, isBlank c = false) :
    ∀ family ∈ exposedFamilies root, Writable rt family := by
  have hdeclared : ∀ family ∈ declaredFamilies root, Writable rt family :=
    List.forall_mem_map.mpr fun metric hmetric =>
      writable_declared horder (hok.families metric hmetric) (hhelp metric hmetric)
  refine List.forall_mem_append.mpr ⟨hdeclared, fun family hfamily => ?_⟩
  exact writable_derived hdeclared (Option.mem_toList.mp hfamily)

theorem namespaces_exposed (hok : Accepted rt root) : NamespacesOk (exposedFamilies root) := by
  intro family hfamily htype suffix hsuffix hmem
  rw [exposedFamilies, List.map_append, Rearranged.map_name_declaredFamilies] at hmem
  rcases List.mem_append.mp hfamily with hdeclared | hderived
  · obtain ⟨metric, hmetric, rfl⟩ := List.mem_map.mp hdeclared
    rcases List.mem_append.mp hmem with hmem | hmem
    · exact hok.namespaces metric hmetric (fromWire_eq_histogram.mp htype) suffix hsuffix hmem
    · obtain ⟨derived, hderived, hname⟩ := List.mem_map.mp hmem
      obtain ⟨_, -, _, -, -, -, rfl⟩ := exists_of_derived (Option.mem_toList.mp hderived)
      exact append_suffix_ne_derived hsuffix hname.symm
  · obtain ⟨_, -, _, -, -, -, rfl⟩ := exists_of_derived (Option.mem_toList.mp hderived)
    cases htype

theorem shift_wireSeries {metric : MetricFamily} (hok : FamilyAccepted rt metric) :
    ∀ first ∈ wireSeries metric, ∀ second ∈ wireSeries metric,
      mapHistogramLabels first.labels = mapHistogramLabels second.labels →
        first.labels = second.labels :=
  fun first hfirst second hsecond => mapHistogramLabels_inj (hok.keys first hfirst second hsecond)
    (sorted_wireSeries hfirst)

theorem forall₂_readBack (metrics : List MetricFamily) : List.Forall₂ ReadBack metrics
    (metrics.map fun metric => (declaredFamily metric).exported) := by
  induction metrics with
  | nil => exact .nil
  | cons metric rest ih => exact .cons readBack_declared ih

theorem names_of_readBack {metrics : List MetricFamily} {families : List ExpositionFamily}
    (h : List.Forall₂ ReadBack metrics families) :
    families.map ExpositionFamily.name = metrics.map MetricFamily.name := by
  induction h with
  | nil => rfl
  | cons hfirst _ ih => rw [List.map_cons, List.map_cons, hfirst.name, ih]

/-- A faithful text declares no family twice. -/
theorem nodup_of_faithful {text : String} (h : Faithful rt root text) :
    ((exposedFamilies root).map ExpositionFamily.name).Nodup := by
  obtain ⟨families, -, hnodup, declared, hdeclared, hperm⟩ := h.read
  have hnames := (hperm.map ExpositionFamily.name).nodup_iff.mp hnodup
  rw [List.map_append, names_of_readBack hdeclared] at hnames
  rw [exposedFamilies, List.map_append, Rearranged.map_name_declaredFamilies]
  cases hderived : deriveDroppedOwn (declaredFamilies root) with
  | none | some =>
      rw [hderived] at hnames
      exact hnames

/-- **The exposition is faithful, exactly where the snapshot has not declared the derived family.**
-/
theorem faithful_iff (hdisplay : DisplayOk rt) (horder : FiniteOrder rt)
    {families : List ExpositionFamily} (hparse : parseSnapshot rt root = .ok families)
    (hhelp : ∀ metric ∈ root.metrics, ∀ c ∈ metric.help.toList.head?, isBlank c = false) :
    Faithful rt root (renderSnapshot rt families) ↔ ¬ShadowsDerived root := by
  obtain ⟨hok, rfl⟩ := parseSnapshot_ok_iff.mp hparse
  rw [← nodup_exposed_iff hok]
  constructor
  · exact nodup_of_faithful
  · intro hnames
    have hperm : (exposition root).Perm (exposedFamilies root) := List.perm_insertionSort _ _
    have hwritable : ∀ family ∈ exposition root, Writable rt family := fun family hfamily =>
      writable_exposed horder hok hhelp family (hperm.mem_iff.mp hfamily)
    have hnodup : ((exposition root).map ExpositionFamily.name).Nodup :=
      (hperm.map _).nodup_iff.mpr hnames
    have hspaces : NamespacesOk (exposition root) := fun family hfamily htype suffix hsuffix hmem =>
      namespaces_exposed hok family (hperm.mem_iff.mp hfamily) htype suffix hsuffix
        ((hperm.map _).mem_iff.mp hmem)
    refine ⟨⟨_, readExposition_render hdisplay hwritable hnodup, ?_, _,
      forall₂_readBack root.metrics, ?_⟩,
      ⟨_, readText_render hdisplay hwritable hnodup,
        nodup_sampleIds hdisplay horder hwritable hnodup hspaces⟩,
      ⟨shiftKey_injective, fun metric hmetric _ => shift_wireSeries (hok.families metric hmetric)⟩,
      fun other hother => ⟨exposition other,
        parseSnapshot_ok_iff.mpr ⟨hother.accepted hok, rfl⟩, ?_⟩⟩
    · rw [List.map_map]
      exact hnodup
    · have hexported := hperm.map ExpositionFamily.exported
      rw [exposedFamilies, List.map_append, declaredFamilies, List.map_map] at hexported
      cases hderived : deriveDroppedOwn (declaredFamilies root) with
      | none | some =>
          rw [← declaredFamilies, hderived] at hexported
          exact hexported
    · rw [hother.exposition_eq hok hnames]

end Snapshots

/-- A text that declares a family twice in a row is not read. -/
theorem readText_twice {rt : Runtime} (hdisplay : DisplayOk rt) {first second : ExpositionFamily}
    {rest : List ExpositionFamily}
    (h : ∀ family ∈ first :: second :: rest, Writable rt family)
    (hname : first.name = second.name) :
    readText (renderSnapshot rt (first :: second :: rest)).toList = none := by
  have hlines : ∀ line ∈ (first :: second :: rest).flatMap (familyLines rt), '\n' ∉ line := by
    intro line hline
    obtain ⟨family, hfamily, hline⟩ := List.mem_flatMap.mp hline
    exact notMem_familyLines hdisplay (h family hfamily) line hline
  obtain ⟨hfirst, hsecond, -⟩ := List.forall_mem_cons.mp h |>.imp id List.forall_mem_cons.mp
  have hrefused : Exposition.step [textFamily rt first] (helpLine second).toList = none := by
    rw [Exposition.step, readLine_help hsecond.name hsecond.help, Option.bind_eq_bind,
      Option.bind_some, Exposition.addLine, if_pos (show (textFamily rt first).name = second.name
        from hname)]
    rfl
  have hnew : Exposition.New first.name [] := List.not_mem_nil
  rw [toList_renderSnapshot, Exposition.readText_lines hlines, List.flatMap_cons,
    List.foldlM_append, foldlM_familyLines hdisplay hfirst hnew, List.flatMap_cons, familyLines,
      List.cons_append, Option.bind_eq_bind, Option.bind_some, List.foldlM_cons,
    hrefused]
  rfl

/-! ## Examples -/

theorem finite_twoFloats {x : F64} (h : twoFloats.isFinite x = true) : x = .zero ∨ x = .one := by
  simpa [twoFloats] using h

theorem displayOk_twoFloats : DisplayOk twoFloats := by
  refine ⟨fun x h => ?_, fun x h => ?_⟩
  · rcases finite_twoFloats h with rfl | rfl
    · exact ⟨by decide, by decide⟩
    · exact ⟨by decide, by decide⟩
  · rcases finite_twoFloats h with rfl | rfl
    · decide
    · decide

theorem finiteOrder_twoFloats : FiniteOrder twoFloats := by
  refine ⟨fun x _ => if_pos rfl, fun x y hx hy => ?_, fun x y z hx hy hz => ?_⟩
  · rcases finite_twoFloats hx with rfl | rfl <;> rcases finite_twoFloats hy with rfl | rfl <;>
      decide
  · rcases finite_twoFloats hx with rfl | rfl <;> rcases finite_twoFloats hy with rfl | rfl <;>
      rcases finite_twoFloats hz with rfl | rfl <;> decide

/-- Dropped events, and a histogram with a label `le`. -/
def labelledSnapshot : MetricsSnapshot :=
  .new [.counter eventsDroppedTotal "Dropped." [],
    .histogram "waits" "A \"wait\"\n\\" [⟨⟨[("le", "a\"\\\n")], by decide⟩,
      [(.zero, 1), (.one, 2)], .one, 2⟩]]

theorem faithful_labelled : ∃ families, parseSnapshot twoFloats labelledSnapshot = .ok families ∧
    (Faithful twoFloats labelledSnapshot (renderSnapshot twoFloats families) ↔
      ¬ShadowsDerived labelledSnapshot) :=
  ⟨_, rfl, faithful_iff displayOk_twoFloats finiteOrder_twoFloats rfl (by decide)⟩

/-- A family with the derived name is declared next to the dropped events. -/
def shadowingSnapshot : MetricsSnapshot :=
  .new [.counter eventsDroppedTotal "Dropped." [], .counter eventsDroppedOwnTotal "Own." []]

theorem shadowing_unreadable (hdisplay : DisplayOk rt) (horder : FiniteOrder rt) : ∃ families,
    parseSnapshot rt shadowingSnapshot = .ok families ∧
      readExposition rt (renderSnapshot rt families) = none ∧
        ¬Faithful rt shadowingSnapshot (renderSnapshot rt families) := by
  have hparse : parseSnapshot rt shadowingSnapshot = .ok (exposition shadowingSnapshot) := rfl
  have hok := (parseSnapshot_ok_iff.mp hparse).1
  have hexposed : exposedFamilies shadowingSnapshot =
      [⟨eventsDroppedTotal, .counter, "Dropped.", []⟩,
        ⟨eventsDroppedOwnTotal, .counter, "Own.", []⟩,
        ⟨eventsDroppedOwnTotal, .counter, droppedOwnHelp, []⟩] := rfl
  have hexposition : exposition shadowingSnapshot =
      [⟨eventsDroppedOwnTotal, .counter, "Own.", []⟩,
        ⟨eventsDroppedOwnTotal, .counter, droppedOwnHelp, []⟩,
        ⟨eventsDroppedTotal, .counter, "Dropped.", []⟩] := rfl
  have hwritable : ∀ family ∈ exposition shadowingSnapshot, Writable rt family :=
    fun family hfamily => writable_exposed horder hok (by decide) family
      ((List.perm_insertionSort _ _).mem_iff.mp hfamily)
  refine ⟨_, hparse, ?_, fun h => ?_⟩
  · rw [hexposition] at hwritable ⊢
    rw [readExposition, readText_twice hdisplay hwritable rfl]
    rfl
  · have hnodup := nodup_of_faithful h
    rw [hexposed] at hnodup
    exact (List.nodup_cons.mp (List.nodup_cons.mp hnodup).2).1 List.mem_cons_self

theorem not_faithful_shadowing : ∃ families,
    parseSnapshot twoFloats shadowingSnapshot = .ok families ∧
      readExposition twoFloats (renderSnapshot twoFloats families) = none ∧
        ¬Faithful twoFloats shadowingSnapshot (renderSnapshot twoFloats families) :=
  shadowing_unreadable displayOk_twoFloats finiteOrder_twoFloats

end Limpid.Prometheus
