import Limpid.Metrics.Registered
import Limpid.Prometheus.Snapshot

/-!
# The snapshots of a registry are accepted

`parse_snapshot` refuses a snapshot as a whole, so what it checks has to follow from what the
registry has checked.  It does, but for what the registry leaves free (`Exportable`): the names of
labels, the names that a histogram exports, and the sum of a histogram, which is finite unless an
observation was not.  `parseFamilies_snapshot` is the parse of such a snapshot, family by family.
-/

namespace Limpid.Prometheus

open Dsl Metrics RegistryCore

variable {rt : Runtime} {readings : Readings}

/-- What a registry does not check and the exposition needs. -/
structure Exportable (rt : Runtime) (readings : Readings) (registry : Registry) : Prop where
  labels : ∀ family ∈ registry.families, ∀ name ∈ family.labelNames,
    isLegacyLabelName name = true
  suffixes : ∀ family ∈ registry.families, family.metricType = .histogram →
    ∀ suffix ∈ histogramSuffixes,
      family.name ++ suffix ∉ registry.families.map RegistryCore.MetricFamily.name
  sums : ∀ family ∈ registry.families, family.metricType = .histogram →
    ∀ series ∈ family.series,
      rt.isFinite (readings.histogram ⟨family.name, series.labels⟩).sum = true

/-! ## Labels -/

theorem parseLabels_ok {labels : Labels} (h : (Entries.keys labels).Pairwise (· < ·))
    (hlegal : ∀ name ∈ Entries.keys labels, isLegacyLabelName name = true) (name : String) :
    parseLabels rt (labelsMap labels) name = .ok labels := by
  have hfind : labels.find? (fun entry => !isLegacyLabelName entry.1) = none := by
    rw [List.find?_eq_none]
    intro entry hentry
    simp [hlegal entry.1 (List.mem_map_of_mem hentry)]
  unfold parseLabels
  rw [labelsMap_entries h, hfind, (pairwise_labelLe h).insertionSort_eq]

/-- Label sets that are different and have the same names. -/
theorem checkLabelsets_ok (name : String) {names : List String} {labelsets : List Labels}
    {seen : List Labels} {expected : Option (List String)} (hnodup : labelsets.Nodup)
    (hseen : ∀ labels ∈ labelsets, labels ∉ seen)
    (hnames : ∀ labels ∈ labelsets, Entries.keys labels = names)
    (hexpected : ∀ given ∈ expected, given = names) :
    checkLabelsets name seen expected labelsets = .ok () := by
  induction labelsets generalizing seen expected with
  | nil => rfl
  | cons labels rest ih =>
      obtain ⟨hfirst, hrest⟩ := List.nodup_cons.mp hnodup
      obtain ⟨hfirstSeen, hrestSeen⟩ := List.forall_mem_cons.mp hseen
      obtain ⟨hfirstNames, hrestNames⟩ := List.forall_mem_cons.mp hnames
      have hnext : ∀ other ∈ rest, other ∉ labels :: seen := by
        intro other hother hmem
        rcases List.mem_cons.mp hmem with rfl | hmem
        · exact hfirst hother
        · exact hrestSeen other hother hmem
      cases expected with
      | none =>
          rw [checkLabelsets, if_neg hfirstSeen]
          exact ih hrest hnext hrestNames fun given hgiven =>
            (Option.some.inj hgiven).symm.trans hfirstNames
      | some given =>
          have heq := hexpected given rfl
          rw [checkLabelsets, if_neg hfirstSeen, if_neg (not_not.mpr (heq.trans hfirstNames.symm))]
          exact ih hrest hnext hrestNames fun other hother =>
            (Option.some.inj hother).symm.trans heq

/-! ### The labels of histograms -/

theorem inLeChain_append {key : String} (h : inLeChain key = true) :
    inLeChain (key ++ "_") = true := by
  unfold inLeChain at h ⊢
  rw [String.toList_append]
  split at h
  · next suffix hkey =>
    rw [hkey]
    change (suffix ++ ['_']).all (· = '_') = true
    rw [List.all_append, h]
    rfl
  · exact nomatch h

/-- The shift keeps names apart. -/
theorem shiftKey_injective : Function.Injective shiftKey := by
  intro first second h
  unfold shiftKey at h
  split at h
  · next hfirst =>
    split at h
    · exact String.append_left_inj "_" |>.mp h
    · next hsecond => exact absurd (h ▸ inLeChain_append hfirst) hsecond
  · next hfirst =>
    split at h
    · next hsecond => exact absurd (h ▸ inLeChain_append hsecond) hfirst
    · exact h

/-- Labels in order are determined by their entries. -/
theorem eq_of_perm {first second : Labels} (h : first.Perm second)
    (hfirst : (Entries.keys first).Pairwise (· < ·))
    (hsecond : (Entries.keys second).Pairwise (· < ·)) : first = second :=
  h.eq_of_pairwise (fun _ _ _ _ hlt hgt => absurd hlt (lt_asymm hgt)) (List.pairwise_map.mp hfirst)
    (List.pairwise_map.mp hsecond)

theorem mapHistogramLabels_inj {first second : Labels}
    (hkeys : Entries.keys first = Entries.keys second)
    (hfirst : (Entries.keys first).Pairwise (· < ·))
    (h : mapHistogramLabels first = mapHistogramLabels second) : first = second := by
  unfold mapHistogramLabels at h
  rw [← hkeys] at h
  split at h
  · have hinjective : Function.Injective fun entry : String × String =>
        (shiftKey entry.1, entry.2) := fun entry other heq => by
      obtain ⟨hkey, hvalue⟩ := Prod.mk.inj heq
      exact Prod.ext (shiftKey_injective hkey) hvalue
    have hperm := (List.perm_insertionSort LabelLe
      (first.map fun entry => (shiftKey entry.1, entry.2))).symm.trans
        ((List.Perm.of_eq h).trans (List.perm_insertionSort LabelLe _))
    exact eq_of_perm ((List.map_perm_map_iff hinjective).mp hperm) hfirst (hkeys ▸ hfirst)
  · exact h

/-! ## Buckets -/

theorem strictlyIncreasing_zip {boundaries : List F64} (counts : List ℕ)
    (h : strictlyIncreasing rt boundaries = true) :
    strictlyIncreasing rt ((boundaries.zip counts).map Prod.fst) = true := by
  induction boundaries generalizing counts with
  | nil => rfl
  | cons first rest ih =>
      cases rest with
      | nil => cases counts <;> simp [strictlyIncreasing]
      | cons second others =>
          rw [strictlyIncreasing, Bool.and_eq_true_iff] at h
          match counts with
          | [] => rfl
          | [_] => simp [strictlyIncreasing]
          | count :: next :: more =>
              have hrest := ih (next :: more) h.2
              rw [List.zip_cons_cons, List.map_cons] at hrest
              rw [List.zip_cons_cons, List.zip_cons_cons, List.map_cons, List.map_cons,
                strictlyIncreasing, h.1, hrest]
              rfl

/-- Less is not greater or equal. -/
theorem f64Ge_of_lt {first second : F64} (h : f64Lt rt first second = true) :
    f64Ge rt first second = false := by
  have hlt : rt.partialCmp first second = some .lt := of_decide_eq_true h
  simp [f64Ge, hlt]

/-- Cumulative counts do not decrease, whatever the buckets hold. -/
theorem parseBuckets_cumulate (name : String) {pairs : List (F64 × ℕ)} {cumulative : ℕ}
    {previous : Option (F64 × ℕ)} (hfinite : ∀ pair ∈ pairs, rt.isFinite pair.1 = true)
    (hincreasing : strictlyIncreasing rt
      ((previous.map Prod.fst).toList ++ pairs.map Prod.fst) = true)
    (hprevious : ∀ last ∈ previous, last.2 ≤ cumulative) :
    parseBuckets rt name previous (cumulate cumulative pairs) =
      .ok (cumulate cumulative pairs) := by
  induction pairs generalizing cumulative previous with
  | nil => rfl
  | cons pair rest ih =>
      obtain ⟨hfirst, hrest⟩ := List.forall_mem_cons.mp hfinite
      have hbound : previous.any (fun last => f64Ge rt last.1 pair.1) = false := by
        cases previous with
        | none => rfl
        | some last => exact f64Ge_of_lt (Bool.and_eq_true_iff.mp hincreasing).1
      have hcount : previous.any (fun last => last.2 > cumulative + pair.2) = false := by
        cases previous with
        | none => rfl
        | some last =>
            have hle := hprevious last rfl
            simp only [Option.any_some, decide_eq_false_iff_not]
            omega
      have hmore : strictlyIncreasing rt (pair.1 :: rest.map Prod.fst) = true := by
        cases previous with
        | none => exact hincreasing
        | some last => exact (Bool.and_eq_true_iff.mp hincreasing).2
      rw [cumulate, parseBuckets, hfirst, hbound, hcount]
      simp only [Bool.not_true, Bool.false_eq_true, if_false]
      have hlast : ∀ last ∈ some (pair.1, cumulative + pair.2), last.2 ≤ cumulative + pair.2 :=
        fun last hlast => Nat.le_of_eq (congrArg Prod.snd (Option.some.inj hlast).symm)
      rw [@ih (cumulative + pair.2) (some (pair.1, cumulative + pair.2)) hrest hmore hlast]
      rfl

/-! ## Families -/

/-- A loop whose rounds all succeed. -/
theorem mapM_map_ok {α β γ : Type} {raw : α → β} {f : β → Except String γ} {g : α → γ}
    {items : List α} (h : ∀ item ∈ items, f (raw item) = .ok (g item)) :
    (items.map raw).mapM f = .ok (items.map g) := by
  induction items with
  | nil => rfl
  | cons first rest ih =>
      obtain ⟨hfirst, hrest⟩ := List.forall_mem_cons.mp h
      rw [List.map_cons, List.mapM_cons, hfirst, ih hrest]
      rfl

/-- The one item of a list that satisfies a predicate is found. -/
theorem find?_eq_some_of_unique {α : Type} {p : α → Bool} {items : List α} {a : α}
    (ha : a ∈ items) (hp : p a = true) (hunique : ∀ b ∈ items, p b = true → b = a) :
    items.find? p = some a := by
  cases hfind : items.find? p with
  | none => exact absurd hp (by simpa using List.find?_eq_none.mp hfind a ha)
  | some b =>
      rw [hunique b (List.mem_of_find?_eq_some hfind) (List.find?_some hfind)]

/-- The series of the exposition for one of the registry. -/
def expositionSeries (readings : Readings) (family : RegistryCore.MetricFamily)
    (series : Series) : ExpositionSeries :=
  match family.metricType with
  | .counter | .gauge => .value series.labels (readings.value ⟨family.name, series.labels⟩)
  | .histogram =>
      let reading := readings.histogram ⟨family.name, series.labels⟩
      .histogram series.labels (cumulate 0 (series.boundaries.zip reading.bucketCounts))
        reading.sum reading.count

theorem expositionSeries_labels (family : RegistryCore.MetricFamily) (series : Series) :
    (expositionSeries readings family series).labels = series.labels := by
  unfold expositionSeries
  cases family.metricType <;> rfl

/-- A family of the exposition holds what one of the registry does. -/
structure Parsed (readings : Readings) (family : RegistryCore.MetricFamily)
    (parsed : ExpositionFamily) : Prop where
  name : parsed.name = family.name
  metricType : parsed.metricType = .fromWire family.metricType
  help : parsed.help = family.help
  series : parsed.series.Perm (family.series.map (expositionSeries readings family))

@[simp] theorem snapshotFamily_name (family : RegistryCore.MetricFamily) :
    (snapshotFamily readings family).name = family.name := by
  unfold snapshotFamily
  cases family.metricType <;> rfl

@[simp] theorem snapshotFamily_metricType (family : RegistryCore.MetricFamily) :
    (snapshotFamily readings family).metricType = family.metricType := by
  unfold snapshotFamily
  cases h : family.metricType <;> rfl

@[simp] theorem snapshotFamily_help (family : RegistryCore.MetricFamily) :
    (snapshotFamily readings family).help = family.help := by
  unfold snapshotFamily
  cases family.metricType <;> rfl

section Families

variable {family : RegistryCore.MetricFamily}

theorem parseSeries_ok (hok : FamilyOk rt family)
    (hlegal : ∀ name ∈ family.labelNames, isLegacyLabelName name = true)
    (hsums : family.metricType = .histogram → ∀ series ∈ family.series,
      rt.isFinite (readings.histogram ⟨family.name, series.labels⟩).sum = true) :
    parseSeries rt family.name (snapshotFamily readings family) =
      .ok (family.series.map (expositionSeries readings family)) := by
  have hlabels : ∀ series ∈ family.series,
      parseLabels rt (labelsMap series.labels) family.name = .ok series.labels := by
    intro series hseries
    have hkeys := hok.labels series hseries
    exact parseLabels_ok (hkeys ▸ hok.labelNames) (hkeys ▸ hlegal) family.name
  unfold snapshotFamily expositionSeries
  cases htype : family.metricType with
  | counter | gauge =>
      refine mapM_map_ok fun series hseries => ?_
      rw [parseValueSeries, hlabels series hseries]
      rfl
  | histogram =>
      refine mapM_map_ok fun series hseries => ?_
      obtain ⟨hfinite, hincreasing⟩ := hok.boundaries series hseries
      have hbuckets := @parseBuckets_cumulate rt family.name
        (series.boundaries.zip (readings.histogram ⟨family.name, series.labels⟩).bucketCounts) 0
        none (fun pair hpair => List.all_eq_true.mp hfinite _ (List.of_mem_zip hpair).1)
        (strictlyIncreasing_zip _ hincreasing) (fun _ h => nomatch h)
      rw [parseHistogramSeries, hlabels series hseries]
      change (parseBuckets rt family.name none (cumulate 0 _) >>= _) = _
      rw [hbuckets]
      exact if_pos (hsums htype series hseries)

/-- A family of a registry is accepted. -/
theorem parseFamily_ok {names : List String} (hok : FamilyOk rt family)
    (hlegal : ∀ name ∈ family.labelNames, isLegacyLabelName name = true)
    (hsums : family.metricType = .histogram → ∀ series ∈ family.series,
      rt.isFinite (readings.histogram ⟨family.name, series.labels⟩).sum = true)
    (hnew : family.name ∉ names) :
    ∃ parsed, parseFamily rt names (snapshotFamily readings family) = .ok parsed ∧
      Parsed readings family parsed := by
  have hlabels : (family.series.map (expositionSeries readings family)).map
      ExpositionSeries.labels = family.series.map Series.labels := by
    rw [List.map_map]
    exact List.map_congr_left fun series _ => expositionSeries_labels family series
  have hsets := @checkLabelsets_ok family.name family.labelNames (family.series.map Series.labels)
    [] none hok.distinct (fun _ _ => List.not_mem_nil)
    (List.forall_mem_map.mpr hok.labels) (fun _ h => nomatch h)
  have hexported : validateExportedLabelsets
      (family.series.map (expositionSeries readings family)) (.fromWire family.metricType)
        family.name = .ok () := by
    -- sorting and checking do not change the label sets
    have hmap : (family.series.map (expositionSeries readings family)).map
        (fun series => exportedLabels (.fromWire family.metricType) series.labels) =
          (family.series.map Series.labels).map (exportedLabels (.fromWire family.metricType)) := by
      rw [← hlabels, List.map_map, List.map_map, List.map_map]
      rfl
    have hsorted : ∀ labels ∈ family.series.map Series.labels,
        Entries.keys labels = family.labelNames := List.forall_mem_map.mpr hok.labels
    unfold validateExportedLabelsets
    rw [hmap]
    refine if_pos (hok.distinct.map_on fun first hfirst second hsecond heq => ?_)
    cases htype : family.metricType with
    | counter | gauge =>
        rw [htype] at heq
        exact heq
    | histogram =>
        rw [htype] at heq
        have hfirst := hsorted first hfirst
        exact mapHistogramLabels_inj (hfirst.trans (hsorted second hsecond).symm)
          (hfirst ▸ hok.labelNames) heq
  refine ⟨⟨family.name, .fromWire family.metricType, family.help,
    sortSeries (family.series.map (expositionSeries readings family))⟩, ?_, rfl, rfl, rfl,
      List.perm_insertionSort _ _⟩
  -- the remaining checks are about the name and the help text
  have hvalid : isLegacyMetricName family.name = true := hok.name
  have hempty : family.name.isEmpty = false := by
    cases h : family.name.isEmpty with
    | false => rfl
    | true =>
        rw [String.isEmpty_iff.mp h] at hvalid
        exact nomatch hvalid
  have hhelpEmpty : family.help.isEmpty = false := by
    simpa using hok.help
  unfold parseFamily
  simp only [snapshotFamily_name, snapshotFamily_metricType, snapshotFamily_help, hempty, hvalid,
    hnew, hhelpEmpty, Bool.not_true,
    Bool.false_eq_true, if_false]
  rw [parseSeries_ok hok hlegal hsums]
  change (checkLabelsets family.name [] none _ >>= _) = _
  rw [hlabels, hsets]
  change (validateExportedLabelsets _ _ family.name >>= _) = _
  rw [hexported]
  rfl

theorem parseFamilies_ok {families : List RegistryCore.MetricFamily} {names : List String}
    (hnames : (families.map RegistryCore.MetricFamily.name).Nodup)
    (hnew : ∀ family ∈ families, family.name ∉ names)
    (hok : ∀ family ∈ families, FamilyOk rt family)
    (hlegal : ∀ family ∈ families, ∀ name ∈ family.labelNames, isLegacyLabelName name = true)
    (hsums : ∀ family ∈ families, family.metricType = .histogram → ∀ series ∈ family.series,
      rt.isFinite (readings.histogram ⟨family.name, series.labels⟩).sum = true) :
    ∃ parsed, parseFamilies rt names (families.map (snapshotFamily readings)) = .ok parsed ∧
      List.Forall₂ (Parsed readings) families parsed := by
  induction families generalizing names with
  | nil => exact ⟨[], rfl, .nil⟩
  | cons family rest ih =>
      obtain ⟨hname, hrestNames⟩ := List.nodup_cons.mp hnames
      rw [List.forall_mem_cons] at hnew hok hlegal hsums
      obtain ⟨first, hfirst, hparsed⟩ := parseFamily_ok hok.1 hlegal.1 hsums.1 hnew.1
      obtain ⟨others, hothers, hall⟩ := @ih (first.name :: names) hrestNames
        (fun other hother hmem => by
          rcases List.mem_cons.mp hmem with heq | hmem
          · exact hname (heq.trans hparsed.name ▸ List.mem_map_of_mem hother)
          · exact hnew.2 other hother hmem) hok.2 hlegal.2 hsums.2
      refine ⟨first :: others, ?_, .cons hparsed hall⟩
      rw [List.map_cons, parseFamilies, hfirst]
      change (parseFamilies rt (first.name :: names) _ >>= _) = _
      rw [hothers]
      rfl

end Families

theorem exists_source {families : List RegistryCore.MetricFamily}
    {parsed : List ExpositionFamily} (hall : List.Forall₂ (Parsed readings) families parsed)
    {family : ExpositionFamily} (hfamily : family ∈ parsed) :
    ∃ source ∈ families, Parsed readings source family := by
  induction hall with
  | nil => exact absurd hfamily List.not_mem_nil
  | cons hfirst _ ih =>
      rcases List.mem_cons.mp hfamily with rfl | hrest
      · exact ⟨_, List.mem_cons_self, hfirst⟩
      · obtain ⟨source, hsource, hsame⟩ := ih hrest
        exact ⟨source, List.mem_cons_of_mem _ hsource, hsame⟩

theorem exists_parsed {families : List RegistryCore.MetricFamily}
    {parsed : List ExpositionFamily} (hall : List.Forall₂ (Parsed readings) families parsed)
    {family : RegistryCore.MetricFamily} (hfamily : family ∈ families) :
    ∃ other ∈ parsed, Parsed readings family other := by
  induction hall with
  | nil => exact absurd hfamily List.not_mem_nil
  | cons hfirst _ ih =>
      rcases List.mem_cons.mp hfamily with rfl | hrest
      · exact ⟨_, List.mem_cons_self, hfirst⟩
      · obtain ⟨other, hother, hsame⟩ := ih hrest
        exact ⟨other, List.mem_cons_of_mem _ hother, hsame⟩

theorem parsed_names {families : List RegistryCore.MetricFamily}
    {parsed : List ExpositionFamily} (hall : List.Forall₂ (Parsed readings) families parsed) :
    parsed.map ExpositionFamily.name = families.map RegistryCore.MetricFamily.name := by
  induction hall with
  | nil => rfl
  | cons hfirst _ ih => rw [List.map_cons, List.map_cons, hfirst.name, ih]

/-- **The snapshots of a registry are accepted.** -/
theorem parseSnapshot_snapshot {registry : Registry} (hok : registry.Ok rt)
    (hexport : Exportable rt readings registry) :
    ∃ parsed, List.Forall₂ (Parsed readings) registry.families parsed ∧
      parseSnapshot rt (registry.snapshot readings) =
        .ok ((parsed ++ (deriveDroppedOwn parsed).toList).insertionSort (·.name ≤ ·.name)) := by
  obtain ⟨parsed, hparsed, hall⟩ := parseFamilies_ok hok.names (fun _ _ => List.not_mem_nil)
    hok.families hexport.labels hexport.sums
  refine ⟨parsed, hall, ?_⟩
  have hnames : (registry.families.map (snapshotFamily readings)).map Metrics.MetricFamily.name =
      registry.families.map RegistryCore.MetricFamily.name := by
    rw [List.map_map]
    exact List.map_congr_left fun family _ => snapshotFamily_name family
  have hclash : namespaceClash (registry.families.map RegistryCore.MetricFamily.name) parsed =
      none := by
    refine List.findSome?_eq_none_iff.mpr fun family hfamily => ?_
    obtain ⟨source, hsource, hsame⟩ := exists_source hall hfamily
    split
    · next htype =>
      have hhistogram : source.metricType = .histogram := by
        rw [hsame.metricType] at htype
        cases hsourceType : source.metricType with
        | histogram => rfl
        | counter | gauge =>
            rw [hsourceType] at htype
            exact nomatch htype
      refine List.findSome?_eq_none_iff.mpr fun suffix hsuffix => if_neg ?_
      rw [hsame.name]
      exact hexport.suffixes source hsource hhistogram suffix hsuffix
    · rfl
  unfold parseSnapshot Registry.snapshot MetricsSnapshot.new
  rw [if_neg (not_not.mpr rfl)]
  change (parseFamilies rt [] (registry.families.map (snapshotFamily readings)) >>= _) = _
  rw [hparsed]
  change (validateHistogramNamespaces parsed
    ((registry.families.map (snapshotFamily readings)).map Metrics.MetricFamily.name) >>= _) = _
  rw [hnames, validateHistogramNamespaces, hclash]
  rfl

end Limpid.Prometheus
