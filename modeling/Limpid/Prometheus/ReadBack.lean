import Limpid.Decimal
import Limpid.Prometheus.Accepted
import Limpid.Prometheus.Render

/-!
# Reading the exposition back

The reader of the exposition format gives the samples of a family.  From these come the family's
series: a sample each for a counter or a gauge, and for a histogram the samples that have the same
labels, the bound of the bucket left aside.

What `render_snapshot` writes for families that can be written (`Writable`) is read back as these
families, the labels of histograms as they are exported (`readExposition_render`).
-/

namespace Limpid.Prometheus

open Decimal Dsl Metrics
open Exposition (Sample Kind readLine readText isBlank isNameChar)

/-! ## The series of a family -/

section Read

variable (rt : Runtime)

/-- A sample of a counter or a gauge. -/
def readValue (sample : Sample) : Option ExpositionSeries :=
  (parseUnsigned sample.value.toList).map (.value sample.labels ·)

/-- The labels of a histogram's series, as one of its samples has them. -/
def seriesKey (name : String) (sample : Sample) : Labels :=
  if sample.name = name ++ "_bucket" then sample.labels.filter (·.1 ≠ "le") else sample.labels

/-- The bound and the count of a bucket. -/
def readBucket (sample : Sample) : Option (String × ℕ) := do
  let bound ← sample.labels.lookup "le"
  let count ← parseUnsigned sample.value.toList
  some (bound, count)

/-- The bound of a bucket as a number. -/
def readBound (bucket : String × ℕ) : Option (F64 × ℕ) := (rt.parse bucket.1).map (·, bucket.2)

/-- The series of a histogram with some labels.  The last bucket is that of everything, and has the
count of the series. -/
def readHistogram (name : String) (samples : List Sample) (labels : Labels) :
    Option ExpositionSeries := do
  let own := samples.filter fun sample => seriesKey name sample = labels
  let buckets ← (own.filter fun sample => sample.name = name ++ "_bucket").mapM readBucket
  let sum ← own.find? fun sample => sample.name = name ++ "_sum"
  let sum ← rt.parse sum.value
  let count ← own.find? fun sample => sample.name = name ++ "_count"
  let count ← parseUnsigned count.value.toList
  if buckets.getLast? ≠ some ("+Inf", count) then none
  else do
    let buckets ← buckets.dropLast.mapM (readBound rt)
    some (.histogram labels buckets sum count)

/-- The series that the samples of a family tell. -/
def readSeries (name : String) (samples : List Sample) :
    ExpositionType → Option (List ExpositionSeries)
  | .counter | .gauge => samples.mapM readValue
  | .histogram => (samples.map (seriesKey name)).eraseDups.mapM (readHistogram rt name samples)

/-- The type that a declaration names. -/
def readType : Kind → Option ExpositionType
  | .counter => some .counter
  | .gauge => some .gauge
  | .histogram => some .histogram
  | .summary | .untyped => none

/-- A family as its lines tell it. -/
def readFamily (family : Exposition.Family) : Option ExpositionFamily := do
  let help ← family.help
  let kind ← family.kind
  let metricType ← readType kind
  let series ← readSeries rt family.name family.samples metricType
  some ⟨family.name, metricType, help, series⟩

/-- **Read an exposition.** -/
def readExposition (text : String) : Option (List ExpositionFamily) := do
  let families ← readText text.toList
  families.mapM (readFamily rt)

end Read

/-- A series with the labels that it is exported with. -/
def ExpositionSeries.exported : ExpositionSeries → ExpositionSeries
  | .value labels count => .value labels count
  | .histogram labels buckets sum count => .histogram (mapHistogramLabels labels) buckets sum count

/-- A family with its labels as they are written. -/
def ExpositionFamily.exported (family : ExpositionFamily) : ExpositionFamily :=
  { family with series := family.series.map ExpositionSeries.exported }

/-! ## What can be written -/

/-- A series can be written in a family of a type. -/
structure SeriesOk (rt : Runtime) (metricType : ExpositionType) (series : ExpositionSeries) :
    Prop where
  legal : ∀ label ∈ series.labels, isLegacyLabelName label.1 = true
  sorted : (Entries.keys series.labels).Pairwise (· < ·)
  value : metricType ≠ .histogram → ∃ labels value, series = .value labels value
  histogram : metricType = .histogram → ∃ labels buckets sum count,
    series = .histogram labels buckets sum count ∧ rt.isFinite sum = true ∧
      (∀ bucket ∈ buckets, rt.isFinite bucket.1 = true) ∧
      (buckets.map Prod.fst).Pairwise fun first second => f64Ge rt first second = false

/-- A family can be written. -/
structure Writable (rt : Runtime) (family : ExpositionFamily) : Prop where
  name : isLegacyMetricName family.name = true
  help : ∀ c ∈ family.help.toList.head?, isBlank c = false
  series : ∀ series ∈ family.series, SeriesOk rt family.metricType series
  distinct : (family.series.map fun series => exportedLabels family.metricType series.labels).Nodup

/-- `Display` of finite floats: digits, a sign and a point, which parse back. -/
structure DisplayOk (rt : Runtime) : Prop where
  text : ∀ x, rt.isFinite x = true → ValueText (rt.display x)
  parse : ∀ x, rt.isFinite x = true → rt.parse (rt.display x) = some x

/-! ## The labels of histograms -/

section Labels

variable {labels : Labels}

/-- Sorted labels with different names are in the order of the names. -/
theorem keys_pairwise_sort (h : (Entries.keys labels).Nodup) :
    (Entries.keys (labels.insertionSort LabelLe)).Pairwise (· < ·) := by
  have hperm := List.perm_insertionSort LabelLe labels
  have hnodup : (Entries.keys (labels.insertionSort LabelLe)).Nodup :=
    (hperm.map Prod.fst).nodup_iff.mpr h
  refine List.pairwise_map.mpr (((List.pairwise_insertionSort LabelLe labels).and
    (List.pairwise_map.mp hnodup)).imp fun {first second} hpair => ?_)
  exact (Prod.lex_def.mp hpair.1).resolve_right fun heq => hpair.2 heq.1

theorem shiftKey_ne_le (key : String) (h : inLeChain key = true ∨ key ≠ "le") :
    shiftKey key ≠ "le" := by
  unfold shiftKey
  split
  · intro heq
    have hlength := congrArg (fun text : String => text.toList) heq
    rw [String.toList_append] at hlength
    have hlast := congrArg List.getLast? hlength
    rw [show "_".toList = ['_'] from rfl, List.getLast?_concat] at hlast
    exact absurd (Option.some.inj hlast) (by decide)
  · next hchain => exact h.resolve_left fun htrue => hchain htrue

theorem isLegacyLabelName_shiftKey {key : String} (h : isLegacyLabelName key = true) :
    isLegacyLabelName (shiftKey key) = true := by
  unfold shiftKey
  split
  · next hchain =>
    unfold inLeChain at hchain
    split at hchain
    · next suffix hlist =>
      have htext : (key ++ "_").toList = 'l' :: 'e' :: (suffix ++ ['_']) := by
        rw [String.toList_append, hlist]
        rfl
      have hall : ∀ c ∈ suffix, c = '_' := fun c hc => of_decide_eq_true
        (List.all_eq_true.mp hchain c hc)
      unfold isLegacyLabelName
      rw [htext]
      have hsuffix : (suffix ++ ['_']).all (fun c => c.isAlphanum || decide (c = '_')) = true := by
        refine List.all_eq_true.mpr fun c hc => ?_
        rcases List.mem_append.mp hc with hmem | hmem
        · simp [hall c hmem]
        · simp [List.mem_singleton.mp hmem]
      have hfirst : ('l'.isAlpha || decide ('l' = '_')) = true := by decide
      have hsecond : ('e'.isAlphanum || decide ('e' = '_')) = true := by decide
      change (('l'.isAlpha || decide ('l' = '_')) && (('e'.isAlphanum || decide ('e' = '_')) &&
        (suffix ++ ['_']).all fun c => c.isAlphanum || decide (c = '_'))) = true
      rw [hfirst, hsecond, hsuffix]
      rfl
    · exact nomatch hchain
  · exact h

/-- The labels that a histogram is exported with have no bound, and are as they are to be. -/
theorem mapHistogramLabels_ok (hlegal : ∀ label ∈ labels, isLegacyLabelName label.1 = true)
    (hsorted : (Entries.keys labels).Pairwise (· < ·)) :
    (∀ label ∈ mapHistogramLabels labels, isLegacyLabelName label.1 = true) ∧
      (Entries.keys (mapHistogramLabels labels)).Pairwise (· < ·) ∧
        "le" ∉ Entries.keys (mapHistogramLabels labels) := by
  unfold mapHistogramLabels
  split
  · have hperm := List.perm_insertionSort LabelLe
      (labels.map fun entry => (shiftKey entry.1, entry.2))
    refine ⟨fun label hlabel => ?_, ?_, fun hle => ?_⟩
    · obtain ⟨entry, hentry, rfl⟩ := List.mem_map.mp (hperm.mem_iff.mp hlabel)
      exact isLegacyLabelName_shiftKey (hlegal entry hentry)
    · refine keys_pairwise_sort ?_
      have hkeys : Entries.keys (labels.map fun entry => (shiftKey entry.1, entry.2)) =
          (Entries.keys labels).map shiftKey := by
        simp [Entries.keys, Function.comp_def]
      have hnodup : (Entries.keys labels).Nodup := hsorted.imp ne_of_lt
      rw [hkeys]
      exact hnodup.map shiftKey_injective
    · obtain ⟨label, hlabel, heq⟩ := List.mem_map.mp hle
      obtain ⟨entry, hentry, rfl⟩ := List.mem_map.mp (hperm.mem_iff.mp hlabel)
      refine shiftKey_ne_le entry.1 ?_ heq
      by_cases hkey : entry.1 = "le"
      · rw [hkey]
        exact .inl rfl
      · exact .inr hkey
  · next hnone => exact ⟨hlegal, hsorted, hnone⟩

/-- The labels of a bucket. -/
structure BucketLabels (labels : Labels) (bound : String) (bucket : Labels) : Prop where
  legal : ∀ label ∈ bucket, isLegacyLabelName label.1 = true
  sorted : (Entries.keys bucket).Pairwise (· < ·)
  bound : bucket.lookup "le" = some bound
  others : bucket.filter (·.1 ≠ "le") = labels

theorem bucketLabels (hlegal : ∀ label ∈ labels, isLegacyLabelName label.1 = true)
    (hsorted : (Entries.keys labels).Pairwise (· < ·)) (hle : "le" ∉ Entries.keys labels)
    (bound : String) : BucketLabels labels bound (withBucketBound labels bound) := by
  have hperm : (withBucketBound labels bound).Perm (labels ++ [("le", bound)]) :=
    List.perm_insertionSort LabelLe _
  have hkeys : (Entries.keys (labels ++ [("le", bound)])).Nodup := by
    rw [Entries.keys_append]
    refine List.nodup_append.mpr ⟨hsorted.imp ne_of_lt, List.nodup_singleton _,
      fun key hkey other hother heq => hle ?_⟩
    have hsame : key = "le" := heq.trans (List.mem_singleton.mp hother)
    rwa [hsame] at hkey
  have hpairwise : (Entries.keys (withBucketBound labels bound)).Pairwise (· < ·) :=
    keys_pairwise_sort hkeys
  refine ⟨fun label hlabel => ?_, hpairwise, ?_, ?_⟩
  · rcases List.mem_append.mp (hperm.mem_iff.mp hlabel) with hmem | hmem
    · exact hlegal label hmem
    · rw [List.mem_singleton.mp hmem]
      change isLegacyLabelName "le" = true
      decide
  · have hmem : ("le", bound) ∈ withBucketBound labels bound :=
      hperm.mem_iff.mpr (List.mem_append_right _ (List.mem_singleton_self _))
    cases hlookup : (withBucketBound labels bound).lookup "le" with
    | none =>
        exact absurd (List.mem_map_of_mem hmem) (Entries.lookup_eq_none_iff.mp hlookup)
    | some other =>
        obtain ⟨before, after, heq, -⟩ := List.lookup_eq_some_iff.mp hlookup
        have hother : ("le", other) ∈ withBucketBound labels bound :=
          heq ▸ List.mem_append_right _ List.mem_cons_self
        rw [Entries.eq_of_mem (hpairwise.imp ne_of_lt) hother hmem]
  · have hfilter : (labels ++ [("le", bound)]).filter (·.1 ≠ "le") = labels := by
      rw [List.filter_append, List.filter_eq_self.mpr fun label hlabel => ?_]
      · simp
      · exact decide_eq_true fun heq => hle (heq ▸ List.mem_map_of_mem hlabel)
    have hothers := hperm.filter (·.1 ≠ "le")
    rw [hfilter] at hothers
    refine eq_of_perm hothers ?_ hsorted
    exact hpairwise.sublist (List.filter_sublist.map Prod.fst)

end Labels

/-! ## The samples of a series -/

theorem isLegacyMetricName_append {name : String} (h : isLegacyMetricName name = true)
    {suffix : String} (hsuffix : suffix.toList.all isNameChar = true) :
    isLegacyMetricName (name ++ suffix) = true := by
  obtain ⟨c, rest, hlist, hstart, hrest⟩ := exists_of_metricName h
  have htext : (name ++ suffix).toList = c :: (rest ++ suffix.toList) := by
    rw [String.toList_append, hlist, List.cons_append]
  rw [isLegacyMetricName, htext]
  refine Bool.and_eq_true_iff.mpr ⟨hstart, List.all_eq_true.mpr fun c hc => ?_⟩
  rcases List.mem_append.mp hc with hmem | hmem
  · exact hrest c hmem
  · exact List.all_eq_true.mp hsuffix c hmem

theorem valueText_toString (n : ℕ) : ValueText (toString n) := by
  have htext : (toString n).toList = formatNat n := Nat.toList_repr
  refine ⟨fun hempty => formatNat_ne_nil n ?_, fun c hc => .inl ?_⟩
  · rw [← htext, hempty]
    rfl
  · exact isDigit_of_mem_formatNat (htext ▸ hc)

theorem parseUnsigned_toString (n : ℕ) : parseUnsigned (toString n).toList = some n := by
  have htext : (toString n).toList = formatNat n := Nat.toList_repr
  rw [htext, parseUnsigned_formatNat]

/-- The names of a histogram's samples are told apart. -/
theorem suffix_ne (name : String) : name ++ "_sum" ≠ name ++ "_bucket" ∧
    name ++ "_count" ≠ name ++ "_bucket" := by
  simp only [ne_eq, String.append_right_inj]
  decide

section Samples

variable {rt : Runtime} {name : String} {metricType : ExpositionType}
  {series : ExpositionSeries}

/-- The labels of a series, as its samples are found by them. -/
def exportedKey (metricType : ExpositionType) (series : ExpositionSeries) : Labels :=
  exportedLabels metricType series.labels

/-- What a sample of a series is like. -/
structure SampleOf (name : String) (metricType : ExpositionType) (labels : Labels)
    (sample : Sample) : Prop where
  ok : SampleOk sample
  named : sample.name = name ∨ metricType = .histogram ∧
    ∃ suffix ∈ histogramSuffixes, sample.name = name ++ suffix
  key : seriesKey name sample = labels

theorem seriesSamples_ok (hdisplay : DisplayOk rt) (hname : isLegacyMetricName name = true)
    (h : SeriesOk rt metricType series) : ∀ sample ∈ seriesSamples rt name series,
      SampleOf name metricType (exportedKey metricType series) sample := by
  by_cases htype : metricType = .histogram
  · obtain ⟨labels, buckets, sum, count, rfl, hsum, hfinite, -⟩ := h.histogram htype
    obtain ⟨hlegal, hsorted, hle⟩ := mapHistogramLabels_ok h.legal h.sorted
    obtain ⟨hsumBucket, hcountBucket⟩ := suffix_ne name
    have hkey : exportedKey metricType (.histogram labels buckets sum count) =
        mapHistogramLabels labels := by
      rw [htype]
      rfl
    have hbucket : ∀ bound : String, ∀ n : ℕ, SampleOf name metricType (mapHistogramLabels labels)
        ⟨name ++ "_bucket", withBucketBound (mapHistogramLabels labels) bound, toString n⟩ := by
      intro bound n
      have hbound := bucketLabels hlegal hsorted hle bound
      refine ⟨⟨isLegacyMetricName_append hname (by decide), hbound.legal, hbound.sorted,
        valueText_toString n⟩, .inr ⟨htype, "_bucket", by decide, rfl⟩, ?_⟩
      exact (if_pos rfl).trans hbound.others
    rw [hkey]
    intro sample hsample
    rcases List.mem_append.mp hsample with hmem | hmem
    · obtain ⟨bucket, -, rfl⟩ := List.mem_map.mp hmem
      exact hbucket _ _
    · simp only [List.mem_cons, List.not_mem_nil, or_false] at hmem
      rcases hmem with rfl | rfl | rfl
      · exact hbucket _ _
      · refine ⟨⟨isLegacyMetricName_append hname (by decide), hlegal, hsorted,
          hdisplay.text sum hsum⟩, .inr ⟨htype, "_sum", by decide, rfl⟩, if_neg hsumBucket⟩
      · refine ⟨⟨isLegacyMetricName_append hname (by decide), hlegal, hsorted,
          valueText_toString count⟩, .inr ⟨htype, "_count", by decide, rfl⟩, if_neg hcountBucket⟩
  · obtain ⟨labels, value, rfl⟩ := h.value htype
    have hkey : exportedKey metricType (.value labels value) = labels := by
      cases metricType with
      | histogram => exact absurd rfl htype
      | counter | gauge => rfl
    have hne : name ≠ name ++ "_bucket" := fun heq => by
      have hlength := congrArg String.length heq
      rw [String.length_append] at hlength
      exact absurd hlength (by change _ ≠ _ + 7; omega)
    intro sample hsample
    rw [hkey, List.mem_singleton.mp hsample]
    exact ⟨⟨hname, h.legal, h.sorted, valueText_toString value⟩, .inl rfl, if_neg hne⟩

theorem mapM_eq_some_map {α β : Type} {f : α → Option β} {g : α → β} {items : List α}
    (h : ∀ item ∈ items, f item = some (g item)) : items.mapM f = some (items.map g) := by
  induction items with
  | nil => rfl
  | cons item rest ih =>
      obtain ⟨hitem, hrest⟩ := List.forall_mem_cons.mp h
      rw [List.mapM_cons, hitem, ih hrest]
      rfl

/-- The samples of a histogram's series are read as the series. -/
theorem readHistogram_block (hdisplay : DisplayOk rt) {labels : Labels}
    {buckets : List (F64 × ℕ)} {sum : F64} {count : ℕ}
    (h : SeriesOk rt .histogram (.histogram labels buckets sum count)) {samples : List Sample}
    (hown : samples.filter (fun sample => seriesKey name sample = mapHistogramLabels labels) =
      seriesSamples rt name (.histogram labels buckets sum count)) :
    readHistogram rt name samples (mapHistogramLabels labels) =
      some (.histogram (mapHistogramLabels labels) buckets sum count) := by
  obtain ⟨labels, buckets, sum, count, heq, hsum, hfinite, -⟩ := h.histogram rfl
  obtain ⟨rfl, rfl, rfl, rfl⟩ := ExpositionSeries.histogram.inj heq
  obtain ⟨hlegal, hsorted, hle⟩ := mapHistogramLabels_ok h.legal h.sorted
  obtain ⟨hsumBucket, hcountBucket⟩ := suffix_ne name
  have hlookup : ∀ bound, (withBucketBound (mapHistogramLabels labels) bound).lookup "le" =
      some bound := fun bound => (bucketLabels hlegal hsorted hle bound).bound
  -- the samples of the buckets, that of everything with the others
  let bucketSample : String × ℕ → Sample := fun bucket =>
    ⟨name ++ "_bucket", withBucketBound (mapHistogramLabels labels) bucket.1, toString bucket.2⟩
  let sumSample : Sample := ⟨name ++ "_sum", mapHistogramLabels labels, rt.display sum⟩
  let countSample : Sample := ⟨name ++ "_count", mapHistogramLabels labels, toString count⟩
  obtain ⟨entries, hentries⟩ : ∃ entries : List (String × ℕ), entries =
      buckets.map (fun bucket => (rt.display bucket.1, bucket.2)) ++ [("+Inf", count)] := ⟨_, rfl⟩
  have hsamples : seriesSamples rt name (.histogram labels buckets sum count) =
      entries.map bucketSample ++ [sumSample, countSample] := by
    simp [seriesSamples, bucketSample, sumSample, countSample, hentries]
  have hbuckets : (entries.map bucketSample ++ [sumSample, countSample]).filter
      (fun sample => sample.name = name ++ "_bucket") = entries.map bucketSample := by
    rw [List.filter_append, List.filter_eq_self.mpr fun sample hsample => ?_]
    · simp [sumSample, countSample, hsumBucket, hcountBucket]
    · obtain ⟨_, -, rfl⟩ := List.mem_map.mp hsample
      exact decide_eq_true rfl
  have hread : (entries.map bucketSample).mapM readBucket = some entries := by
    rw [List.mapM_map]
    refine (mapM_eq_some_map (g := id) fun bucket _ => ?_).trans (by rw [List.map_id])
    change readBucket (bucketSample bucket) = _
    rw [readBucket, hlookup, parseUnsigned_toString]
    rfl
  have hnone : ∀ suffix : String, name ++ suffix ≠ name ++ "_bucket" →
      (entries.map bucketSample).find? (fun sample => sample.name = name ++ suffix) = none := by
    intro suffix hne
    refine List.find?_eq_none.mpr fun sample hsample => ?_
    obtain ⟨_, -, rfl⟩ := List.mem_map.mp hsample
    simpa [bucketSample] using fun heq => hne (congrArg (name ++ ·) heq.symm)
  have hsumFound : (entries.map bucketSample ++ [sumSample, countSample]).find?
      (fun sample => sample.name = name ++ "_sum") = some sumSample := by
    rw [List.find?_append, hnone _ hsumBucket, Option.none_or]
    exact List.find?_cons_of_pos (by simp [sumSample])
  have hcountFound : (entries.map bucketSample ++ [sumSample, countSample]).find?
      (fun sample => sample.name = name ++ "_count") = some countSample := by
    rw [List.find?_append, hnone _ hcountBucket, Option.none_or,
      List.find?_cons_of_neg (by simp [sumSample])]
    exact List.find?_cons_of_pos (by simp [countSample])
  have hlast : entries.getLast? = some ("+Inf", count) := by
    rw [hentries, List.getLast?_concat]
  have hbounds : entries.dropLast.mapM (readBound rt) = some buckets := by
    rw [hentries, List.dropLast_concat, List.mapM_map]
    refine (mapM_eq_some_map (g := id) fun bucket hbucket => ?_).trans (by rw [List.map_id])
    change (rt.parse (rt.display bucket.1)).map (·, bucket.2) = _
    rw [hdisplay.parse _ (hfinite bucket hbucket)]
    rfl
  have hsumRead : rt.parse sumSample.value = some sum := hdisplay.parse sum hsum
  have hcountRead : parseUnsigned countSample.value.toList = some count :=
    parseUnsigned_toString count
  rw [readHistogram, hown, hsamples]
  simp only [Option.bind_eq_bind, Option.bind_some, hbuckets, hread, hsumFound, hcountFound,
    hsumRead, hcountRead, hlast, ne_eq, not_true_eq_false, if_false, hbounds]

end Samples

/-! ## Blocks of samples -/

section Blocks

variable {α β κ : Type} {block : α → List β} {key : β → κ} {keyOf : α → κ} {items : List α}

/-- The members of one block are found by their key. -/
theorem filter_blocks [DecidableEq κ] (hnodup : (items.map keyOf).Nodup)
    (hkey : ∀ a ∈ items, ∀ b ∈ block a, key b = keyOf a) {a : α} (ha : a ∈ items) :
    (items.flatMap block).filter (fun b => key b = keyOf a) = block a := by
  induction items with
  | nil => exact absurd ha List.not_mem_nil
  | cons first rest ih =>
      obtain ⟨hnew, hrest⟩ := List.nodup_cons.mp hnodup
      obtain ⟨hfirst, hothers⟩ := List.forall_mem_cons.mp hkey
      rw [List.flatMap_cons, List.filter_append]
      rcases List.mem_cons.mp ha with rfl | hmem
      · have hnone : (rest.flatMap block).filter (fun b => key b = keyOf a) = [] := by
          refine List.filter_eq_nil_iff.mpr fun b hb => ?_
          obtain ⟨other, hother, hb⟩ := List.mem_flatMap.mp hb
          rw [decide_eq_true_eq, hothers other hother b hb]
          exact fun heq => hnew (heq ▸ List.mem_map_of_mem hother)
        rw [hnone, List.append_nil, List.filter_eq_self.mpr fun b hb =>
          decide_eq_true (hfirst b hb)]
      · have hnone : (block first).filter (fun b => key b = keyOf a) = [] := by
          refine List.filter_eq_nil_iff.mpr fun b hb => ?_
          rw [decide_eq_true_eq, hfirst b hb]
          exact fun heq => hnew (heq ▸ List.mem_map_of_mem hmem)
        rw [hnone, List.nil_append, ih hrest hothers hmem]

theorem eraseDups_of_same [BEq κ] [LawfulBEq κ] {keys : List κ} {k : κ} (hne : keys ≠ [])
    (h : ∀ other ∈ keys, other = k) : keys.eraseDups = [k] := by
  cases keys with
  | nil => exact absurd rfl hne
  | cons first rest =>
      obtain ⟨rfl, hrest⟩ := List.forall_mem_cons.mp h
      rw [List.eraseDups_cons, List.filter_eq_nil_iff.mpr fun other hother => by
        simp [hrest other hother]]
      rfl

/-- The keys in the order of the blocks. -/
theorem eraseDups_blocks [BEq κ] [LawfulBEq κ] (hnodup : (items.map keyOf).Nodup)
    (hkey : ∀ a ∈ items, ∀ b ∈ block a, key b = keyOf a) (hne : ∀ a ∈ items, block a ≠ []) :
    ((items.flatMap block).map key).eraseDups = items.map keyOf := by
  induction items with
  | nil => rfl
  | cons first rest ih =>
      obtain ⟨hnew, hrest⟩ := List.nodup_cons.mp hnodup
      obtain ⟨hfirst, hothers⟩ := List.forall_mem_cons.mp hkey
      obtain ⟨hnonempty, hne⟩ := List.forall_mem_cons.mp hne
      have hsame : ((block first).map key).eraseDups = [keyOf first] := by
        refine eraseDups_of_same (by simpa using hnonempty) fun other hother => ?_
        obtain ⟨b, hb, rfl⟩ := List.mem_map.mp hother
        exact hfirst b hb
      have hremove : ((rest.flatMap block).map key).removeAll ((block first).map key) =
          (rest.flatMap block).map key := by
        refine List.filter_eq_self.mpr fun k hk => ?_
        obtain ⟨b, hb, rfl⟩ := List.mem_map.mp hk
        obtain ⟨other, hother, hb⟩ := List.mem_flatMap.mp hb
        have hmem : key b ∉ (block first).map key := by
          intro hmem
          obtain ⟨c, hc, heq⟩ := List.mem_map.mp hmem
          rw [hfirst c hc, hothers other hother b hb] at heq
          exact hnew (heq ▸ List.mem_map_of_mem hother)
        simpa using hmem
      rw [List.flatMap_cons, List.map_append, List.eraseDups_append, hsame, hremove,
        ih hrest hothers hne]
      rfl

end Blocks

/-! ## Families -/

section Families

variable {rt : Runtime} {family : ExpositionFamily}

/-- The samples of a family. -/
def familySamples (rt : Runtime) (family : ExpositionFamily) : List Sample :=
  family.series.flatMap (seriesSamples rt family.name)

theorem familySamples_ok (hdisplay : DisplayOk rt) (h : Writable rt family) :
    ∀ sample ∈ familySamples rt family, ∃ series ∈ family.series,
      SampleOf family.name family.metricType (exportedKey family.metricType series) sample := by
  intro sample hsample
  obtain ⟨series, hseries, hmem⟩ := List.mem_flatMap.mp hsample
  exact ⟨series, hseries, seriesSamples_ok hdisplay h.name (h.series series hseries) sample hmem⟩

/-- The series of a counter or a gauge have a sample each. -/
theorem readValue_samples {name : String} {all : List ExpositionSeries}
    (h : ∀ series ∈ all, ∃ labels value, series = .value labels value) :
    (all.flatMap (seriesSamples rt name)).mapM readValue =
      some (all.map ExpositionSeries.exported) := by
  induction all with
  | nil => rfl
  | cons series rest ih =>
      obtain ⟨⟨labels, value, rfl⟩, hrest⟩ := List.forall_mem_cons.mp h
      change (⟨name, labels, toString value⟩ ::
        rest.flatMap (seriesSamples rt name)).mapM readValue = _
      rw [List.mapM_cons, ih hrest, readValue, parseUnsigned_toString]
      rfl

/-- **The series of a family are read back.** -/
theorem readSeries_samples (hdisplay : DisplayOk rt) (h : Writable rt family) :
    readSeries rt family.name (familySamples rt family) family.metricType =
      some (family.series.map ExpositionSeries.exported) := by
  by_cases htype : family.metricType = .histogram
  · have hkey : ∀ series ∈ family.series, ∀ sample ∈ seriesSamples rt family.name series,
        seriesKey family.name sample = exportedKey .histogram series := by
      intro series hseries sample hsample
      have hok := seriesSamples_ok hdisplay h.name (h.series series hseries) sample hsample
      rw [htype] at hok
      exact hok.key
    have hnodup : (family.series.map (exportedKey .histogram)).Nodup := by
      have hdistinct := h.distinct
      rw [htype] at hdistinct
      exact hdistinct
    have hne : ∀ series ∈ family.series, seriesSamples rt family.name series ≠ [] := by
      intro series _
      cases series <;> simp [seriesSamples]
    rw [htype, readSeries, familySamples, eraseDups_blocks hnodup hkey hne, List.mapM_map]
    refine mapM_eq_some_map fun series hseries => ?_
    have hok := htype ▸ h.series series hseries
    obtain ⟨labels, buckets, sum, count, rfl, -⟩ := hok.histogram rfl
    exact readHistogram_block hdisplay hok (filter_blocks hnodup hkey hseries)
  · have hread : (familySamples rt family).mapM readValue =
        some (family.series.map ExpositionSeries.exported) :=
      readValue_samples fun series hseries => (h.series series hseries).value htype
    unfold readSeries
    cases hcase : family.metricType with
    | histogram => exact absurd hcase htype
    | counter | gauge => exact hread

/-- A family as its lines say it. -/
def textFamily (rt : Runtime) (family : ExpositionFamily) : Exposition.Family :=
  ⟨family.name, some family.help, some (kindOf family.metricType), familySamples rt family⟩

theorem readFamily_textFamily (hdisplay : DisplayOk rt) (h : Writable rt family) :
    readFamily rt (textFamily rt family) = some family.exported := by
  have htype : readType (kindOf family.metricType) = some family.metricType := by
    cases family.metricType <;> rfl
  rw [readFamily, textFamily]
  simp only [Option.bind_eq_bind, Option.bind_some, htype, readSeries_samples hdisplay h]
  rfl

/-- The lines of a family. -/
def familyLines (rt : Runtime) (family : ExpositionFamily) : List (List Char) :=
  (helpLine family).toList :: (typeLine family).toList ::
    ((familySamples rt family).map (fun sample => (sampleLine sample).toList) ++ [[]])

theorem toList_renderFamily :
    (renderFamily rt family).toList = (familyLines rt family).flatMap (· ++ ['\n']) := by
  simp [renderFamily, familyLines, familySamples, writeSample, List.flatMap_map]

theorem notMem_familyLines (hdisplay : DisplayOk rt) (h : Writable rt family) :
    ∀ line ∈ familyLines rt family, '\n' ∉ line := by
  refine List.forall_mem_cons.mpr ⟨notMem_helpLine h.name, List.forall_mem_cons.mpr
    ⟨notMem_typeLine h.name, List.forall_mem_append.mpr ⟨fun line hline => ?_, by simp⟩⟩⟩
  obtain ⟨sample, hsample, rfl⟩ := List.mem_map.mp hline
  obtain ⟨series, -, hof⟩ := familySamples_ok hdisplay h sample hsample
  exact notMem_sampleLine hof.ok

/-- **The lines of a family are read.** -/
theorem foldlM_familyLines (hdisplay : DisplayOk rt) (h : Writable rt family)
    {families : List Exposition.Family} (hnew : Exposition.New family.name families) :
    (familyLines rt family).foldlM Exposition.step families =
      some (textFamily rt family :: families) := by
  refine Exposition.foldlM_family hnew (readLine_help h.name h.help) (readLine_type h.name) ?_ ?_
  · rw [List.mapM_map]
    refine mapM_eq_some_map fun sample hsample => ?_
    obtain ⟨series, -, hof⟩ := familySamples_ok hdisplay h sample hsample
    exact readLine_sample hof.ok
  · intro sample hsample
    obtain ⟨series, -, hof⟩ := familySamples_ok hdisplay h sample hsample
    rcases hof.named with hname | ⟨htype, suffix, hsuffix, hname⟩
    · simp [Exposition.Family.takes, hname]
    · rw [Exposition.Family.takes, htype, Bool.or_eq_true]
      refine .inr (List.any_eq_true.mpr ⟨suffix, hsuffix, decide_eq_true hname⟩)

end Families

/-! ## Expositions -/

section Expositions

variable {rt : Runtime} {families : List ExpositionFamily}

theorem toList_renderSnapshot : (renderSnapshot rt families).toList =
    (families.flatMap (familyLines rt)).flatMap (· ++ ['\n']) := by
  rw [renderSnapshot, String.toList_join, List.flatMap_map, List.flatMap_assoc]
  exact List.flatMap_congr fun family _ => toList_renderFamily

/-- Families are read one after another. -/
theorem foldlM_families (hdisplay : DisplayOk rt)
    (h : ∀ family ∈ families, Writable rt family) {before : List Exposition.Family}
    (hnames : (families.map ExpositionFamily.name ++ before.map Exposition.Family.name).Nodup) :
    (families.flatMap (familyLines rt)).foldlM Exposition.step before =
      some ((families.map (textFamily rt)).reverse ++ before) := by
  induction families generalizing before with
  | nil => rfl
  | cons family rest ih =>
      obtain ⟨hfamily, hrest⟩ := List.forall_mem_cons.mp h
      obtain ⟨hnew, hnames⟩ := List.nodup_cons.mp hnames
      rw [List.flatMap_cons, List.foldlM_append, foldlM_familyLines hdisplay hfamily fun hmem =>
        hnew (List.mem_append_right _ hmem)]
      refine (@ih hrest (textFamily rt family :: before) ?_).trans ?_
      · exact List.nodup_middle.mpr (List.nodup_cons.mpr ⟨hnew, hnames⟩)
      · rw [List.map_cons, List.reverse_cons, List.append_assoc]
        rfl

theorem readText_render (hdisplay : DisplayOk rt) (h : ∀ family ∈ families, Writable rt family)
    (hnames : (families.map ExpositionFamily.name).Nodup) :
    readText (renderSnapshot rt families).toList = some (families.map (textFamily rt)) := by
  have hlines : ∀ line ∈ families.flatMap (familyLines rt), '\n' ∉ line := by
    intro line hline
    obtain ⟨family, hfamily, hline⟩ := List.mem_flatMap.mp hline
    exact notMem_familyLines hdisplay (h family hfamily) line hline
  rw [toList_renderSnapshot, Exposition.readText_lines hlines,
    foldlM_families hdisplay h (by simpa using hnames), List.append_nil]
  exact congrArg some (List.reverse_reverse _)

/-- **The exposition is read back.** -/
theorem readExposition_render (hdisplay : DisplayOk rt)
    (h : ∀ family ∈ families, Writable rt family)
    (hnames : (families.map ExpositionFamily.name).Nodup) :
    readExposition rt (renderSnapshot rt families) =
      some (families.map ExpositionFamily.exported) := by
  rw [readExposition, readText_render hdisplay h hnames]
  change (families.map (textFamily rt)).mapM (readFamily rt) = _
  rw [List.mapM_map]
  exact mapM_eq_some_map fun family hfamily =>
    readFamily_textFamily hdisplay (h family hfamily)

end Expositions

end Limpid.Prometheus
