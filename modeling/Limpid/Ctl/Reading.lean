import Mathlib.Data.List.Dedup
import Limpid.Ctl.Stats
import Limpid.Metrics.Bound

/-!
# What the client reads

A family of the table is read into a map of its scopes, in their order.  Each series is inserted
under a scope that its labels give, so a family whose series are those of some scopes, each once,
is read as the map of these scopes, in whatever order the series come (`Scoped.foldlM`).

The families are read one after another, and none disturbs what the others have left
(`Expected.foldlM`).
-/

namespace Limpid.Ctl

open Decimal Metrics RegistryCore

/-! ## Maps -/

section Maps

variable {κ : Type} [LinearOrder κ]

/-- The map of some scopes. -/
def mapOf (scopes : List κ) (value : κ → ℕ) : List (κ × ℕ) :=
  (scopes.insertionSort (· ≤ ·)).map fun scope => (scope, value scope)

/-- Insert scopes one after another. -/
def insertScopes (sorted scopes : List κ) : List κ :=
  scopes.foldl (fun sorted scope => sorted.orderedInsert (· ≤ ·) scope) sorted

theorem insertScopes_perm (sorted scopes : List κ) :
    (insertScopes sorted scopes).Perm (scopes ++ sorted) := by
  induction scopes generalizing sorted with
  | nil => exact .refl _
  | cons scope rest ih =>
      refine (ih _).trans (.trans ?_ List.perm_middle)
      exact (List.perm_orderedInsert _ scope sorted).append_left rest

theorem insertScopes_pairwise {sorted : List κ} (hsorted : sorted.Pairwise (· ≤ ·))
    (scopes : List κ) : (insertScopes sorted scopes).Pairwise (· ≤ ·) := by
  induction scopes generalizing sorted with
  | nil => exact hsorted
  | cons scope rest ih => exact ih (hsorted.orderedInsert scope sorted)

theorem insertScopes_nil {scopes other : List κ} (hperm : scopes.Perm other) :
    insertScopes [] scopes = other.insertionSort (· ≤ ·) := by
  have hscopes := insertScopes_perm [] scopes
  rw [List.append_nil] at hscopes
  exact ((hscopes.trans hperm).trans (List.perm_insertionSort _ _).symm).eq_of_pairwise
    (fun _ _ _ _ => le_antisymm) (insertScopes_pairwise .nil scopes)
    (List.pairwise_insertionSort _ _)

omit [LinearOrder κ] in
@[simp] theorem keys_graph (scopes : List κ) (value : κ → ℕ) :
    Entries.keys (scopes.map fun scope => (scope, value scope)) = scopes := by
  simp [Entries.keys, Function.comp_def]

@[simp] theorem keys_mapOf (scopes : List κ) (value : κ → ℕ) :
    Entries.keys (mapOf scopes value) = scopes.insertionSort (· ≤ ·) :=
  keys_graph _ _

theorem mapOf_eq_nil {scopes : List κ} {value : κ → ℕ} : mapOf scopes value = [] ↔ scopes = [] := by
  rw [mapOf, List.map_eq_nil_iff, ← List.length_eq_zero_iff, List.length_insertionSort,
    List.length_eq_zero_iff]

omit [LinearOrder κ] in
theorem lookup_graph [DecidableEq κ] {scopes : List κ} {scope : κ} (hscope : scope ∈ scopes)
    (value : κ → ℕ) :
    (scopes.map fun scope => (scope, value scope)).lookup scope = some (value scope) := by
  induction scopes with
  | nil => exact absurd hscope List.not_mem_nil
  | cons first rest ih =>
      rw [List.map_cons, Entries.lookup_cons]
      split
      · next heq => rw [heq]
      · next hne => exact ih ((List.mem_cons.mp hscope).resolve_left hne)

theorem lookup_mapOf [DecidableEq κ] {scopes : List κ} {scope : κ} (hscope : scope ∈ scopes)
    (value : κ → ℕ) :
    (mapOf scopes value).lookup scope = some (value scope) :=
  lookup_graph ((List.mem_insertionSort _).mpr hscope) value

/-- One scope is inserted into a map. -/
theorem insertNew_graph {sorted : List κ} {scope : κ} (hnew : scope ∉ sorted) (value : κ → ℕ) :
    insertNew scope (value scope) (sorted.map fun scope => (scope, value scope)) =
      some ((sorted.orderedInsert (· ≤ ·) scope).map fun scope => (scope, value scope)) := by
  have hmap := List.map_orderedInsert (· ≤ ·) (fun first second : κ × ℕ => first.1 ≤ second.1)
    (fun scope => (scope, value scope)) sorted scope (fun _ _ => Iff.rfl) fun _ _ => Iff.rfl
  rw [insertNew, keys_graph, if_neg hnew, hmap]

/-- **Scopes are inserted.** -/
theorem foldlM_insertNew {step : List (κ × ℕ) → κ → Option (List (κ × ℕ))} {value : κ → ℕ}
    {sorted scopes : List κ} (hnodup : (scopes ++ sorted).Nodup)
    (hstep : ∀ scope ∈ scopes, ∀ map, step map scope = insertNew scope (value scope) map) :
    scopes.foldlM step (sorted.map fun scope => (scope, value scope)) =
      some ((insertScopes sorted scopes).map fun scope => (scope, value scope)) := by
  induction scopes generalizing sorted with
  | nil => rfl
  | cons scope rest ih =>
      obtain ⟨hnew, -⟩ := List.nodup_cons.mp hnodup
      obtain ⟨hfirst, hrest⟩ := List.forall_mem_cons.mp hstep
      rw [List.foldlM_cons, hfirst, insertNew_graph fun hmem => hnew (List.mem_append_right _ hmem)]
      refine ih ((List.Perm.nodup_iff ?_).mpr hnodup) hrest
      exact ((List.perm_orderedInsert _ scope sorted).append_left rest).trans List.perm_middle

end Maps

/-- Scopes of two kinds are inserted, each into the map of its kind. -/
theorem foldlM_insertEither {κ μ : Type} [LinearOrder κ] [LinearOrder μ]
    {step : List (κ × ℕ) × List (μ × ℕ) → κ ⊕ μ → Option (List (κ × ℕ) × List (μ × ℕ))}
    {left : κ → ℕ} {right : μ → ℕ} {lefts : List κ} {rights : List μ} {scopes : List (κ ⊕ μ)}
    (hlefts : (scopes.filterMap Sum.getLeft? ++ lefts).Nodup)
    (hrights : (scopes.filterMap Sum.getRight? ++ rights).Nodup)
    (hleft : ∀ scope, .inl scope ∈ scopes → ∀ maps, step maps (.inl scope) =
      (insertNew scope (left scope) maps.1).map (·, maps.2))
    (hright : ∀ scope, .inr scope ∈ scopes → ∀ maps, step maps (.inr scope) =
      (insertNew scope (right scope) maps.2).map (maps.1, ·)) :
    scopes.foldlM step (lefts.map fun scope => (scope, left scope),
        rights.map fun scope => (scope, right scope)) =
      some ((insertScopes lefts (scopes.filterMap Sum.getLeft?)).map
          fun scope => (scope, left scope),
        (insertScopes rights (scopes.filterMap Sum.getRight?)).map
          fun scope => (scope, right scope)) := by
  induction scopes generalizing lefts rights with
  | nil => rfl
  | cons scope rest ih =>
      have hleft' := fun other hmem => hleft other (List.mem_cons_of_mem _ hmem)
      have hright' := fun other hmem => hright other (List.mem_cons_of_mem _ hmem)
      cases scope with
      | inl scope =>
          obtain ⟨hnew, -⟩ := List.nodup_cons.mp hlefts
          rw [List.foldlM_cons, hleft scope List.mem_cons_self,
            insertNew_graph fun hmem => hnew (List.mem_append_right _ hmem)]
          refine ih ((List.Perm.nodup_iff ?_).mpr hlefts) hrights hleft' hright'
          exact ((List.perm_orderedInsert _ scope lefts).append_left _).trans List.perm_middle
      | inr scope =>
          obtain ⟨hnew, -⟩ := List.nodup_cons.mp hrights
          rw [List.foldlM_cons, hright scope List.mem_cons_self,
            insertNew_graph fun hmem => hnew (List.mem_append_right _ hmem)]
          refine ih hlefts ((List.Perm.nodup_iff ?_).mpr hrights) hleft' hright'
          exact ((List.perm_orderedInsert _ scope rights).append_left _).trans List.perm_middle

/-! ## The series of a family -/

/-- A counter whose series are those of some scopes. -/
structure Scoped {κ : Type} (family : RegistryCore.MetricFamily) (labelsOf : κ → Labels)
    (scopes : List κ) : Prop where
  counter : family.metricType = .counter
  nonempty : scopes ≠ []
  nodup : scopes.Nodup
  injective : ∀ first ∈ scopes, ∀ second ∈ scopes, labelsOf first = labelsOf second →
    first = second
  mem_iff : ∀ labels, labels ∈ family.series.map Series.labels ↔
    ∃ scope ∈ scopes, labels = labelsOf scope

/-- A series of a snapshot. -/
def seriesAt (readings : Readings) (name : String) (labels : Labels) : ValueSeries :=
  ⟨labelsMap labels, readings.value ⟨name, labels⟩⟩

section Series

variable {κ : Type} {rt : Dsl.Runtime}
  {family : RegistryCore.MetricFamily} {labelsOf : κ → Labels} {scopes : List κ}

/-- The scopes of a family's series, in the order in which they were registered. -/
theorem exists_scopes {all : List Labels}
    (h : ∀ labels ∈ all, ∃ scope ∈ scopes, labels = labelsOf scope) :
    ∃ registered : List κ, (∀ scope ∈ registered, scope ∈ scopes) ∧
      all = registered.map labelsOf := by
  induction all with
  | nil => exact ⟨[], fun _ hmem => absurd hmem List.not_mem_nil, rfl⟩
  | cons labels rest ih =>
      obtain ⟨⟨scope, hscope, rfl⟩, hrest⟩ := List.forall_mem_cons.mp h
      obtain ⟨registered, hmem, rfl⟩ := ih hrest
      exact ⟨scope :: registered, List.forall_mem_cons.mpr ⟨hscope, hmem⟩, rfl⟩

theorem Scoped.exists_perm (h : Scoped family labelsOf scopes) (hok : FamilyOk rt family)
    (readings : Readings) :
    ∃ registered : List κ, registered.Perm scopes ∧
      counterSeries (snapshotFamily readings family) =
        some (registered.map fun scope => seriesAt readings family.name (labelsOf scope)) := by
  obtain ⟨registered, hscopes, hregistered⟩ := exists_scopes fun labels hlabels =>
    (h.mem_iff labels).mp hlabels
  have hnodup : registered.Nodup := .of_map labelsOf (hregistered ▸ hok.distinct)
  have hperm : registered.Perm scopes := by
    refine (List.perm_ext_iff_of_nodup hnodup h.nodup).mpr fun scope => ⟨hscopes scope, ?_⟩
    intro hscope
    have hlabels := (h.mem_iff (labelsOf scope)).mpr ⟨scope, hscope, rfl⟩
    obtain ⟨other, hother, heq⟩ := List.mem_map.mp (hregistered ▸ hlabels)
    rwa [← h.injective other (hscopes other hother) scope hscope heq]
  refine ⟨registered, hperm, ?_⟩
  have hseries : snapshotValueSeries readings family.name family.series =
      registered.map fun scope => seriesAt readings family.name (labelsOf scope) := by
    change _ = registered.map (seriesAt readings family.name ∘ labelsOf)
    rw [← List.map_map, ← hregistered, List.map_map]
    rfl
  have hnonempty : registered ≠ [] := fun hnil => h.nonempty (List.nil_perm.mp (hnil ▸ hperm))
  have hfamily : snapshotFamily readings family = .counter family.name family.help
      (registered.map fun scope => seriesAt readings family.name (labelsOf scope)) := by
    rw [snapshotFamily, h.counter, ← hseries]
  rw [hfamily, counterSeries]
  simp [Metrics.MetricFamily.metricType, Metrics.MetricFamily.valueSeries, hnonempty]

end Series

/-! ## Scopes by their labels -/

/-- The labels of a frame. -/
def identityLabels (identity : ProcessIdentity) : Labels :=
  frameLabels identity.pipeline (toString identity.step) identity.processPath identity.processName

theorem entries_frameLabels (pipeline step path name : String) :
    (labelsMap (frameLabels pipeline step path name)).entries =
      frameLabels pipeline step path name :=
  labelsMap_entries (frameLabels_pairwise pipeline step path name)

theorem readIdentity_identityLabels {identity : ProcessIdentity}
    (hstep : identity.step < UInt64.size) :
    readIdentity (identityLabels identity) = some identity := by
  have hparse : parseUnsigned (toString identity.step).toList = some identity.step := by
    have htext : (toString identity.step).toList = formatNat identity.step := Nat.toList_repr
    rw [htext, parseUnsigned_formatNat]
  change (parseUnsigned (toString identity.step).toList >>= fun step =>
    if step < UInt64.size then
      some (⟨identity.pipeline, step, identity.processPath, identity.processName⟩ : ProcessIdentity)
    else none) = _
  rw [hparse]
  exact if_pos hstep

section Steps

variable (readings : Readings) (name : String)

theorem readSeries_seriesAt (label scope : String) (values : MetricValues) :
    readSeries label values (seriesAt readings name [(label, scope)]) =
      insertNew scope (readings.value ⟨name, [(label, scope)]⟩) values := by
  have hentries : (labelsMap [(label, scope)]).entries = [(label, scope)] :=
    labelsMap_entries (List.pairwise_singleton _ _)
  simp [readSeries, seriesAt, hentries]

theorem readProcessSeries_seriesAt {identity : ProcessIdentity}
    (hstep : identity.step < UInt64.size) (values : ProcessMetricValues) :
    readProcessSeries values (seriesAt readings name (identityLabels identity)) =
      insertNew identity (readings.value ⟨name, identityLabels identity⟩) values := by
  have hentries : (labelsMap (identityLabels identity)).entries = identityLabels identity :=
    entries_frameLabels _ _ _ _
  rw [readProcessSeries, seriesAt, hentries, readIdentity_identityLabels hstep]
  rfl

theorem readDroppedSeries_root (pipeline : String) (values : MetricValues × ProcessMetricValues) :
    readDroppedSeries true values (seriesAt readings name (rootLabels pipeline)) =
      (insertNew pipeline (readings.value ⟨name, rootLabels pipeline⟩) values.1).map
        (·, values.2) := by
  have hentries : (labelsMap (rootLabels pipeline)).entries = rootLabels pipeline :=
    entries_frameLabels _ _ _ _
  rw [readDroppedSeries, seriesAt, hentries]
  change (insertNew _ _ _ >>= _) = _
  cases insertNew pipeline (readings.value ⟨name, rootLabels pipeline⟩) values.1 <;> rfl

theorem readDroppedSeries_frame {identity : ProcessIdentity}
    (hstep : identity.step < UInt64.size) (hroot : identity.processPath ≠ processPathRoot)
    (hleaf : processPathLeaf identity.processPath = some identity.processName)
    (values : MetricValues × ProcessMetricValues) :
    readDroppedSeries true values (seriesAt readings name (identityLabels identity)) =
      (insertNew identity (readings.value ⟨name, identityLabels identity⟩) values.2).map
        (values.1, ·) := by
  have hentries : (labelsMap (identityLabels identity)).entries = identityLabels identity :=
    entries_frameLabels _ _ _ _
  have hpath : (identityLabels identity).lookup "process_path" = some identity.processPath := rfl
  have hlength : (identityLabels identity).length = 4 := rfl
  rw [readDroppedSeries, seriesAt, hentries]
  dsimp only
  rw [hpath, if_neg (by simpa using hroot), if_pos rfl, if_neg (not_not.mpr hlength),
    readIdentity_identityLabels hstep]
  change (processPathLeaf identity.processPath >>= _) = _
  rw [hleaf]
  change (if identity.processName ≠ identity.processName then none else _) = _
  rw [if_neg (not_not.mpr rfl)]
  cases insertNew identity (readings.value ⟨name, identityLabels identity⟩) values.2 <;> rfl

end Steps

/-! ## The families of the table -/

/-- The scopes of the rows of a table. -/
structure Scopes where
  pipelines : List String
  inputs : List String
  outputs : List String
  identities : List ProcessIdentity

namespace Scopes

/-- The scopes that a label tells apart. -/
def named (scopes : Scopes) (label : String) : List String :=
  if label = "pipeline" then scopes.pipelines
  else if label = "input" then scopes.inputs
  else scopes.outputs

/-- The labels under which the series of a row is looked up. -/
def labelsOf (label name scope : String) : Labels :=
  if name = eventsDroppedTotal then rootLabels scope else [(label, scope)]

/-- The map of a family of pipelines, inputs or outputs. -/
def values (scopes : Scopes) (readings : Readings) (label name : String) : MetricValues :=
  mapOf (scopes.named label) fun scope => readings.value ⟨name, labelsOf label name scope⟩

/-- The map of a family of frames. -/
def processes (scopes : Scopes) (readings : Readings) (name : String) : ProcessMetricValues :=
  mapOf scopes.identities fun identity => readings.value ⟨name, identityLabels identity⟩

/-- The families of the table have the series of the scopes. -/
structure Covers (scopes : Scopes) (families : List RegistryCore.MetricFamily) : Prop where
  pipelines : scopes.pipelines ≠ []
  frames : ∀ identity ∈ scopes.identities, identity.step < UInt64.size ∧
    identity.processPath ≠ processPathRoot ∧
      processPathLeaf identity.processPath = some identity.processName
  named : ∀ family ∈ families, family.name ≠ eventsDroppedTotal →
    ∀ label, knownMetricLabel family.name = some label →
      Scoped family (fun scope => [(label, scope)]) (scopes.named label)
  processes : ∀ family ∈ families, family.name ≠ eventsDroppedTotal →
    family.name ∈ processMetrics → Scoped family identityLabels scopes.identities
  dropped : ∀ family ∈ families, family.name = eventsDroppedTotal →
    Scoped family (Sum.elim rootLabels identityLabels)
      (scopes.pipelines.map .inl ++ scopes.identities.map .inr)
  known : ∀ name label, knownMetricLabel name = some label →
    name ∈ families.map RegistryCore.MetricFamily.name
  present : scopes.identities ≠ [] → ∀ name ∈ processMetrics,
    name ∈ families.map RegistryCore.MetricFamily.name

end Scopes

/-- What has been read of the families with some names. -/
structure Held (readings : Readings) (scopes : Scopes) (seen : List String)
    (families : Families) : Prop where
  values : ∀ name, families.values.lookup name =
    if name ∈ seen then (knownMetricLabel name).map (scopes.values readings · name) else none
  processes : ∀ name, families.processes.lookup name =
    if name ∈ seen ∧ name ∈ processMetrics ∧ scopes.identities ≠ [] then
      some (scopes.processes readings name) else none

theorem knownMetricLabel_process : ∀ name ∈ processMetrics, name ≠ eventsDroppedTotal →
    knownMetricLabel name = none := by
  decide

section Reading

variable {rt : Dsl.Runtime} {readings : Readings} {scopes : Scopes} {seen : List String}
  {families : Families}

theorem Held.nil (readings : Readings) (scopes : Scopes) : Held readings scopes [] ⟨[], []⟩ := by
  constructor <;> intro name <;> simp

theorem Held.notMem (h : Held readings scopes seen families) {name : String} (hname : name ∉ seen) :
    name ∉ Entries.keys families.values ∧ name ∉ Entries.keys families.processes := by
  rw [← Entries.lookup_eq_none_iff, ← Entries.lookup_eq_none_iff, h.values, h.processes]
  simp [hname]

/-- One more family has been read. -/
theorem Held.cons (h : Held readings scopes seen families) {name : String} {next : Families}
    (hvalues : next.values = match knownMetricLabel name with
      | some label => (name, scopes.values readings label name) :: families.values
      | none => families.values)
    (hprocesses : next.processes = if name ∈ processMetrics ∧ scopes.identities ≠ [] then
      (name, scopes.processes readings name) :: families.processes else families.processes) :
    Held readings scopes (name :: seen) next := by
  constructor
  · intro other
    rw [hvalues]
    cases hlabel : knownMetricLabel name with
    | none =>
        dsimp only
        rw [h.values]
        by_cases heq : other = name
        · simp [heq, hlabel]
        · simp [heq]
    | some label =>
        dsimp only
        rw [Entries.lookup_cons, h.values]
        by_cases heq : other = name
        · simp [heq, hlabel]
        · simp [heq]
  · intro other
    rw [hprocesses]
    split
    · next hname =>
      rw [Entries.lookup_cons, h.processes]
      by_cases heq : other = name
      · simp [heq, hname]
      · simp [heq]
    · next hname =>
      rw [h.processes]
      by_cases heq : other = name
      · rw [heq, if_neg fun hmem => hname hmem.2, if_neg fun hmem => hname hmem.2]
      · simp [heq]

theorem snapshotFamily_name (family : RegistryCore.MetricFamily) :
    (snapshotFamily readings family).name = family.name := by
  unfold snapshotFamily
  cases family.metricType <;> rfl

/-- A family of pipelines, inputs or outputs is read. -/
theorem readFamily_named {all : List RegistryCore.MetricFamily} (hcovers : scopes.Covers all)
    {family : RegistryCore.MetricFamily} (hfamily : family ∈ all) (hok : FamilyOk rt family)
    (hdropped : family.name ≠ eventsDroppedTotal) {label : String}
    (hlabel : knownMetricLabel family.name = some label)
    (hnew : family.name ∉ Entries.keys families.values) :
    readFamily true families (snapshotFamily readings family) =
      some { families with
        values := (family.name, scopes.values readings label family.name) :: families.values } := by
  have hscoped := hcovers.named family hfamily hdropped label hlabel
  obtain ⟨registered, hperm, hseries⟩ := hscoped.exists_perm hok readings
  have hprocess : family.name ∉ processMetrics := fun hmem =>
    Option.some_ne_none _ (hlabel.symm.trans (knownMetricLabel_process _ hmem hdropped))
  have hread : (registered.map fun scope => seriesAt readings family.name [(label, scope)]).foldlM
      (readSeries label) [] = some (scopes.values readings label family.name) := by
    rw [List.foldlM_map]
    have hnodup : (registered ++ []).Nodup := by
      rw [List.append_nil]
      exact hperm.nodup_iff.mpr hscoped.nodup
    refine (foldlM_insertNew hnodup fun scope _ map =>
      readSeries_seriesAt readings family.name label scope map).trans ?_
    rw [insertScopes_nil hperm, Scopes.values, mapOf]
    simp only [Scopes.labelsOf, if_neg hdropped]
  rw [readFamily, snapshotFamily_name, if_neg hdropped, if_neg fun hmem => hprocess hmem.2, hlabel]
  dsimp only
  rw [if_neg hnew, hseries]
  simp only [Option.bind_eq_bind, Option.bind_some, hread]

/-- A family of frames is read. -/
theorem readFamily_process {all : List RegistryCore.MetricFamily} (hcovers : scopes.Covers all)
    {family : RegistryCore.MetricFamily} (hfamily : family ∈ all) (hok : FamilyOk rt family)
    (hdropped : family.name ≠ eventsDroppedTotal) (hprocess : family.name ∈ processMetrics)
    (hnew : family.name ∉ Entries.keys families.processes) :
    readFamily true families (snapshotFamily readings family) =
      some { families with
        processes := (family.name, scopes.processes readings family.name) ::
          families.processes } := by
  have hscoped := hcovers.processes family hfamily hdropped hprocess
  obtain ⟨registered, hperm, hseries⟩ := hscoped.exists_perm hok readings
  have hread : (registered.map fun identity =>
      seriesAt readings family.name (identityLabels identity)).foldlM readProcessSeries [] =
        some (scopes.processes readings family.name) := by
    rw [List.foldlM_map]
    have hnodup : (registered ++ []).Nodup := by
      rw [List.append_nil]
      exact hperm.nodup_iff.mpr hscoped.nodup
    refine (foldlM_insertNew hnodup fun identity hidentity map =>
      readProcessSeries_seriesAt readings family.name
        (hcovers.frames identity (hperm.mem_iff.mp hidentity)).1 map).trans ?_
    rw [insertScopes_nil hperm, Scopes.processes, mapOf]
  rw [readFamily, snapshotFamily_name, if_neg hdropped, if_pos ⟨rfl, hprocess⟩, if_neg hnew,
    hseries]
  simp only [Option.bind_eq_bind, Option.bind_some, hread]

/-- The family of the dropped events is read. -/
theorem readFamily_dropped {all : List RegistryCore.MetricFamily} (hcovers : scopes.Covers all)
    {family : RegistryCore.MetricFamily} (hfamily : family ∈ all) (hok : FamilyOk rt family)
    (hdropped : family.name = eventsDroppedTotal)
    (hnew : family.name ∉ Entries.keys families.values ∧
      family.name ∉ Entries.keys families.processes) :
    readFamily true families (snapshotFamily readings family) =
      some {
        values := (family.name, scopes.values readings "pipeline" family.name) :: families.values
        processes := if scopes.identities ≠ [] then
          (family.name, scopes.processes readings family.name) :: families.processes
          else families.processes } := by
  have hscoped := hcovers.dropped family hfamily hdropped
  obtain ⟨registered, hperm, hseries⟩ := hscoped.exists_perm hok readings
  -- the root frames and the frames of processes are read into two tables
  have hlefts : (registered.filterMap Sum.getLeft?).Perm scopes.pipelines := by
    refine (hperm.filterMap _).trans (.of_eq ?_)
    simp [List.filterMap_append, List.filterMap_map, Function.comp_def]
  have hrights : (registered.filterMap Sum.getRight?).Perm scopes.identities := by
    refine (hperm.filterMap _).trans (.of_eq ?_)
    simp [List.filterMap_append, List.filterMap_map, Function.comp_def]
  have hnodup := List.nodup_append.mp hscoped.nodup
  have hread : (registered.map fun scope => seriesAt readings family.name
      (Sum.elim rootLabels identityLabels scope)).foldlM (readDroppedSeries true) ([], []) =
        some (scopes.values readings "pipeline" family.name,
          scopes.processes readings family.name) := by
    rw [List.foldlM_map]
    have hpipelines : (registered.filterMap Sum.getLeft? ++ []).Nodup := by
      rw [List.append_nil]
      exact hlefts.nodup_iff.mpr (.of_map _ hnodup.1)
    have hidentities : (registered.filterMap Sum.getRight? ++ []).Nodup := by
      rw [List.append_nil]
      exact hrights.nodup_iff.mpr (.of_map _ hnodup.2.1)
    -- the labels of a process tell its path, those of a root none
    have hframe : ∀ identity, Sum.inr identity ∈ registered →
        ∀ maps : MetricValues × ProcessMetricValues, readDroppedSeries true maps
            (seriesAt readings family.name (identityLabels identity)) =
          (insertNew identity (readings.value ⟨family.name, identityLabels identity⟩) maps.2).map
            (maps.1, ·) := by
      intro identity hidentity maps
      have hmem : identity ∈ scopes.identities := by
        simpa using hperm.mem_iff.mp hidentity
      obtain ⟨hstep, hroot, hleaf⟩ := hcovers.frames identity hmem
      exact readDroppedSeries_frame readings family.name hstep hroot hleaf maps
    refine (foldlM_insertEither hpipelines hidentities
      (fun pipeline _ maps => readDroppedSeries_root readings family.name pipeline maps)
      hframe).trans ?_
    rw [insertScopes_nil hlefts, insertScopes_nil hrights, Scopes.values, Scopes.processes, mapOf,
      mapOf]
    simp only [Scopes.labelsOf, if_pos hdropped]
    rfl
  have hpipelines : (scopes.values readings "pipeline" family.name).isEmpty = false := by
    rw [List.isEmpty_eq_false_iff, Scopes.values, Ne, mapOf_eq_nil]
    exact hcovers.pipelines
  have hprocesses : (scopes.processes readings family.name).isEmpty = false ↔
      scopes.identities ≠ [] := by
    rw [List.isEmpty_eq_false_iff, Scopes.processes, Ne, mapOf_eq_nil]
  rw [readFamily, snapshotFamily_name, if_pos hdropped, if_neg (not_or.mpr hnew), hseries]
  simp only [Option.bind_eq_bind, Option.bind_some, hread]
  change (if (scopes.values readings "pipeline" family.name).isEmpty = true then none else _) = _
  rw [hpipelines, if_neg Bool.false_ne_true]
  simp only [Bool.true_and, Bool.not_eq_true', hprocesses]

/-- **One family is read.** -/
theorem Held.readFamily (h : Held readings scopes seen families)
    {all : List RegistryCore.MetricFamily} (hcovers : scopes.Covers all)
    {family : RegistryCore.MetricFamily} (hfamily : family ∈ all) (hok : FamilyOk rt family)
    (hname : family.name ∉ seen) :
    ∃ next, readFamily true families (snapshotFamily readings family) = some next ∧
      Held readings scopes (family.name :: seen) next := by
  obtain ⟨hvalues, hprocesses⟩ := h.notMem hname
  by_cases hdropped : family.name = eventsDroppedTotal
  · have hlabel : knownMetricLabel family.name = some "pipeline" := by
      rw [hdropped]
      rfl
    have hprocess : family.name ∈ processMetrics := by
      rw [hdropped]
      decide
    refine ⟨_, readFamily_dropped hcovers hfamily hok hdropped ⟨hvalues, hprocesses⟩,
      h.cons ?_ ?_⟩
    · rw [hlabel]
    · simp only [hprocess, true_and]
  by_cases hprocess : family.name ∈ processMetrics
  · have hnone := knownMetricLabel_process _ hprocess hdropped
    have hidentities := (hcovers.processes family hfamily hdropped hprocess).nonempty
    refine ⟨_, readFamily_process hcovers hfamily hok hdropped hprocess hprocesses, h.cons ?_ ?_⟩
    · rw [hnone]
    · rw [if_pos ⟨hprocess, hidentities⟩]
  cases hlabel : knownMetricLabel family.name with
  | some label =>
      refine ⟨_, readFamily_named hcovers hfamily hok hdropped hlabel hvalues, h.cons ?_ ?_⟩
      · rw [hlabel]
      · rw [if_neg fun hmem => hprocess hmem.1]
  | none =>
      refine ⟨families, ?_, h.cons ?_ ?_⟩
      · rw [Ctl.readFamily, snapshotFamily_name, if_neg hdropped,
          if_neg fun hmem => hprocess hmem.2, hlabel]
      · rw [hlabel]
      · rw [if_neg fun hmem => hprocess hmem.1]

/-- **Families are read**, one after another. -/
theorem Held.foldlM (h : Held readings scopes seen families)
    {all rest : List RegistryCore.MetricFamily} (hcovers : scopes.Covers all)
    (hrest : ∀ family ∈ rest, family ∈ all ∧ FamilyOk rt family)
    (hnames : (rest.map RegistryCore.MetricFamily.name ++ seen).Nodup) :
    ∃ next, (rest.map (snapshotFamily readings)).foldlM (Ctl.readFamily true) families =
        some next ∧
      Held readings scopes ((rest.map RegistryCore.MetricFamily.name).reverse ++ seen) next := by
  induction rest generalizing seen families with
  | nil => exact ⟨families, rfl, h⟩
  | cons family rest ih =>
      obtain ⟨⟨hfamily, hok⟩, hrest⟩ := List.forall_mem_cons.mp hrest
      obtain ⟨hnew, hnames⟩ := List.nodup_cons.mp hnames
      obtain ⟨middle, hmiddle, hheld⟩ := h.readFamily hcovers hfamily hok fun hmem =>
        hnew (List.mem_append_right _ hmem)
      obtain ⟨next, hnext, hheld⟩ := ih hheld hrest (by
        rw [List.nodup_middle]
        exact List.nodup_cons.mpr ⟨hnew, hnames⟩)
      refine ⟨next, ?_, ?_⟩
      · rw [List.map_cons, List.foldlM_cons, hmiddle]
        exact hnext
      · rwa [List.map_cons, List.reverse_cons, List.append_assoc]

/-- **The families of a registry are read.** -/
theorem exists_families (readings : Readings) {registry : Registry} (hok : registry.Ok rt)
    (hcovers : scopes.Covers registry.families) :
    ∃ families, (registry.snapshot readings).metrics.foldlM (Ctl.readFamily true) ⟨[], []⟩ =
        some families ∧
      Held readings scopes (registry.families.map RegistryCore.MetricFamily.name).reverse
        families := by
  obtain ⟨families, hread, hheld⟩ := (Held.nil readings scopes).foldlM hcovers
    (fun family hfamily => ⟨hfamily, hok.families family hfamily⟩) (by simpa using hok.names)
  exact ⟨families, hread, by simpa using hheld⟩

end Reading

end Limpid.Ctl
