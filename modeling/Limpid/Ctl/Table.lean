import Limpid.Ctl.Reading

/-!
# The table of a snapshot

Where all families of the table have been read (`Held`), the groups agree on their scopes, and
every value of a row is found (`Held.rows`).  The frames of the pipelines stand one pipeline
behind the other, so the client's runs of one name are the pipelines (`processRows_groups`), and
the text of their rows is that of one pipeline after another (`join_linesOf`).
-/

namespace Limpid.Ctl

open Metrics RegistryCore

/-! ## Groups of families -/

/-- Rows that are there one by one are there together. -/
theorem exists_mapM {α β : Type} {f : α → Option β} {items : List α}
    (h : ∀ item ∈ items, ∃ b, f item = some b) :
    ∃ results, items.mapM f = some results ∧
      List.Forall₂ (fun item b => f item = some b) items results := by
  induction items with
  | nil => exact ⟨[], rfl, .nil⟩
  | cons item rest ih =>
      obtain ⟨⟨b, hb⟩, hrest⟩ := List.forall_mem_cons.mp h
      obtain ⟨results, hresults, hall⟩ := ih hrest
      exact ⟨b :: results, by rw [List.mapM_cons, hb, hresults]; rfl, .cons hb hall⟩

section Groups

variable {readings : Readings} {scopes : Scopes} {seen : List String} {families : Families}

theorem Held.lookup_values (h : Held readings scopes seen families) {name label : String}
    (hname : name ∈ seen) (hlabel : knownMetricLabel name = some label) :
    families.values.lookup name = some (scopes.values readings label name) := by
  rw [h.values, if_pos hname, hlabel]
  rfl

theorem Held.metricValue (h : Held readings scopes seen families) {name label : String}
    (hname : name ∈ seen) (hlabel : knownMetricLabel name = some label) {scope : String}
    (hscope : scope ∈ scopes.named label) :
    ∃ value, metricValue families.values name scope = some value := by
  rw [Ctl.metricValue, h.lookup_values hname hlabel]
  exact ⟨_, lookup_mapOf hscope _⟩

/-- The families of a group have the same scopes. -/
theorem Held.validateMetricGroup (h : Held readings scopes seen families) {first label : String}
    {names : List String} (hnames : ∀ name ∈ first :: names, name ∈ seen ∧
      knownMetricLabel name = some label) :
    validateMetricGroup families.values (first :: names) = some () := by
  obtain ⟨hfirst, hlabel⟩ := hnames first List.mem_cons_self
  have hsame : sameKeys families.values (scopes.values readings label first) (first :: names) =
      true := by
    refine List.all_eq_true.mpr fun name hname => ?_
    obtain ⟨hseen, hlabel⟩ := hnames name hname
    rw [h.lookup_values hseen hlabel]
    simp [Scopes.values]
  rw [Ctl.validateMetricGroup]
  change (families.values.lookup first >>= _) = _
  rw [h.lookup_values hfirst hlabel]
  exact if_pos hsame

/-- A group has a row for each of its scopes. -/
theorem Held.groupRows (h : Held readings scopes seen families) {first label : String}
    (hfirst : first ∈ seen) (hlabel : knownMetricLabel first = some label)
    {row : List (String × MetricValues) → String → Option String}
    (hrow : ∀ scope ∈ scopes.named label, ∃ text, row families.values scope = some text) :
    ∃ rows, groupRows families.values first row = some rows ∧
      rows.length = (scopes.named label).length := by
  obtain ⟨rows, hrows, hall⟩ := exists_mapM fun scope
    (hscope : scope ∈ (scopes.named label).insertionSort (· ≤ ·)) =>
      hrow scope ((List.mem_insertionSort _).mp hscope)
  refine ⟨rows, ?_, by rw [← hall.length_eq, List.length_insertionSort]⟩
  rw [Ctl.groupRows, h.lookup_values hfirst hlabel]
  change ((Entries.keys (scopes.values readings label first)).mapM _) = _
  rw [Scopes.values, keys_mapOf, hrows]

/-- The rows of the pipelines, the inputs and the outputs are there. -/
theorem Held.rows (h : Held readings scopes seen families)
    (hseen : ∀ name label, knownMetricLabel name = some label → name ∈ seen) :
    (∀ scope ∈ scopes.named "pipeline", ∃ text, pipelineRow families.values scope = some text) ∧
      (∀ scope ∈ scopes.named "input", ∃ text, inputRow families.values scope = some text) ∧
      ∀ scope ∈ scopes.named "output", ∃ text, outputRow families.values scope = some text := by
  have hvalue : ∀ label scope, scope ∈ scopes.named label → ∀ name,
      knownMetricLabel name = some label →
        ∃ value, Ctl.metricValue families.values name scope = some value :=
    fun label scope hscope name hlabel => h.metricValue (hseen name label hlabel) hlabel hscope
  refine ⟨fun scope hscope => ?_, fun scope hscope => ?_, fun scope hscope => ?_⟩
  · have hvalue := hvalue "pipeline" scope hscope
    obtain ⟨received, hreceived⟩ := hvalue "limpid_pipeline_events_received_total" rfl
    obtain ⟨finished, hfinished⟩ := hvalue "limpid_pipeline_events_finished_total" rfl
    obtain ⟨dropped, hdropped⟩ := hvalue eventsDroppedTotal rfl
    obtain ⟨discarded, hdiscarded⟩ := hvalue "limpid_pipeline_events_discarded_total" rfl
    obtain ⟨errored, herrored⟩ := hvalue "limpid_pipeline_events_errored_total" rfl
    obtain ⟨unwritable, hunwritable⟩ :=
      hvalue "limpid_pipeline_events_errored_unwritable_total" rfl
    rw [pipelineRow, hreceived, hfinished, hdropped, hdiscarded, herrored, hunwritable]
    exact ⟨_, rfl⟩
  · have hvalue := hvalue "input" scope hscope
    obtain ⟨received, hreceived⟩ := hvalue "limpid_input_events_received_total" rfl
    obtain ⟨invalid, hinvalid⟩ := hvalue "limpid_input_events_invalid_total" rfl
    obtain ⟨injected, hinjected⟩ := hvalue "limpid_input_events_injected_total" rfl
    rw [inputRow, hreceived, hinvalid, hinjected]
    exact ⟨_, rfl⟩
  · have hvalue := hvalue "output" scope hscope
    obtain ⟨received, hreceived⟩ := hvalue "limpid_output_events_received_total" rfl
    obtain ⟨injected, hinjected⟩ := hvalue "limpid_output_events_injected_total" rfl
    obtain ⟨written, hwritten⟩ := hvalue "limpid_output_events_written_total" rfl
    obtain ⟨failed, hfailed⟩ := hvalue "limpid_output_events_failed_total" rfl
    obtain ⟨retries, hretries⟩ := hvalue "limpid_output_retries_total" rfl
    obtain ⟨wedged, hwedged⟩ := hvalue "limpid_output_events_wedged_total" rfl
    obtain ⟨unwritable, hunwritable⟩ :=
      hvalue "limpid_output_events_errored_unwritable_total" rfl
    rw [outputRow, hreceived, hinjected, hwritten, hfailed, hretries, hwedged, hunwritable]
    exact ⟨_, rfl⟩

/-- **The families of the frames** are all there, with the same frames, or there is none. -/
theorem Held.validateProcessMetricGroup (h : Held readings scopes seen families)
    (hseen : scopes.identities ≠ [] → ∀ name ∈ processMetrics, name ∈ seen) :
    validateProcessMetricGroup families.processes =
      some (if scopes.identities = [] then none
        else some (scopes.processes readings processEventsInTotal)) := by
  by_cases hnone : scopes.identities = []
  · have hempty : families.processes = [] := by
      refine List.eq_nil_iff_forall_not_mem.mpr fun entry hentry => ?_
      have hkey : entry.1 ∈ Entries.keys families.processes := List.mem_map_of_mem hentry
      rw [← not_not (a := entry.1 ∈ _), ← Entries.lookup_eq_none_iff, h.processes] at hkey
      exact hkey (if_neg fun hmem => hmem.2.2 hnone)
    rw [Ctl.validateProcessMetricGroup, hempty, if_pos hnone]
    rfl
  · have hlookup : ∀ name ∈ processMetrics,
        families.processes.lookup name = some (scopes.processes readings name) :=
          fun name hname => by
      rw [h.processes, if_pos ⟨hseen hnone name hname, hname, hnone⟩]
    have hin := hlookup processEventsInTotal (by decide)
    have hnonempty : families.processes.isEmpty = false := by
      rw [List.isEmpty_eq_false_iff]
      rintro heq
      rw [heq] at hin
      exact nomatch hin
    have hsame : sameKeys families.processes (scopes.processes readings processEventsInTotal)
        processMetrics = true := by
      refine List.all_eq_true.mpr fun name hname => ?_
      rw [hlookup name hname]
      simp [Scopes.processes]
    rw [Ctl.validateProcessMetricGroup, hnonempty, if_neg Bool.false_ne_true, hin, if_neg hnone]
    exact if_pos hsame

end Groups

/-! ## The rows of the frames -/

/-- The frames of pipelines, one pipeline after another. -/
structure Grouped (groups : List (String × List ProcessIdentity)) : Prop where
  keys : (Entries.keys groups).Nodup
  own : ∀ group ∈ groups, ∀ identity ∈ group.2, identity.pipeline = group.1

theorem Grouped.tail {group : String × List ProcessIdentity}
    {groups : List (String × List ProcessIdentity)} (h : Grouped (group :: groups)) :
    Grouped groups where
  keys := (List.nodup_cons.mp h.keys).2
  own other hother := h.own other (List.mem_cons_of_mem _ hother)

/-- The frames of the other pipelines have other names. -/
theorem Grouped.ne {group : String × List ProcessIdentity}
    {groups : List (String × List ProcessIdentity)} (h : Grouped (group :: groups)) :
    ∀ identity ∈ groups.flatMap Prod.snd, identity.pipeline ≠ group.1 := by
  intro identity hidentity heq
  obtain ⟨other, hother, hmem⟩ := List.mem_flatMap.mp hidentity
  refine (List.nodup_cons.mp h.keys).1 (List.mem_map.mpr ⟨other, hother, ?_⟩)
  rw [← h.own other (List.mem_cons_of_mem _ hother) identity hmem, heq]

/-- The frames of a pipeline with their drawings. -/
def drawnRows (names : String × List ProcessIdentity → List (String × String))
    (group : String × List ProcessIdentity) : List (ProcessIdentity × String × String) :=
  group.2.zip (names group)

/-- **The client's pipelines are the pipelines.** -/
theorem processRows_groups {groups : List (String × List ProcessIdentity)} (h : Grouped groups)
    {names : String × List ProcessIdentity → List (String × String)}
    (hnames : ∀ group ∈ groups, processTreeNames group.2 = some (names group)) :
    processRows (groups.flatMap Prod.snd) = some (groups.flatMap (drawnRows names)) := by
  induction groups with
  | nil =>
      rw [List.flatMap_nil, processRows]
      rfl
  | cons group groups ih =>
      obtain ⟨hdrawn, hnames⟩ := List.forall_mem_cons.mp hnames
      have hrest := ih h.tail hnames
      rw [List.flatMap_cons, List.flatMap_cons]
      obtain ⟨key, identities⟩ := group
      cases identities with
      | nil =>
          rw [List.nil_append, hrest]
          rfl
      | cons first rest =>
          have hown := h.own _ List.mem_cons_self
          have hfirst : first.pipeline = key := hown first List.mem_cons_self
          have hsame : ∀ identity ∈ rest, identity.pipeline = first.pipeline := fun identity hmem =>
            (hown identity (List.mem_cons_of_mem _ hmem)).trans hfirst.symm
          have htake : (rest ++ groups.flatMap Prod.snd).takeWhile
              (·.pipeline = first.pipeline) = rest := by
            rw [List.takeWhile_append_of_pos (by simpa using hsame),
              List.takeWhile_eq_nil_iff.mpr, List.append_nil]
            intro hpos heq
            have hmem := List.getElem_mem hpos
            exact h.ne _ hmem ((of_decide_eq_true heq).trans hfirst)
          have hdrop : (rest ++ groups.flatMap Prod.snd).dropWhile
              (·.pipeline = first.pipeline) = groups.flatMap Prod.snd := by
            have happend := List.takeWhile_append_dropWhile
              (p := fun identity => identity.pipeline = first.pipeline)
              (l := rest ++ groups.flatMap Prod.snd)
            rw [htake] at happend
            exact List.append_cancel_left happend
          rw [List.cons_append, processRows, htake, hdrop, hdrawn, hrest]
          rfl

/-- The text of a row of the process tree. -/
def processRow (nameWidth : ℕ) (processName : String) (incoming outgoing dropped errored : ℕ) :
    String :=
  "  " ++ padRight nameWidth processName ++ " " ++ cell incoming "in" ++ "  " ++
    cell outgoing "out" ++ "  " ++ cell dropped "dropped" ++ "  " ++ cell errored "errored" ++ "\n"

/-- The line above the processes of a pipeline. -/
def pipelineHeader (name : String) : String := "  " ++ name ++ "\n"

/-- The text of a frame's row, with the values that the families hold for it. -/
def textOf (value : String → ProcessIdentity → ℕ) (nameWidth : ℕ)
    (row : ProcessIdentity × String × String) : String :=
  processRow nameWidth row.2.1 (value processEventsInTotal row.1)
    (value processEventsOutTotal row.1) (value eventsDroppedTotal row.1)
    (value processEventsErroredTotal row.1)

/-- The rows of frames, where those before are of `current`. -/
def linesOf (value : String → ProcessIdentity → ℕ) (nameWidth : ℕ) :
    Option String → List (ProcessIdentity × String × String) → List String
  | _, [] => []
  | current, row :: rest =>
    ((if current ≠ some row.1.pipeline then pipelineHeader row.1.pipeline else "") ++
      textOf value nameWidth row) :: linesOf value nameWidth (some row.1.pipeline) rest

theorem processLines_eq {families : List (String × ProcessMetricValues)}
    {value : String → ProcessIdentity → ℕ} (nameWidth : ℕ) (current : Option String)
    {rows : List (ProcessIdentity × String × String)}
    (hvalue : ∀ row ∈ rows, ∀ name ∈ processMetrics,
      metricValue families name row.1 = some (value name row.1)) :
    processLines families false nameWidth current rows =
      some (linesOf value nameWidth current rows) := by
  induction rows generalizing current with
  | nil => rfl
  | cons row rest ih =>
      obtain ⟨hrow, hrest⟩ := List.forall_mem_cons.mp hvalue
      have hline : processLine families false nameWidth (current ≠ some row.1.pipeline) row =
          some ((if current ≠ some row.1.pipeline then pipelineHeader row.1.pipeline else "") ++
            textOf value nameWidth row) := by
        rw [processLine, hrow processEventsInTotal (by decide),
          hrow processEventsOutTotal (by decide),
          hrow eventsDroppedTotal (by decide), hrow processEventsErroredTotal (by decide)]
        simp [textOf, processRow, pipelineHeader, String.append_assoc]
      rw [processLines, hline, linesOf]
      change (processLines _ _ _ _ _ >>= _) = _
      rw [ih _ hrest]
      rfl

/-- The rows of a pipeline, behind its name. -/
def block (value : String → ProcessIdentity → ℕ) (nameWidth : ℕ)
    (rows : List (ProcessIdentity × String × String)) (name : String) : String :=
  if rows = [] then "" else pipelineHeader name ++ String.join (rows.map (textOf value nameWidth))

section Lines

variable {value : String → ProcessIdentity → ℕ} {nameWidth : ℕ}

/-- Within a pipeline its name is not repeated. -/
theorem linesOf_same {name : String} {rows : List (ProcessIdentity × String × String)}
    (hrows : ∀ row ∈ rows, row.1.pipeline = name)
    (rest : List (ProcessIdentity × String × String)) :
    linesOf value nameWidth (some name) (rows ++ rest) =
      rows.map (textOf value nameWidth) ++ linesOf value nameWidth (some name) rest := by
  induction rows with
  | nil => rfl
  | cons row rows ih =>
      obtain ⟨rfl, hrows⟩ := List.forall_mem_cons.mp hrows
      rw [List.cons_append, linesOf, ih hrows]
      simp

/-- **The text of the rows**, pipeline by pipeline. -/
theorem join_linesOf (value : String → ProcessIdentity → ℕ) (nameWidth : ℕ)
    {groups : List (String × List (ProcessIdentity × String × String))}
    (hkeys : (Entries.keys groups).Nodup)
    (hown : ∀ group ∈ groups, ∀ row ∈ group.2, row.1.pipeline = group.1)
    (current : Option String) (hcurrent : ∀ name ∈ current, name ∉ Entries.keys groups) :
    String.join (linesOf value nameWidth current (groups.flatMap Prod.snd)) =
      String.join (groups.map fun group => block value nameWidth group.2 group.1) := by
  induction groups generalizing current with
  | nil => rfl
  | cons group groups ih =>
      obtain ⟨name, rows⟩ := group
      obtain ⟨hnew, hrest⟩ := List.nodup_cons.mp hkeys
      obtain ⟨hgroup, hothers⟩ := List.forall_mem_cons.mp hown
      rw [List.flatMap_cons, List.map_cons, String.join_cons]
      cases rows with
      | nil =>
          rw [List.nil_append, block, if_pos rfl, String.empty_append]
          exact ih hrest hothers current fun other hother hmem =>
            hcurrent other hother (List.mem_cons_of_mem _ hmem)
      | cons row rows =>
          obtain ⟨hrow, hrows⟩ := List.forall_mem_cons.mp hgroup
          have hrow : row.1.pipeline = name := hrow
          have hheader : current ≠ some name := fun heq =>
            hcurrent name (heq ▸ rfl) List.mem_cons_self
          have hnext := ih hrest hothers (some name) fun other hother => by
            obtain rfl := Option.some.inj hother
            exact hnew
          dsimp only
          rw [List.cons_append, linesOf, hrow, if_pos hheader, linesOf_same hrows, block,
            if_neg (List.cons_ne_nil _ _), String.join_cons, String.join_append, hnext,
            List.map_cons, String.join_cons]
          simp only [String.append_assoc]

end Lines

/-! ## The table -/

/-- What a series of a frame holds. -/
def frameValue (readings : Readings) (name : String) (identity : ProcessIdentity) : ℕ :=
  readings.value ⟨name, identityLabels identity⟩

/-- The process tree of the table. -/
def processTable (readings : Readings)
    (names : String × List ProcessIdentity → List (String × String)) (width : ℕ)
    (groups : List (String × List ProcessIdentity)) : String :=
  (if groups.flatMap Prod.snd = [] then "" else "\nProcesses:\n") ++
    String.join (groups.map fun group =>
      block (frameValue readings) width (drawnRows names group) group.1)

section Render

variable {readings : Readings} {scopes : Scopes} {seen : List String} {families : Families}
  {groups : List (String × List ProcessIdentity)}
  {names : String × List ProcessIdentity → List (String × String)}

theorem Held.metricValue_frame (h : Held readings scopes seen families)
    (hseen : scopes.identities ≠ [] → ∀ name ∈ processMetrics, name ∈ seen)
    {identity : ProcessIdentity} (hidentity : identity ∈ scopes.identities) :
    ∀ name ∈ processMetrics,
      Ctl.metricValue families.processes name identity =
        some (frameValue readings name identity) := by
  intro name hname
  have hne := List.ne_nil_of_mem hidentity
  rw [Ctl.metricValue, h.processes, if_pos ⟨hseen hne name hname, hname, hne⟩]
  exact lookup_mapOf hidentity (frameValue readings name)

/-- **The section of the processes.** -/
theorem Held.processSection (h : Held readings scopes seen families)
    (hseen : scopes.identities ≠ [] → ∀ name ∈ processMetrics, name ∈ seen)
    (hgroups : scopes.identities = groups.flatMap Prod.snd) (hgrouped : Grouped groups)
    (hsorted : scopes.identities.Pairwise (· ≤ ·))
    (hnames : ∀ group ∈ groups, processTreeNames group.2 = some (names group)) :
    ∃ width, processSection families.processes false
        (if scopes.identities = [] then none
          else some (scopes.processes readings processEventsInTotal)) =
      some (processTable readings names width groups) := by
  have hrows := processRows_groups hgrouped hnames
  refine ⟨nameWidth (groups.flatMap (drawnRows names)), ?_⟩
  -- without a process there is no section
  by_cases hnone : scopes.identities = []
  · rw [if_pos hnone, processTable, if_pos (hgroups ▸ hnone)]
    have hempty : ∀ group ∈ groups, drawnRows names group = [] := by
      intro group hgroup
      have hnil : group.2 = [] := List.flatMap_eq_nil_iff.mp (hgroups ▸ hnone) group hgroup
      rw [drawnRows, hnil, List.zip_nil_left]
    have hblocks : groups.map (fun group => block (frameValue readings)
        (nameWidth (groups.flatMap (drawnRows names))) (drawnRows names group) group.1) =
          groups.map fun _ => "" :=
      List.map_congr_left fun group hgroup => if_pos (hempty group hgroup)
    have hjoin : ∀ groups : List (String × List ProcessIdentity),
        String.join (groups.map fun _ => "") = "" := by
      intro groups
      induction groups with
      | nil => rfl
      | cons group rest ih => rw [List.map_cons, String.join_cons, ih, String.empty_append]
    rw [hblocks, hjoin]
    rfl
  · have hkeys : Entries.keys (scopes.processes readings processEventsInTotal) =
        groups.flatMap Prod.snd := by
      rw [Scopes.processes, keys_mapOf, hsorted.insertionSort_eq, hgroups]
    have hmem : ∀ group ∈ groups, ∀ row ∈ drawnRows names group, row.1 ∈ group.2 :=
      fun group _ row hrow => (List.of_mem_zip hrow).1
    have hvalue : ∀ row ∈ groups.flatMap (drawnRows names), ∀ name ∈ processMetrics,
        Ctl.metricValue families.processes name row.1 = some (frameValue readings name row.1) := by
      intro row hrow
      obtain ⟨group, hgroup, hrow⟩ := List.mem_flatMap.mp hrow
      refine h.metricValue_frame hseen ?_
      rw [hgroups]
      exact List.mem_flatMap.mpr ⟨group, hgroup, hmem group hgroup row hrow⟩
    -- the lines of all groups are those of the groups, one after another
    have hlines := processLines_eq (nameWidth (groups.flatMap (drawnRows names))) none hvalue
    have hnodup :
        (Entries.keys (groups.map fun group => (group.1, drawnRows names group))).Nodup := by
      simpa [Entries.keys, Function.comp_def] using hgrouped.keys
    have hjoin := join_linesOf (frameValue readings)
      (nameWidth (groups.flatMap (drawnRows names))) hnodup (fun entry hentry row hrow => by
        obtain ⟨group, hgroup, rfl⟩ := List.mem_map.mp hentry
        exact hgrouped.own group hgroup row.1 (hmem group hgroup row hrow)) none
        fun _ h => by cases h
    rw [List.flatMap_map, List.map_map] at hjoin
    rw [if_neg hnone, Ctl.processSection, hkeys, hrows]
    simp only [Option.bind_eq_bind, Option.bind_some, hlines]
    rw [processTable, if_neg (hgroups ▸ hnone)]
    exact congrArg (fun text => some ("\nProcesses:\n" ++ text)) hjoin

/-- **The table.** -/
theorem exists_table (readings : Readings) {rt : Dsl.Runtime} {registry : Registry}
    (hok : registry.Ok rt)
    (hcovers : scopes.Covers registry.families)
    (hgroups : scopes.identities = groups.flatMap Prod.snd) (hgrouped : Grouped groups)
    (hsorted : scopes.identities.Pairwise (· ≤ ·))
    (hnames : ∀ group ∈ groups, processTreeNames group.2 = some (names group)) :
    ∃ (pipelines inputs outputs : List String) (width : ℕ),
      pipelines.length = scopes.pipelines.length ∧ inputs.length = scopes.inputs.length ∧
      outputs.length = scopes.outputs.length ∧
      renderDefaultStats (registry.snapshot readings) =
        some ("Pipelines:\n" ++ String.join pipelines ++ "\nInputs:\n" ++ String.join inputs ++
          "\nOutputs:\n" ++ String.join outputs ++ processTable readings names width groups) := by
  obtain ⟨families, hread, hheld⟩ := exists_families readings hok hcovers
  have hseen : ∀ name label, knownMetricLabel name = some label →
      name ∈ (registry.families.map RegistryCore.MetricFamily.name).reverse :=
    fun name label hlabel => List.mem_reverse.mpr (hcovers.known name label hlabel)
  have hpresent : scopes.identities ≠ [] → ∀ name ∈ processMetrics,
      name ∈ (registry.families.map RegistryCore.MetricFamily.name).reverse :=
    fun hne name hname => List.mem_reverse.mpr (hcovers.present hne name hname)
  have hgroup : ∀ (label : String) {names : List String},
      (∀ name ∈ names, knownMetricLabel name = some label) → ∀ name ∈ names,
        name ∈ (registry.families.map RegistryCore.MetricFamily.name).reverse ∧
          knownMetricLabel name = some label :=
    fun _ _ hlabels name hname => ⟨hseen name _ (hlabels name hname), hlabels name hname⟩
  obtain ⟨hpipelineRows, hinputRows, houtputRows⟩ := hheld.rows hseen
  obtain ⟨pipelines, hpipelines, hpipelineCount⟩ := hheld.groupRows
    (hseen "limpid_pipeline_events_received_total" _ rfl) rfl hpipelineRows
  obtain ⟨inputs, hinputs, hinputCount⟩ := hheld.groupRows
    (hseen "limpid_input_events_received_total" _ rfl) rfl hinputRows
  obtain ⟨outputs, houtputs, houtputCount⟩ := hheld.groupRows
    (hseen "limpid_output_events_received_total" _ rfl) rfl houtputRows
  obtain ⟨width, hprocesses⟩ := hheld.processSection hpresent hgroups hgrouped hsorted hnames
  refine ⟨pipelines, inputs, outputs, width, hpipelineCount, hinputCount, houtputCount, ?_⟩
  have hvalidPipelines : validateMetricGroup families.values pipelineMetrics = some () :=
    hheld.validateMetricGroup (hgroup "pipeline" (by decide))
  have hvalidInputs : validateMetricGroup families.values inputMetrics = some () :=
    hheld.validateMetricGroup (hgroup "input" (by decide))
  have hvalidOutputs : validateMetricGroup families.values outputMetrics = some () :=
    hheld.validateMetricGroup (hgroup "output" (by decide))
  have hschema : (registry.snapshot readings).schema = 1 := rfl
  rw [renderDefaultStats, renderDefaultStatsInner, if_neg (not_not.mpr hschema), hread]
  simp only [Option.bind_eq_bind, Option.bind_some, hvalidPipelines, hvalidInputs, hvalidOutputs,
    if_pos, hheld.validateProcessMetricGroup hpresent, hpipelines, hinputs, houtputs, hprocesses]
  rfl

end Render

end Limpid.Ctl
