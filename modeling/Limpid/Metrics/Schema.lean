import Mathlib.Data.Prod.Lex
import Mathlib.Data.String.Basic
import Limpid.Entries
import Limpid.Dsl.Value

/-!
# The metrics schema

The wire form of a metrics snapshot (`limpid-metrics-schema`), which the daemon writes and the
Prometheus sidecar reads, and the names the two share: of the families of the dropped hierarchy,
of the labels of a process frame, and the paths of process frames.

The labels of a series are a map from names to values, listed in the order of the names.
-/

namespace Limpid.Metrics

open Dsl

/-- Labels and their values. -/
abbrev Labels := List (String × String)

/-- The order of `(String, String)`. -/
abbrev LabelLe : String × String → String × String → Prop := Prod.Lex (· < ·) (· ≤ ·)

/-! ## Names -/

/-- `PROCESS_EVENTS_IN_TOTAL`. -/
def processEventsInTotal : String := "limpid_process_events_in_total"

/-- `PROCESS_EVENTS_OUT_TOTAL`. -/
def processEventsOutTotal : String := "limpid_process_events_out_total"

/-- `PROCESS_EVENTS_ERRORED_TOTAL`. -/
def processEventsErroredTotal : String := "limpid_process_events_errored_total"

/-- `EVENTS_DROPPED_TOTAL`. -/
def eventsDroppedTotal : String := "limpid_events_dropped_total"

/-- `EVENTS_DROPPED_OWN_TOTAL`. -/
def eventsDroppedOwnTotal : String := "limpid_events_dropped_own_total"

/-- `PROCESS_LABEL_PIPELINE`. -/
def processLabelPipeline : String := "pipeline"

/-- `PROCESS_LABEL_STEP`. -/
def processLabelStep : String := "step"

/-- `PROCESS_LABEL_PATH`. -/
def processLabelPath : String := "process_path"

/-- `PROCESS_LABEL_NAME`. -/
def processLabelName : String := "process_name"

/-- `PROCESS_PATH_SEPARATOR`. -/
def processPathSeparator : Char := '/'

/-- `PROCESS_PATH_ROOT`. -/
def processPathRoot : String := "/"

/-- `DROPPED_ROOT_STEP`. -/
def droppedRootStep : String := "0"

/-- `DROPPED_ROOT_PROCESS_NAME`. -/
def droppedRootProcessName : String := ""

/-! ## Paths -/

/-- `str::rsplit_once` at the separator. -/
def rsplitOnce (text : List Char) : Option (List Char × List Char) :=
  if processPathSeparator ∈ text then
    let leaf := text.reverse.takeWhile (· ≠ processPathSeparator)
    some ((text.reverse.drop (leaf.length + 1)).reverse, leaf.reverse)
  else none

/-- `is_process_path`. -/
def isProcessPath (path : String) : Bool :=
  path = processPathRoot ||
    match path.toList with
    | [] => false
    | first :: suffix =>
        first = processPathSeparator && !suffix.isEmpty &&
          (suffix.splitOn processPathSeparator).all fun part => !part.isEmpty

/-- `process_path_parent`. -/
def processPathParent (path : String) : Option String :=
  if !isProcessPath path || path = processPathRoot then none
  else
    match rsplitOnce path.toList with
    | none => none
    | some (parent, _) => some (if parent.isEmpty then processPathRoot else String.ofList parent)

/-- `process_path_leaf`. -/
def processPathLeaf (path : String) : Option String :=
  if !isProcessPath path || path = processPathRoot then none
  else (rsplitOnce path.toList).map fun (_, leaf) => String.ofList leaf

section Paths

variable {base name : List Char}

/-- The last separator is the one before the leaf. -/
theorem rsplitOnce_append (hname : processPathSeparator ∉ name) :
    rsplitOnce (base ++ processPathSeparator :: name) = some (base, name) := by
  have htake : (name.reverse ++ processPathSeparator :: base.reverse).takeWhile
      (· ≠ processPathSeparator) = name.reverse := by
    rw [List.takeWhile_append_of_pos (fun c hc => by
      refine decide_eq_true fun heq => hname ?_
      exact heq ▸ List.mem_reverse.mp hc)]
    simp
  unfold rsplitOnce
  rw [if_pos (List.mem_append_right _ List.mem_cons_self)]
  have hreverse : (base ++ processPathSeparator :: name).reverse =
      name.reverse ++ processPathSeparator :: base.reverse := by simp
  rw [hreverse]
  dsimp only
  rw [htake]
  simp [List.drop_append, List.drop_eq_nil_of_le]

/-- A name has one part. -/
theorem splitOn_eq_singleton {text : List Char} (htext : processPathSeparator ∉ text) :
    text.splitOn processPathSeparator = [text] := by
  induction text with
  | nil => rfl
  | cons c rest ih =>
      rw [List.mem_cons, not_or] at htext
      have hne : c ≠ processPathSeparator := Ne.symm htext.1
      rw [List.splitOn_cons_eq_if_modifyHead, if_neg (by simpa using hne), ih htext.2]
      rfl

/-- A name under a path, as characters. -/
theorem toList_under (path name : String) :
    (path ++ "/" ++ name).toList = path.toList ++ processPathSeparator :: name.toList := by
  rw [String.toList_append, String.toList_append, List.append_assoc]
  rfl

/-- The parent of a frame under the top is the top. -/
theorem processPathParent_top {name : String} (hne : name ≠ "")
    (hname : processPathSeparator ∉ name.toList) :
    processPathParent ("/" ++ name) = some processPathRoot := by
  have hlist : ("/" ++ name).toList = [] ++ processPathSeparator :: name.toList := by
    rw [String.toList_append]
    rfl
  have hnonempty : name.toList ≠ [] := fun h => hne (String.toList_eq_nil_iff.mp h)
  have hroot : "/" ++ name ≠ processPathRoot := fun h => by
    rw [← String.toList_inj, hlist] at h
    exact hnonempty (List.cons.inj h).2
  have hpath : isProcessPath ("/" ++ name) = true := by
    rw [isProcessPath, hlist, List.nil_append]
    dsimp only
    rw [splitOn_eq_singleton hname]
    simp [hnonempty]
  rw [processPathParent, hlist, rsplitOnce_append hname, hpath]
  simp [hroot]

/-- The parent of any other frame is the frame above it. -/
theorem processPathParent_below {path name parent : String}
    (hname : processPathSeparator ∉ name.toList) (hpath : path ≠ "")
    (h : processPathParent (path ++ "/" ++ name) = some parent) : parent = path := by
  rw [processPathParent, toList_under, rsplitOnce_append hname] at h
  split at h
  · exact nomatch h
  · have hnonempty : path.toList.isEmpty = false := by
      simpa using hpath
    dsimp only at h
    rw [hnonempty] at h
    simpa using (Option.some.inj h).symm

theorem under_ne_root {path name : String} (hne : name ≠ "") :
    path ++ "/" ++ name ≠ processPathRoot := by
  intro h
  have hlength := congrArg (fun text : String => text.toList.length) h
  have hname : 0 < name.toList.length :=
    List.length_pos_iff.mpr fun hnil => hne (String.toList_eq_nil_iff.mp hnil)
  rw [toList_under, List.length_append, List.length_cons] at hlength
  change _ = 1 at hlength
  omega

/-- A name makes a process path of another one, or of nothing. -/
theorem isProcessPath_under {path name : String} (hne : name ≠ "")
    (hname : processPathSeparator ∉ name.toList)
    (hpath : path = "" ∨ isProcessPath path = true ∧ path ≠ processPathRoot) :
    isProcessPath (path ++ "/" ++ name) = true := by
  have hnonempty : name.toList ≠ [] := fun h => hne (String.toList_eq_nil_iff.mp h)
  rw [isProcessPath, toList_under]
  rcases hpath with rfl | ⟨hpath, hroot⟩
  · change (_ || (_ && _)) = true
    simp [splitOn_eq_singleton hname, hnonempty]
  · rw [isProcessPath, decide_eq_false hroot, Bool.false_or] at hpath
    cases hlist : path.toList with
    | nil =>
        rw [hlist] at hpath
        exact absurd hpath Bool.false_ne_true
    | cons first suffix =>
        rw [hlist] at hpath
        simp only [Bool.and_eq_true, decide_eq_true_eq] at hpath
        obtain ⟨⟨hfirst, -⟩, hall⟩ := hpath
        simp only [List.cons_append, List.splitOn_append_cons_self, splitOn_eq_singleton hname,
          List.all_append, hall, hfirst]
        simp [hnonempty]

/-- The leaf of a path is the name that it ends with. -/
theorem processPathLeaf_under {path name : String} (hne : name ≠ "")
    (hname : processPathSeparator ∉ name.toList)
    (hpath : isProcessPath (path ++ "/" ++ name) = true) :
    processPathLeaf (path ++ "/" ++ name) = some name := by
  rw [processPathLeaf, hpath, toList_under, rsplitOnce_append hname]
  simp [under_ne_root hne]

theorem length_of_rsplitOnce {text parent leaf : List Char}
    (h : rsplitOnce text = some (parent, leaf)) : parent.length < text.length := by
  unfold rsplitOnce at h
  split at h
  · next hmem =>
    obtain ⟨hparent, -⟩ := Prod.mk.inj (Option.some.inj h)
    have hpos := List.length_pos_of_mem hmem
    rw [← hparent, List.length_reverse, List.length_drop, List.length_reverse]
    omega
  · exact nomatch h

/-- No path is its own parent. -/
theorem processPathParent_ne_self (path : String) : processPathParent path ≠ some path := by
  intro h
  unfold processPathParent at h
  split at h
  · exact nomatch h
  · next hroot =>
    split at h
    · exact nomatch h
    · next parent leaf hsplit =>
      have hlength := length_of_rsplitOnce hsplit
      have heq := Option.some.inj h
      split at heq
      · rw [← heq] at hroot
        simp at hroot
      · rw [← heq, String.toList_ofList] at hlength
        exact absurd hlength (Nat.lt_irrefl _)

end Paths

/-! ## Snapshots -/

/-- `first < second` of `f64`. -/
def f64Lt (rt : Runtime) (first second : F64) : Bool := rt.partialCmp first second = some .lt

/-- A runtime of two floats, `0` and `1`. -/
def twoFloats : Runtime where
  ofInt _ := .zero
  ofUInt _ := .zero
  toInt _ := 0
  add _ _ := .zero
  sub _ _ := .zero
  mul _ _ := .zero
  div _ _ := .zero
  rem _ _ := .zero
  neg _ := .zero
  eq first second := first = second
  partialCmp first second :=
    if first = second then some .eq else if first = .zero then some .lt else some .gt
  isNan _ := false
  isFinite x := x = .zero || x = .one
  fract _ := .zero
  parse text := if text = "0" then some .zero else if text = "1" then some .one else none
  display x := if x = .zero then "0" else if x = .one then "1" else "inf"
  toRfc3339 _ := ""
  debug text := text

/-- `MetricType`. -/
inductive MetricType where
  | counter | gauge | histogram
deriving DecidableEq

/-- The label map of a series. -/
structure LabelMap where
  entries : Labels
  sorted : (Entries.keys entries).Pairwise (· < ·)

/-- `ValueSeries`. -/
structure ValueSeries where
  labels : LabelMap
  value : ℕ

/-- `HistogramSeries`. -/
structure HistogramSeries where
  labels : LabelMap
  buckets : List (F64 × ℕ)
  sum : F64
  count : ℕ

/-- `MetricFamily`. -/
inductive MetricFamily where
  | counter (name help : String) (series : List ValueSeries)
  | gauge (name help : String) (series : List ValueSeries)
  | histogram (name help : String) (series : List HistogramSeries)

namespace MetricFamily

/-- The name of a family. -/
def name : MetricFamily → String
  | counter name _ _ => name
  | gauge name _ _ => name
  | histogram name _ _ => name

/-- The help text of a family. -/
def help : MetricFamily → String
  | counter _ help _ => help
  | gauge _ help _ => help
  | histogram _ help _ => help

/-- The type of a family. -/
def metricType : MetricFamily → MetricType
  | counter .. => .counter
  | gauge .. => .gauge
  | histogram .. => .histogram

/-- The series of a counter or a gauge. -/
def valueSeries : MetricFamily → Option (List ValueSeries)
  | counter _ _ series => some series
  | gauge _ _ series => some series
  | histogram .. => none

end MetricFamily

/-- `MetricsSnapshot`. -/
structure MetricsSnapshot where
  schema : ℕ
  metrics : List MetricFamily

/-- A snapshot of the present schema. -/
def MetricsSnapshot.new (metrics : List MetricFamily) : MetricsSnapshot := ⟨1, metrics⟩

end Limpid.Metrics
