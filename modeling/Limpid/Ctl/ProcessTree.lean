import Limpid.Ctl.Stats
import Limpid.Prometheus.OwnDrops

/-!
# The process tree of a pipeline

What the client draws for the frames of a compiled pipeline is the forest of its metric nodes.  The
nodes stand in the table with those below a node right behind it (`Listed`), so the client's two
scans meet them in pre-order: the frames it keeps are those above the next one
(`checkAncestors_listed`), and the first frame behind one that is not deeper tells whether that one
is the last at its place (`drawNames_listed`).
-/

namespace Limpid.Ctl

open Metrics
open Pipeline.Blueprint
open Prometheus (Framed)

/-- The nodes above a node, from the top. -/
inductive Above (nodes : List MetricNodeDescriptor) : ℕ → List ℕ → Prop where
  | top {id : ℕ} {node : MetricNodeDescriptor} (hnode : nodes[id]? = some node)
      (hparent : node.parent = none) : Above nodes id []
  | under {id p : ℕ} {node : MetricNodeDescriptor} {above : List ℕ}
      (hnode : nodes[id]? = some node) (hparent : node.parent = some p)
      (habove : Above nodes p above) : Above nodes id (above ++ [p])

/-- The last child of its parent, or the last root. -/
def isLastChild (pipeline : PipelineBlueprint) (id : ℕ) : Bool :=
  match (pipeline.metricNodes[id]?).bind fun node => node.parent with
  | none => pipeline.roots.getLast? = some id
  | some p => ((pipeline.metricNodes[p]?).bind fun node => node.children.getLast?) = some id

/-- The branches before a node: a column for each node above it, blank below a last one, and a
corner that is closed before a last one. -/
def drawing (pipeline : PipelineBlueprint) (above : List ℕ) (id : ℕ) : String :=
  String.join (above.map fun ancestor => if isLastChild pipeline ancestor then "   " else "│  ") ++
    if isLastChild pipeline id then "└─ " else "├─ "

/-- A node's name as it is to be drawn. -/
def Drawn (pipeline : PipelineBlueprint) (id : ℕ) (text : String) : Prop :=
  ∃ node above, pipeline.metricNodes[id]? = some node ∧ Above pipeline.metricNodes id above ∧
    text = drawing pipeline above id ++ node.processName

/-- The frame of a node as the client knows it. -/
def identity (name : String) (node : MetricNodeDescriptor) : ProcessIdentity :=
  ⟨name, node.step, node.processPath, node.processName⟩

section Tree

variable {name : String} {pipeline : PipelineBlueprint}

/-- The frames from `lo` on and before `hi`. -/
def frames (name : String) (pipeline : PipelineBlueprint) (lo hi : ℕ) : List ProcessIdentity :=
  ((pipeline.metricNodes.take hi).drop lo).map (identity name)

theorem frames_self (lo : ℕ) : frames name pipeline lo lo = [] := by
  simp [frames]

theorem frames_append {lo mid hi : ℕ} (hlo : lo ≤ mid) (hhi : mid ≤ hi) :
    frames name pipeline lo hi = frames name pipeline lo mid ++ frames name pipeline mid hi := by
  have hsplit : pipeline.metricNodes.take hi
      = pipeline.metricNodes.take mid ++ (pipeline.metricNodes.take hi).drop mid := by
    conv_lhs => rw [← List.take_append_drop mid (pipeline.metricNodes.take hi)]
    rw [List.take_take, min_eq_left hhi]
  have hdrop : ((pipeline.metricNodes.take hi).drop mid).drop
      (lo - (pipeline.metricNodes.take mid).length) = (pipeline.metricNodes.take hi).drop mid := by
    rcases Nat.lt_or_ge (pipeline.metricNodes.take mid).length lo with hlt | hle
    · have hnil : (pipeline.metricNodes.take hi).drop mid = [] := by
        rw [List.drop_eq_nil_iff, List.length_take]
        rw [List.length_take] at hlt
        omega
      rw [hnil, List.drop_nil]
    · rw [Nat.sub_eq_zero_of_le hle, List.drop_zero]
  rw [frames, hsplit, List.drop_append, hdrop, List.map_append]
  rfl

theorem frames_cons {lo hi : ℕ} {node : MetricNodeDescriptor} (hlt : lo < hi)
    (hnode : pipeline.metricNodes[lo]? = some node) :
    frames name pipeline lo hi = identity name node :: frames name pipeline (lo + 1) hi := by
  have hget : (pipeline.metricNodes.take hi)[lo]? = some node := by
    rw [List.getElem?_take_of_lt hlt, hnode]
  obtain ⟨hlength, hnode⟩ := List.getElem?_eq_some_iff.mp hget
  rw [frames, List.drop_eq_getElem_cons hlength, hnode]
  rfl

/-- A frame is one deeper than the number of those above it. -/
theorem depth_identity (name : String) (h : Framed pipeline) {id : ℕ} {above : List ℕ}
    (habove : Above pipeline.metricNodes id above) {node : MetricNodeDescriptor}
    (hnode : pipeline.metricNodes[id]? = some node) :
    (identity name node).depth = above.length + 1 := by
  have hname {node : MetricNodeDescriptor} {id : ℕ}
      (hnode : pipeline.metricNodes[id]? = some node) :
      node.processName.toList.count processPathSeparator = 0 :=
    List.count_eq_zero.mpr (h.names node (List.mem_of_getElem? hnode)).2
  change node.processPath.toList.count processPathSeparator = _
  induction habove generalizing node with
  | @top id other hother hparent =>
      obtain rfl := Option.some.inj (hnode.symm.trans hother)
      have hpath : node.processPath.toList = processPathSeparator :: node.processName.toList := by
        rw [h.top id node hnode hparent, String.toList_append]
        rfl
      rw [hpath, List.count_cons_self, hname hnode]
      rfl
  | @under id p other above hother hparent _ ih =>
      obtain rfl := Option.some.inj (hnode.symm.trans hother)
      obtain ⟨parent, hplace, -, heq⟩ := h.below id node p hnode hparent
      have hpath : node.processPath.toList
          = parent.processPath.toList ++ processPathSeparator :: node.processName.toList := by
        rw [heq, childPath, String.toList_append, String.toList_append, List.append_assoc]
        rfl
      rw [hpath, List.count_append, List.count_cons_self, ih hplace, hname hnode,
        List.length_append]
      rfl

theorem Listed.le_of_mem {nodes : List MetricNodeDescriptor} {tops : List ℕ} {lo hi : ℕ}
    (h : Listed nodes tops lo hi) : ∀ top ∈ tops, lo ≤ top := by
  induction h with
  | nil => simp
  | cons _ hbelow _ _ ih =>
      refine List.forall_mem_cons.mpr ⟨le_rfl, fun top htop => ?_⟩
      have hle := hbelow.le
      have hge := ih top htop
      omega

/-- The tops of a part of the table, all of them under the same nodes. -/
structure Tops (pipeline : PipelineBlueprint) (above tops : List ℕ) : Prop where
  above : ∀ top ∈ tops, Above pipeline.metricNodes top above
  last : ∀ top ∈ tops, isLastChild pipeline top = true ↔ tops.getLast? = some top

theorem Tops.children (h : Framed pipeline) {id : ℕ} {node : MetricNodeDescriptor}
    (hnode : pipeline.metricNodes[id]? = some node) {above : List ℕ}
    (habove : Above pipeline.metricNodes id above) :
    Tops pipeline (above ++ [id]) node.children := by
  constructor
  · intro child hchild
    obtain ⟨-, other, hother, hparent⟩ := h.children id node hnode child hchild
    exact .under hother hparent habove
  · intro child hchild
    obtain ⟨-, other, hother, hparent⟩ := h.children id node hnode child hchild
    simp [isLastChild, hother, hparent, hnode]

theorem Tops.tail {above tops : List ℕ} {top : ℕ} (h : Tops pipeline above (top :: tops)) :
    Tops pipeline above tops := by
  constructor
  · exact fun other hother => h.above other (List.mem_cons_of_mem _ hother)
  · intro other hother
    rw [h.last other (List.mem_cons_of_mem _ hother), List.getLast?_cons]
    cases hlast : tops.getLast? with
    | none => exact absurd hother (List.getLast?_eq_none_iff.mp hlast ▸ List.not_mem_nil)
    | some last => simp

/-- A top is the last of its place exactly when none is left. -/
theorem Tops.last_head {above tops : List ℕ} {top : ℕ} (h : Tops pipeline above (top :: tops))
    (hnew : top ∉ tops) : isLastChild pipeline top = true ↔ tops = [] := by
  rw [h.last top List.mem_cons_self, List.getLast?_cons]
  cases hlast : tops.getLast? with
  | none => simpa using List.getLast?_eq_none_iff.mp hlast
  | some last =>
      have hmem := List.mem_of_getLast? hlast
      have hne : last ≠ top := fun heq => hnew (heq ▸ hmem)
      simp [hne, List.ne_nil_of_mem hmem]

/-- Everything below a top is deeper. -/
theorem lt_depth_of_listed (h : Framed pipeline) {tops : List ℕ} {lo hi : ℕ}
    (hlisted : Listed pipeline.metricNodes tops lo hi) {above : List ℕ}
    (htops : Tops pipeline above tops) :
    ∀ frame ∈ frames name pipeline lo hi, above.length < frame.depth := by
  induction hlisted generalizing above with
  | nil => simp [frames_self]
  | @cons lo mid hi node tops hnode hbelow hrest ihbelow ihrest =>
      have hle := hbelow.le
      have hle' := hrest.le
      have habove := htops.above lo List.mem_cons_self
      rw [frames_cons (by omega) hnode, frames_append hle hle']
      refine List.forall_mem_cons.mpr ⟨?_, List.forall_mem_append.mpr ⟨fun frame hframe => ?_,
        ihrest htops.tail⟩⟩
      · rw [depth_identity name h habove hnode]
        omega
      · have hdeep := ihbelow (.children h hnode habove) frame hframe
        rw [List.length_append] at hdeep
        omega

/-- The frames above, as the client keeps them. -/
def kept (name : String) (pipeline : PipelineBlueprint) (above : List ℕ) : List ProcessIdentity :=
  (above.filterMap fun id => pipeline.metricNodes[id]?).map (identity name)

theorem kept_concat {above : List ℕ} {id : ℕ} {node : MetricNodeDescriptor}
    (hnode : pipeline.metricNodes[id]? = some node) :
    kept name pipeline (above ++ [id]) = kept name pipeline above ++ [identity name node] := by
  simp [kept, hnode]

theorem length_kept (name : String) {id : ℕ} {above : List ℕ}
    (habove : Above pipeline.metricNodes id above)
    (h : Framed pipeline) : (kept name pipeline above).length = above.length := by
  induction habove with
  | top => rfl
  | under hnode hparent _ ih =>
      obtain ⟨parent, hplace, -⟩ := h.below _ _ _ hnode hparent
      rw [kept_concat hplace, List.length_append, List.length_append, ih]
      rfl

/-- **One frame is checked.** -/
theorem checkAncestors_cons (h : Framed pipeline) {id : ℕ} {above : List ℕ}
    (habove : Above pipeline.metricNodes id above) {node : MetricNodeDescriptor}
    (hnode : pipeline.metricNodes[id]? = some node) {active rest : List ProcessIdentity}
    (hactive : active.take above.length = kept name pipeline above) :
    checkAncestors active (identity name node :: rest)
      = checkAncestors (kept name pipeline (above ++ [id])) rest := by
  have hdepth := depth_identity name h habove hnode
  rw [kept_concat hnode, checkAncestors]
  dsimp only
  rw [hdepth, Nat.add_sub_cancel, hactive, if_neg (Nat.succ_ne_zero _)]
  cases habove with
  | top => rfl
  | @under _ p other above hother hparent habove =>
      obtain rfl := Option.some.inj (hnode.symm.trans hother)
      obtain ⟨parent, hplace, -, heq⟩ := h.below id node p hnode hparent
      have hname := (h.names node (List.mem_of_getElem? hnode)).2
      have hpath : node.processPath.toList
          = parent.processPath.toList ++ processPathSeparator :: node.processName.toList := by
        rw [heq, childPath, String.toList_append, String.toList_append, List.append_assoc]
        rfl
      have hlength : (above ++ [p]).length + 1 - 2 = (kept name pipeline above).length := by
        rw [length_kept name habove h, List.length_append]
        rfl
      have hsplit : rsplitOnce (identity name node).processPath.toList
          = some (parent.processPath.toList, node.processName.toList) := by
        change rsplitOnce node.processPath.toList = _
        rw [hpath, rsplitOnce_append hname]
      rw [if_pos (by rw [List.length_append]; simp), kept_concat hplace, hlength,
        List.getElem?_concat_length, hsplit]
      simp [identity]

/-- **The first scan meets every frame below its parent.** -/
theorem checkAncestors_listed (name : String) (h : Framed pipeline) {tops : List ℕ} {lo hi : ℕ}
    (hlisted : Listed pipeline.metricNodes tops lo hi) {above : List ℕ}
    (htops : Tops pipeline above tops) {active : List ProcessIdentity}
    (hactive : active.take above.length = kept name pipeline above)
    (rest : List ProcessIdentity) :
    ∃ active' : List ProcessIdentity, active'.take above.length = kept name pipeline above ∧
      checkAncestors active (frames name pipeline lo hi ++ rest) = checkAncestors active' rest := by
  induction hlisted generalizing above active rest with
  | nil => exact ⟨active, hactive, by rw [frames_self]; rfl⟩
  | @cons lo mid hi node tops hnode hbelow hrest ihbelow ihrest =>
      have hle := hbelow.le
      have hle' := hrest.le
      have habove := htops.above lo List.mem_cons_self
      have hlength := length_kept name habove h
      rw [frames_cons (by omega) hnode, frames_append hle hle', List.cons_append,
        List.append_assoc, checkAncestors_cons h habove hnode hactive]
      have hkept : (kept name pipeline (above ++ [lo])).take (above ++ [lo]).length =
          kept name pipeline (above ++ [lo]) := by
        refine List.take_of_length_le ?_
        rw [kept_concat hnode, List.length_append, List.length_append, hlength]
        simp
      obtain ⟨behind, hbehind, hcheck⟩ := ihbelow (.children h hnode habove) hkept
        (frames name pipeline mid hi ++ rest)
      rw [hcheck]
      refine ihrest htops.tail ?_ rest
      have htake := congrArg (List.take above.length) hbehind
      rwa [List.take_take, min_eq_left (by rw [List.length_append]; omega), kept_concat hnode,
        List.take_left' hlength] at htake

/-- What stands behind a part of the table is no deeper than what is above it. -/
def Shallow (above : List ℕ) (rest : List ProcessIdentity) : Prop :=
  ∀ frame ∈ rest.head?, frame.depth ≤ above.length

/-- The scan for a sibling passes over what is below, and stops at the next sibling or behind the
last one. -/
theorem isLastSibling_iff (name : String) (h : Framed pipeline) {tops : List ℕ} {lo mid hi : ℕ}
    {node : MetricNodeDescriptor} {above : List ℕ} (hnode : pipeline.metricNodes[lo]? = some node)
    (hbelow : Listed pipeline.metricNodes node.children (lo + 1) mid)
    (hrest : Listed pipeline.metricNodes tops mid hi) (htops : Tops pipeline above (lo :: tops))
    {rest : List ProcessIdentity} (hshallow : Shallow above rest) :
    isLastSibling (above.length + 1)
        ((frames name pipeline (lo + 1) mid ++ (frames name pipeline mid hi ++ rest)).map
          ProcessIdentity.depth) = isLastChild pipeline lo := by
  have habove := htops.above lo List.mem_cons_self
  have hskip : ((frames name pipeline (lo + 1) mid).map ProcessIdentity.depth).find?
      (· ≤ above.length + 1) = none := by
    rw [List.find?_eq_none]
    intro depth hdepth
    obtain ⟨frame, hframe, rfl⟩ := List.mem_map.mp hdepth
    have hdeep := lt_depth_of_listed h hbelow (.children h hnode habove) frame hframe
    rw [List.length_append, List.length_singleton] at hdeep
    simpa using hdeep
  have hnew : lo ∉ tops := fun hmem => by
    have hge := Listed.le_of_mem hrest lo hmem
    have hle := hbelow.le
    omega
  rw [isLastSibling, List.map_append, List.find?_append, hskip, Option.none_or]
  cases hrest with
  | nil =>
      rw [frames_self, List.nil_append, (htops.last_head hnew).mpr rfl]
      cases rest with
      | nil => rfl
      | cons frame rest =>
          have hle : frame.depth ≤ above.length := hshallow frame rfl
          simp only [List.map_cons]
          rw [List.find?_cons_of_pos (by simpa using Nat.le_succ_of_le hle)]
          simpa using Nat.lt_succ_of_le hle
  | @cons _ after _ sibling tops hsibling hbelow' hrest' =>
      have hle := hbelow'.le
      have hle' := hrest'.le
      have hlast : isLastChild pipeline lo = false := by
        rw [← Bool.not_eq_true, htops.last_head hnew]
        exact List.cons_ne_nil _ _
      have hdepth := depth_identity name h (htops.tail.above _ List.mem_cons_self) hsibling
      rw [hlast, frames_cons (by omega) hsibling, List.cons_append, List.map_cons, hdepth,
        List.find?_cons_of_pos (by simp)]
      simp

/-- A node, what is below it, and what is behind that. -/
theorem range'_split {lo mid hi : ℕ} (hlo : lo + 1 ≤ mid) (hhi : mid ≤ hi) :
    List.range' lo (hi - lo) =
      lo :: (List.range' (lo + 1) (mid - (lo + 1)) ++ List.range' mid (hi - mid)) := by
  obtain ⟨a, rfl⟩ := Nat.exists_eq_add_of_le hlo
  obtain ⟨b, rfl⟩ := Nat.exists_eq_add_of_le hhi
  rw [show lo + 1 + a + b - lo = a + b + 1 by omega, List.range'_succ, Nat.add_sub_cancel_left,
    Nat.add_sub_cancel_left, List.range'_append_1]

/-- **The second scan draws the forest.** -/
theorem drawNames_listed (name : String) (h : Framed pipeline) {tops : List ℕ} {lo hi : ℕ}
    (hlisted : Listed pipeline.metricNodes tops lo hi) {above : List ℕ}
    (htops : Tops pipeline above tops) {lasts : List Bool}
    (hlasts : lasts.take above.length = above.map (isLastChild pipeline))
    {rest : List ProcessIdentity} (hshallow : Shallow above rest) :
    ∃ (names : List (String × String)) (lasts' : List Bool),
      lasts'.take above.length = above.map (isLastChild pipeline) ∧
      drawNames lasts (frames name pipeline lo hi ++ rest) = names ++ drawNames lasts' rest ∧
      List.Forall₂ (fun id drawn => Drawn pipeline id drawn.1)
        (List.range' lo (hi - lo)) names := by
  induction hlisted generalizing above lasts rest with
  | nil lo =>
      refine ⟨[], lasts, hlasts, by rw [frames_self]; rfl, ?_⟩
      rw [Nat.sub_self]
      exact .nil
  | @cons lo mid hi node tops hnode hbelow hrest ihbelow ihrest =>
      have hle := hbelow.le
      have hle' := hrest.le
      have habove := htops.above lo List.mem_cons_self
      have hdepth := depth_identity name h habove hnode
      have hsibling := isLastSibling_iff name h hnode hbelow hrest htops hshallow
      -- what is behind the nodes below this one is its next sibling, or what was behind it
      have hbehind : Shallow (above ++ [lo]) (frames name pipeline mid hi ++ rest) := by
        intro frame hframe
        rw [List.length_append, List.length_singleton]
        cases hrest with
        | nil =>
            rw [frames_self, List.nil_append] at hframe
            exact Nat.le_succ_of_le (hshallow frame hframe)
        | @cons _ after _ sibling tops hnode' hbelow' hrest' =>
            have hle := hbelow'.le
            have hle' := hrest'.le
            rw [frames_cons (by omega) hnode'] at hframe
            obtain rfl := Option.some.inj hframe
            exact (depth_identity name h (htops.tail.above _ List.mem_cons_self) hnode').le
      have hlasts' : (above.map (isLastChild pipeline) ++ [isLastChild pipeline lo]).take
          (above ++ [lo]).length = (above ++ [lo]).map (isLastChild pipeline) := by
        rw [List.take_of_length_le (by simp), List.map_append]
        rfl
      obtain ⟨inner, lasts₁, hlasts₁, hdraw₁, hnames₁⟩ :=
        ihbelow (.children h hnode habove) hlasts' hbehind
      have htake : lasts₁.take above.length = above.map (isLastChild pipeline) := by
        have heq := congrArg (List.take above.length) hlasts₁
        rwa [List.take_take, min_eq_left (by rw [List.length_append]; omega), List.map_append,
          List.take_left' (by simp)] at heq
      obtain ⟨outer, lasts₂, hlasts₂, hdraw₂, hnames₂⟩ := ihrest htops.tail htake hshallow
      obtain ⟨first, hfirst, hdrawn⟩ : ∃ first : String × String,
          first.1 = drawing pipeline above lo ++ node.processName ∧
          drawNames lasts (frames name pipeline lo hi ++ rest) = first ::
            drawNames (above.map (isLastChild pipeline) ++ [isLastChild pipeline lo])
              (frames name pipeline (lo + 1) mid ++ (frames name pipeline mid hi ++ rest)) := by
        rw [frames_cons (by omega) hnode, frames_append hle hle', List.cons_append,
          List.append_assoc, drawNames, hdepth, Nat.add_sub_cancel, hlasts, hsibling]
        refine ⟨_, ?_, rfl⟩
        simp [drawing, identity, Function.comp_def, ancestorColumn]
      refine ⟨first :: (inner ++ outer), lasts₂, hlasts₂, ?_, ?_⟩
      · rw [hdrawn, hdraw₁, hdraw₂, List.cons_append, List.append_assoc]
      · have hrange : List.range' lo (hi - lo)
            = lo :: (List.range' (lo + 1) (mid - (lo + 1)) ++ List.range' mid (hi - mid)) := by
          obtain ⟨a, rfl⟩ := Nat.exists_eq_add_of_le hle
          obtain ⟨b, rfl⟩ := Nat.exists_eq_add_of_le hle'
          rw [show lo + 1 + a + b - lo = a + b + 1 by omega, List.range'_succ,
            Nat.add_sub_cancel_left, Nat.add_sub_cancel_left, List.range'_append_1]
        rw [hrange]
        exact .cons ⟨node, above, hnode, habove, hfirst⟩ (List.rel_append hnames₁ hnames₂)

/-- **The process tree.**  The names of all frames of a pipeline are drawn as its forest is. -/
theorem processTreeNames_frames (h : Framed pipeline)
    (hlisted : Listed pipeline.metricNodes pipeline.roots 0 pipeline.metricNodes.length) :
    ∃ names, processTreeNames (pipeline.metricNodes.map (identity name)) = some names ∧
      List.Forall₂ (fun id drawn => Drawn pipeline id drawn.1)
        (List.range pipeline.metricNodes.length) names := by
  have htops : Tops pipeline [] pipeline.roots := by
    constructor
    · intro top htop
      obtain ⟨node, hnode, hparent⟩ := mem_roots.mp htop
      exact .top hnode hparent
    · intro top htop
      obtain ⟨node, hnode, hparent⟩ := mem_roots.mp htop
      simp [isLastChild, hnode, hparent]
  have hall : pipeline.metricNodes.map (identity name)
      = frames name pipeline 0 pipeline.metricNodes.length ++ [] := by
    simp [frames]
  obtain ⟨active, -, hcheck⟩ := checkAncestors_listed name h hlisted htops (List.take_nil) []
  obtain ⟨names, lasts, -, hdraw, hnames⟩ := drawNames_listed name h hlisted htops (List.take_nil)
    (show Shallow [] [] from nofun)
  refine ⟨names, ?_, ?_⟩
  · rw [processTreeNames, hall, hcheck, hdraw]
    simp [checkAncestors, drawNames]
  · rwa [List.range_eq_range']

end Tree

end Limpid.Ctl
