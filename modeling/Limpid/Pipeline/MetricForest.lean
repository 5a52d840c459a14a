import Limpid.Pipeline.Compiled

/-!
# The metric nodes of a pipeline

`add_metric_node` numbers the nodes below a process site in the order in which it meets them, a
node before those below it.  What it adds to the table is a segment of consecutive numbers that
nothing outside points into (`Segment`): the children of a node come after it and inside the
segment, every node that is not at the top is among the children of its parent, the children
of a node stand for the edges of its body, in order (`NodeOk`), and the nodes below a node stand
right behind it (`Listed`).  Segments that follow each other
are a segment; so are a node and the segment of its children.  The nodes of a pipeline are one
segment, and the nodes of the sites are its tops (`attachPipelineMetricNodes_attaches`).
-/

namespace Limpid.Pipeline.Blueprint

open Dsl

/-- What stands at a place of the table of nodes. -/
def IsNode (nodes : List MetricNodeDescriptor) (id : MetricNodeId)
    (parent : Option MetricNodeId) (target : ProcessTarget) (name path : String) : Prop :=
  ∃ node, nodes[id]? = some node ∧ node.parent = parent ∧ node.target = target ∧
    node.processName = name ∧ node.processPath = path

/-- The node of an edge of the body that runs at another node. -/
def IsChild (nodes : List MetricNodeDescriptor) (id : MetricNodeId) (node : MetricNodeDescriptor)
    (child : MetricNodeId) (edge : ProcessEdge) : Prop :=
  IsNode nodes child (some id) edge.target edge.name (childPath node.processPath edge.name)

/-- The node of a process site. -/
def IsRoot (nodes : List MetricNodeDescriptor) (site : ProcessSite) : Prop :=
  IsNode nodes site.metricNode none (.known site.body) site.name ("/" ++ site.name)

/-- A node has its number, and its children are those of the edges of its body. -/
structure NodeOk (bodies : List ProcessBodyCode) (nodes : List MetricNodeDescriptor)
    (id : MetricNodeId) (node : MetricNodeDescriptor) : Prop where
  step : node.step = id + 1
  known : ∀ bodyId, node.target = .known bodyId → ∃ body, bodies[bodyId]? = some body ∧
    List.Forall₂ (IsChild nodes id node) node.children body.edges
  unknown : node.target = .unknown → node.children = []

/-- The nodes at the tops and those below them have the numbers from `lo` on and before `hi`, each
with those below it right behind it. -/
inductive Listed (nodes : List MetricNodeDescriptor) : List ℕ → ℕ → ℕ → Prop where
  | nil (lo : ℕ) : Listed nodes [] lo lo
  | cons {lo mid hi : ℕ} {node : MetricNodeDescriptor} {tops : List ℕ}
    (hnode : nodes[lo]? = some node)
      (hbelow : Listed nodes node.children (lo + 1) mid) (hrest : Listed nodes tops mid hi) :
      Listed nodes (lo :: tops) lo hi

/-- The nodes from `lo` on and before `hi`, of which those at the top have their parent
elsewhere. -/
structure Segment (bodies : List ProcessBodyCode) (nodes : List MetricNodeDescriptor)
    (lo hi : ℕ) (tops : List ℕ) : Prop where
  nodeOk : ∀ (i : ℕ) node, lo ≤ i → i < hi → nodes[i]? = some node → NodeOk bodies nodes i node
  children : ∀ (i : ℕ) node, lo ≤ i → i < hi → nodes[i]? = some node →
    ∀ child : ℕ, child ∈ node.children → i < child ∧ child < hi
  parents : ∀ (i : ℕ) node, lo ≤ i → i < hi → nodes[i]? = some node → i ∉ tops →
    ∃ (p : ℕ) (parent : MetricNodeDescriptor), lo ≤ p ∧ p < i ∧ nodes[p]? = some parent ∧
      node.parent = some p ∧ i ∈ parent.children
  tops_mem : ∀ i ∈ tops, lo ≤ i ∧ i < hi
  tops_lt : tops.Pairwise (· < ·)
  listed : Listed nodes tops lo hi

variable {bodies : List ProcessBodyCode}

theorem IsNode.congr {nodes others : List MetricNodeDescriptor} {id : MetricNodeId}
    {parent : Option MetricNodeId} {target : ProcessTarget} {name path : String}
    (hsame : others[id]? = nodes[id]?) (h : IsNode nodes id parent target name path) :
    IsNode others id parent target name path := by
  obtain ⟨node, hnode, hfacts⟩ := h
  exact ⟨node, hsame.trans hnode, hfacts⟩

/-- A node keeps its children when the table stays the same at them. -/
theorem NodeOk.congr {nodes others : List MetricNodeDescriptor} {id : MetricNodeId}
    {node : MetricNodeDescriptor} (hsame : ∀ child ∈ node.children, others[child]? = nodes[child]?)
    (h : NodeOk bodies nodes id node) : NodeOk bodies others id node where
  step := h.step
  known bodyId htarget := by
    obtain ⟨body, hbody, hchildren⟩ := h.known bodyId htarget
    refine ⟨body, hbody, ?_⟩
    exact ((List.forall₂_and_left _ _).mpr ⟨hsame, hchildren⟩).imp
      fun _ _ hchild => IsNode.congr hchild.1 hchild.2
  unknown := h.unknown

theorem NodeOk.mono {more : List ProcessBodyCode} {nodes : List MetricNodeDescriptor}
    {id : MetricNodeId} {node : MetricNodeDescriptor} (hbodies : bodies <+: more)
    (h : NodeOk bodies nodes id node) : NodeOk more nodes id node where
  step := h.step
  known bodyId htarget := by
    obtain ⟨body, hbody, hchildren⟩ := h.known bodyId htarget
    exact ⟨body, getElem?_of_isPrefix hbodies hbody, hchildren⟩
  unknown := h.unknown

namespace Listed

variable {nodes others : List MetricNodeDescriptor} {lo mid hi : ℕ} {tops more : List ℕ}

theorem le (h : Listed nodes tops lo hi) : lo ≤ hi := by
  induction h with
  | nil => exact le_rfl
  | cons _ _ _ ihbelow ihrest => omega

theorem congr (hsame : ∀ i, lo ≤ i → i < hi → others[i]? = nodes[i]?)
    (h : Listed nodes tops lo hi) : Listed others tops lo hi := by
  induction h with
  | nil lo => exact .nil lo
  | cons hnode hbelow hrest ihbelow ihrest =>
      have hle := hbelow.le
      have hle' := hrest.le
      exact .cons ((hsame _ le_rfl (by omega)).trans hnode)
        (ihbelow fun i hi₁ hi₂ => hsame i (by omega) (by omega))
        (ihrest fun i hi₁ hi₂ => hsame i (by omega) hi₂)

theorem append (h : Listed nodes tops lo mid) (hnext : Listed nodes more mid hi) :
    Listed nodes (tops ++ more) lo hi := by
  induction h with
  | nil => exact hnext
  | cons hnode hbelow _ _ ih => exact .cons hnode hbelow (ih hnext)

end Listed

namespace Segment

variable {nodes others : List MetricNodeDescriptor} {lo mid hi : ℕ} {tops more : List ℕ}

theorem empty (nodes : List MetricNodeDescriptor) (i : ℕ) : Segment bodies nodes i i [] where
  nodeOk j _ hlo hhi _ := by omega
  children j _ hlo hhi _ := by omega
  parents j _ hlo hhi _ := by omega
  tops_mem _ h := absurd h List.not_mem_nil
  tops_lt := List.Pairwise.nil
  listed := .nil i

/-- Only the table inside the segment matters. -/
theorem congr (hsame : ∀ i, lo ≤ i → i < hi → others[i]? = nodes[i]?)
    (h : Segment bodies nodes lo hi tops) : Segment bodies others lo hi tops where
  nodeOk i node hlo hhi hnode := by
    rw [hsame i hlo hhi] at hnode
    refine (h.nodeOk i node hlo hhi hnode).congr fun child hchild => ?_
    have hinside := h.children i node hlo hhi hnode child hchild
    exact hsame child (by omega) hinside.2
  children i node hlo hhi hnode := h.children i node hlo hhi (hsame i hlo hhi ▸ hnode)
  parents i node hlo hhi hnode htop := by
    obtain ⟨p, parent, hp, hlt, hparent, hfacts⟩ :=
      h.parents i node hlo hhi (hsame i hlo hhi ▸ hnode) htop
    exact ⟨p, parent, hp, hlt, (hsame p hp (by omega)).trans hparent, hfacts⟩
  tops_mem := h.tops_mem
  tops_lt := h.tops_lt
  listed := h.listed.congr hsame

theorem mono {others : List ProcessBodyCode} (hbodies : bodies <+: others)
    (h : Segment bodies nodes lo hi tops) : Segment others nodes lo hi tops where
  nodeOk i node hlo hhi hnode := (h.nodeOk i node hlo hhi hnode).mono hbodies
  children := h.children
  parents := h.parents
  tops_mem := h.tops_mem
  tops_lt := h.tops_lt
  listed := h.listed

/-- Segments that follow each other. -/
theorem append (hlo : lo ≤ mid) (hhi : mid ≤ hi) (h : Segment bodies nodes lo mid tops)
    (hnext : Segment bodies nodes mid hi more) : Segment bodies nodes lo hi (tops ++ more) where
  nodeOk i node hi₁ hi₂ hnode := by
    rcases Nat.lt_or_ge i mid with hlt | hge
    · exact h.nodeOk i node hi₁ hlt hnode
    · exact hnext.nodeOk i node hge hi₂ hnode
  children i node hi₁ hi₂ hnode child hchild := by
    rcases Nat.lt_or_ge i mid with hlt | hge
    · have hinside := h.children i node hi₁ hlt hnode child hchild
      omega
    · exact hnext.children i node hge hi₂ hnode child hchild
  parents i node hi₁ hi₂ hnode htop := by
    rw [List.mem_append, not_or] at htop
    rcases Nat.lt_or_ge i mid with hlt | hge
    · exact h.parents i node hi₁ hlt hnode htop.1
    · obtain ⟨p, parent, hp, hfacts⟩ := hnext.parents i node hge hi₂ hnode htop.2
      exact ⟨p, parent, Nat.le_trans hlo hp, hfacts⟩
  tops_mem i hmem := by
    rcases List.mem_append.mp hmem with hmem | hmem
    · have htop := h.tops_mem i hmem
      omega
    · have htop := hnext.tops_mem i hmem
      omega
  tops_lt := by
    refine List.pairwise_append.mpr ⟨h.tops_lt, hnext.tops_lt, fun i hfirst j hsecond => ?_⟩
    have hi := h.tops_mem i hfirst
    have hj := hnext.tops_mem j hsecond
    omega
  listed := h.listed.append hnext.listed

/-- A node whose children are the tops of the segment after it. -/
theorem cons {node : MetricNodeDescriptor} (hlt : lo < hi) (hnode : nodes[lo]? = some node)
    (hok : NodeOk bodies nodes lo node) (htops : node.children = tops)
    (hparent : ∀ i ∈ tops, ∃ child, nodes[i]? = some child ∧ child.parent = some lo)
    (h : Segment bodies nodes (lo + 1) hi tops) : Segment bodies nodes lo hi [lo] where
  nodeOk i other hi₁ hi₂ hother := by
    rcases Nat.eq_or_lt_of_le hi₁ with rfl | hgt
    · obtain rfl := Option.some.inj (hnode.symm.trans hother)
      exact hok
    · exact h.nodeOk i other hgt hi₂ hother
  children i other hi₁ hi₂ hother child hchild := by
    rcases Nat.eq_or_lt_of_le hi₁ with rfl | hgt
    · obtain rfl := Option.some.inj (hnode.symm.trans hother)
      have htop := h.tops_mem child (htops ▸ hchild)
      omega
    · exact h.children i other hgt hi₂ hother child hchild
  parents i other hi₁ hi₂ hother htop := by
    have hgt : lo + 1 ≤ i := by
      rcases Nat.eq_or_lt_of_le hi₁ with rfl | hgt
      · exact absurd List.mem_cons_self htop
      · exact hgt
    by_cases hmem : i ∈ tops
    · -- a top of the segment is a child of the node
      obtain ⟨child, hchild, hlo⟩ := hparent i hmem
      obtain rfl := Option.some.inj (hother.symm.trans hchild)
      exact ⟨lo, node, Nat.le_refl lo, hgt, hnode, hlo, htops ▸ hmem⟩
    · obtain ⟨p, parent, hp, hfacts⟩ := h.parents i other hgt hi₂ hother hmem
      exact ⟨p, parent, by omega, hfacts⟩
  tops_mem i hmem := by
    obtain rfl := List.mem_singleton.mp hmem
    exact ⟨Nat.le_refl i, hlt⟩
  tops_lt := List.pairwise_singleton _ _
  listed := .cons hnode (htops ▸ h.listed) (.nil hi)

end Segment

/-! ## Adding nodes -/

/-- `next_step` is one more than the number of nodes, and has not overflowed. -/
def MetricTable.Counts (table : MetricTable) : Prop :=
  table.nextStep = table.nodes.length + 1 ∧ table.nextStep < UInt32.size

/-- What is added to a table is a segment. -/
structure MetricTable.Grows (bodies : List ProcessBodyCode) (table next : MetricTable)
    (tops : List ℕ) : Prop where
  nodes : table.nodes <+: next.nodes
  counts : next.Counts
  segment : Segment bodies next.nodes table.nodes.length next.nodes.length tops

namespace MetricTable.Grows

variable {table next last : MetricTable} {tops more : List ℕ}

theorem refl (hcounts : table.Counts) : table.Grows bodies table [] where
  nodes := List.prefix_rfl
  counts := hcounts
  segment := .empty _ _

theorem trans (h : table.Grows bodies next tops) (hnext : next.Grows bodies last more) :
    table.Grows bodies last (tops ++ more) where
  nodes := h.nodes.trans hnext.nodes
  counts := hnext.counts
  segment := by
    refine .append h.nodes.length_le hnext.nodes.length_le (h.segment.congr fun i _ hi => ?_)
      hnext.segment
    obtain ⟨added, hadded⟩ := hnext.nodes
    rw [← hadded, List.getElem?_append_left hi]

/-- A node is put before the segment of its children. -/
theorem node {pushed grown final : MetricTable} {placeholder node : MetricNodeDescriptor}
    {children : List ℕ} (hgrown : pushed.Grows bodies grown children)
    (hpushed : pushed.nodes = table.nodes ++ [placeholder])
    (hother : ∀ i, i ≠ table.nodes.length → final.nodes[i]? = grown.nodes[i]?)
    (hlength : final.nodes.length = grown.nodes.length) (hstep : final.nextStep = grown.nextStep)
    (hnode : final.nodes[table.nodes.length]? = some node) (hchildren : node.children = children)
    (hok : NodeOk bodies grown.nodes table.nodes.length node)
    (hparent : ∀ i ∈ children, ∃ child, grown.nodes[i]? = some child ∧
      child.parent = some table.nodes.length) :
    table.Grows bodies final [table.nodes.length] := by
  have hlt : table.nodes.length < final.nodes.length := (List.getElem?_eq_some_iff.mp hnode).1
  have hsegment : Segment bodies grown.nodes (table.nodes.length + 1) final.nodes.length
      children := by
    have hsegment := hgrown.segment
    rw [hpushed, List.length_append, List.length_singleton] at hsegment
    rwa [hlength]
  have hafter : ∀ i ∈ children, final.nodes[i]? = grown.nodes[i]? := by
    intro i hi
    have htop := hsegment.tops_mem i hi
    exact hother i (by omega)
  refine ⟨?_, ?_, .cons hlt hnode (hok.congr (hchildren ▸ hafter)) hchildren (fun i hi => ?_)
    (hsegment.congr fun i hi _ => hother i (by omega))⟩
  · have hprefix : table.nodes <+: grown.nodes :=
      (List.prefix_append _ _).trans (hpushed ▸ hgrown.nodes)
    rw [List.prefix_iff_getElem?]
    intro i hi
    rw [hother i (by omega), List.prefix_iff_getElem?.mp hprefix i hi]
  · have hcounts := hgrown.counts
    unfold MetricTable.Counts at hcounts ⊢
    rwa [hstep, hlength]
  · rw [hafter i hi]
    exact hparent i hi

end MetricTable.Grows

theorem IsNode.mono {nodes more : List MetricNodeDescriptor} (hnodes : nodes <+: more)
    {id : MetricNodeId} {parent : Option MetricNodeId} {target : ProcessTarget}
    {name path : String} (h : IsNode nodes id parent target name path) :
    IsNode more id parent target name path := by
  obtain ⟨node, hnode, hfacts⟩ := h
  exact ⟨node, getElem?_of_isPrefix hnodes hnode, hfacts⟩

/-- A step that adds the node of an edge. -/
def AddsChild (bodies : List ProcessBodyCode) (id : MetricNodeId) (path : String)
    (add : ProcessEdge → StateT MetricTable (Except String) MetricNodeId) : Prop :=
  ∀ edge table result, table.Counts → add edge table = .ok result →
    table.Grows bodies result.2 [result.1] ∧
      IsNode result.2.nodes result.1 (some id) edge.target edge.name (childPath path edge.name)

/-- The children of a node, one for each edge. -/
theorem mapInOrder_grows {id : MetricNodeId} {path : String}
    {add : ProcessEdge → StateT MetricTable (Except String) MetricNodeId}
    (hadd : AddsChild bodies id path add) (edges : List ProcessEdge) {table : MetricTable}
    {result : List MetricNodeId × MetricTable} (hcounts : table.Counts)
    (h : mapInOrder add edges table = .ok result) :
    table.Grows bodies result.2 result.1 ∧
      List.Forall₂ (fun child edge => IsNode result.2.nodes child (some id) edge.target edge.name
        (childPath path edge.name)) result.1 edges := by
  induction edges generalizing table result with
  | nil =>
      obtain rfl := Except.ok.inj h
      exact ⟨.refl hcounts, .nil⟩
  | cons edge rest ih =>
      obtain ⟨child, next, hchild, h⟩ := exists_of_bind_eq_ok h
      obtain ⟨children, last, hchildren, h⟩ := exists_of_bind_eq_ok h
      obtain rfl := Except.ok.inj h
      obtain ⟨hgrows, hnode⟩ := hadd edge table _ hcounts hchild
      obtain ⟨hrest, hnodes⟩ := ih hgrows.counts hchildren
      exact ⟨hgrows.trans hrest, .cons (hnode.mono hrest.nodes) hnodes⟩

/-- **What adding a node does**: the segment it adds has the node at its top. -/
theorem addMetricNode_grows {parent : Option MetricNodeId} {target : ProcessTarget}
    {name path : String} {ancestors : List (ProcessBodyId × String)} {table : MetricTable}
    {result : MetricNodeId × MetricTable} (hcounts : table.Counts)
    (h : addMetricNode bodies parent target name path ancestors table = .ok result) :
    table.Grows bodies result.2 [result.1] ∧
      IsNode result.2.nodes result.1 parent target name path := by
  induction hn : unvisited bodies.length (ancestors.map Prod.fst) using Nat.strong_induction_on
    generalizing parent target name path ancestors table result with
  | _ n ih =>
    rw [addMetricNode] at h
    obtain ⟨id, hid, h⟩ := Except.exists_of_bind_eq_ok h
    obtain ⟨nextStep, hnext, h⟩ := Except.exists_of_bind_eq_ok h
    obtain ⟨-, rfl⟩ := fromIndex_eq_ok_iff.mp hid
    obtain ⟨hstep, rfl⟩ : table.nextStep + 1 < UInt32.size ∧ table.nextStep + 1 = nextStep := by
      unfold checkedAdd at hnext
      split at hnext
      · next hlt => exact ⟨hlt, Except.ok.inj hnext⟩
      · cases hnext
    -- the table in which the children are added
    have hpushed : (⟨table.nodes ++ [⟨⟨target, []⟩, parent, table.nextStep, path, name⟩],
        table.nextStep + 1⟩ : MetricTable).Counts := by
      refine ⟨?_, hstep⟩
      rw [List.length_append, hcounts.1]
      rfl
    cases target with
    | unknown =>
        obtain rfl := Except.ok.inj h
        refine ⟨.node (.refl hpushed) rfl (fun i _ => rfl) rfl rfl List.getElem?_concat_length rfl
          ⟨hcounts.1, fun _ htarget => (by cases htarget), fun _ => rfl⟩
          fun i hi => absurd hi List.not_mem_nil, ?_⟩
        exact ⟨_, List.getElem?_concat_length, rfl, rfl, rfl, rfl⟩
    | known bodyId =>
        simp only at h
        split at h
        · cases h
        · next body hbody =>
          split at h
          · cases h
          · next hid =>
            obtain ⟨⟨children, grown⟩, hchildren, h⟩ := Except.exists_of_bind_eq_ok h
            obtain rfl := Except.ok.inj h
            have hadd : AddsChild bodies table.nodes.length path fun edge : ProcessEdge =>
                addMetricNode bodies (some table.nodes.length) edge.target edge.name
                  (childPath path edge.name) (ancestors ++ [(bodyId, name)]) := by
              intro edge before after hbefore hafter
              refine ih _ ?_ hbefore hafter rfl
              rw [← hn, List.map_append]
              exact unvisited_append_lt (lt_length_of_getElem? hbody) hid
            obtain ⟨hgrown, hnodes⟩ := mapInOrder_grows hadd body.edges hpushed hchildren
            have hplace : grown.nodes[table.nodes.length]? =
                some ⟨⟨.known bodyId, []⟩, parent, table.nextStep, path, name⟩ :=
              getElem?_of_isPrefix hgrown.nodes List.getElem?_concat_length
            have hfinal : (grown.nodes.modify table.nodes.length fun node =>
                { node with children := children })[table.nodes.length]? =
                  some ⟨⟨.known bodyId, children⟩, parent, table.nextStep, path, name⟩ := by
              rw [List.getElem?_modify, hplace]
              simp
            refine ⟨.node hgrown rfl (fun i hi => ?_) (List.length_modify _ _ _) rfl hfinal rfl
              ⟨hcounts.1, fun other hother => ?_, fun htarget => by cases htarget⟩ ?_,
              _, hfinal, rfl, rfl, rfl, rfl⟩
            · rw [List.getElem?_modify]
              simp [Ne.symm hi]
            · obtain rfl := ProcessTarget.known.inj hother
              exact ⟨body, hbody, hnodes⟩
            · have hboth := hnodes.imp (S := fun child edge =>
                (∃ node, grown.nodes[child]? = some node ∧
                  node.parent = some table.nodes.length) ∧ True) fun child edge hnode => by
                    obtain ⟨node, hnode, hparent, -⟩ := hnode
                    exact ⟨⟨node, hnode, hparent⟩, trivial⟩
              exact ((List.forall₂_and_left _ _).mp hboth).1

/-! ## Attaching nodes to sites -/

/-- The site with its node. -/
structure AttachedTo (nodes : List MetricNodeDescriptor) (site attached : ProcessSite) : Prop where
  name : attached.name = site.name
  kind : attached.kind = site.kind
  body : attached.body = site.body
  root : IsRoot nodes attached

/-- The sites of a code get the nodes that are added, in order; the rest of it stays the same. -/
structure Attaches (bodies : List ProcessBodyCode) (table next : MetricTable)
    (sites attached : List ProcessSite) : Prop where
  grows : table.Grows bodies next (attached.map ProcessSite.metricNode)
  sites : List.Forall₂ (AttachedTo next.nodes) sites attached

namespace Attaches

variable {table next last : MetricTable} {sites attached more others : List ProcessSite}

theorem refl (hcounts : table.Counts) : Attaches bodies table table [] [] where
  grows := .refl hcounts
  sites := .nil

theorem trans (h : Attaches bodies table next sites attached)
    (hnext : Attaches bodies next last more others) :
    Attaches bodies table last (sites ++ more) (attached ++ others) where
  grows := by
    rw [List.map_append]
    exact h.grows.trans hnext.grows
  sites := by
    refine List.rel_append (h.sites.imp fun site attached hsite => ?_) hnext.sites
    exact ⟨hsite.name, hsite.kind, hsite.body, hsite.root.mono hnext.grows.nodes⟩

theorem counts (h : Attaches bodies table next sites attached) : next.Counts := h.grows.counts

end Attaches

theorem attachSites_attaches (sites : List ProcessSite) {table : MetricTable}
    {result : List ProcessSite × MetricTable} (hcounts : table.Counts)
    (h : mapInOrder (attachSite bodies) sites table = .ok result) :
    Attaches bodies table result.2 sites result.1 := by
  induction sites generalizing table result with
  | nil =>
      obtain rfl := Except.ok.inj h
      exact .refl hcounts
  | cons site rest ih =>
      obtain ⟨attached, next, hattached, h⟩ := exists_of_bind_eq_ok h
      obtain ⟨others, last, hothers, h⟩ := exists_of_bind_eq_ok h
      obtain rfl := Except.ok.inj h
      obtain ⟨node, grown, hnode, hattached⟩ := exists_of_bind_eq_ok hattached
      obtain ⟨rfl, rfl⟩ := Prod.mk.inj (Except.ok.inj hattached)
      obtain ⟨hgrows, hroot⟩ := addMetricNode_grows hcounts hnode
      have hfirst : Attaches bodies table grown [site] [{ site with metricNode := node }] :=
        ⟨hgrows, .cons ⟨rfl, rfl, rfl, hroot⟩ .nil⟩
      exact hfirst.trans (ih hfirst.counts hothers)

mutual

/-- The sites of a code get their nodes, its outputs stay the same. -/
theorem attachPipelineMetricNodes_attaches : ∀ (code : List PipelineCode) {table : MetricTable}
    {result : List PipelineCode × MetricTable}, table.Counts →
      attachPipelineMetricNodes bodies code table = .ok result →
        Attaches bodies table result.2 (codeSites code) (codeSites result.1) ∧
          codeOutputs result.1 = codeOutputs code
  | [], _, _, hcounts, h => by
      obtain rfl := Except.ok.inj h
      exact ⟨.refl hcounts, rfl⟩
  | statement :: rest, _, _, hcounts, h => by
      obtain ⟨code, next, hcode, h⟩ := exists_of_bind_eq_ok h
      obtain ⟨codes, last, hcodes, h⟩ := exists_of_bind_eq_ok h
      obtain rfl := Except.ok.inj h
      obtain ⟨hfirst, hout⟩ := attachStatement_attaches statement hcounts hcode
      obtain ⟨hrest, houts⟩ := attachPipelineMetricNodes_attaches rest hfirst.counts hcodes
      exact ⟨hfirst.trans hrest, congrArg₂ (· ++ ·) hout houts⟩

theorem attachStatement_attaches : ∀ (statement : PipelineCode) {table : MetricTable}
    {result : PipelineCode × MetricTable}, table.Counts →
      attachStatement bodies statement table = .ok result →
        Attaches bodies table result.2 (statementSites statement) (statementSites result.1) ∧
          statementOutputs result.1 = statementOutputs statement
  | .processChain sites, _, _, hcounts, h => by
      obtain ⟨attached, next, hattached, h⟩ := exists_of_bind_eq_ok h
      obtain rfl := Except.ok.inj h
      exact ⟨attachSites_attaches sites hcounts hattached, rfl⟩
  | .ifChain branches none, _, _, hcounts, h => by
      obtain ⟨codes, next, hcodes, h⟩ := exists_of_bind_eq_ok h
      obtain rfl := Except.ok.inj h
      exact attachBranches_attaches branches hcounts hcodes
  | .ifChain branches (some elseBody), _, _, hcounts, h => by
      obtain ⟨codes, next, hcodes, h⟩ := exists_of_bind_eq_ok h
      obtain ⟨elseCode, last, helse, h⟩ := exists_of_bind_eq_ok h
      obtain rfl := Except.ok.inj h
      obtain ⟨hbranches, hout⟩ := attachBranches_attaches branches hcounts hcodes
      obtain ⟨hbody, houts⟩ := attachPipelineMetricNodes_attaches elseBody hbranches.counts helse
      exact ⟨hbranches.trans hbody, congrArg₂ (· ++ ·) hout houts⟩
  | .switch _ arms, _, _, hcounts, h => by
      obtain ⟨codes, next, hcodes, h⟩ := exists_of_bind_eq_ok h
      obtain rfl := Except.ok.inj h
      exact attachArms_attaches arms hcounts hcodes
  | .input _, _, _, hcounts, h | .output _ _, _, _, hcounts, h | .drop, _, _, hcounts, h
  | .finish, _, _, hcounts, h | .error _, _, _, hcounts, h => by
      obtain rfl := Except.ok.inj h
      exact ⟨.refl hcounts, rfl⟩

theorem attachBranches_attaches : ∀ (branches : List (Expr × List PipelineCode))
    {table : MetricTable} {result : List (Expr × List PipelineCode) × MetricTable},
      table.Counts → attachBranches bodies branches table = .ok result →
        Attaches bodies table result.2 (branchesSites branches) (branchesSites result.1) ∧
          branchesOutputs result.1 = branchesOutputs branches
  | [], _, _, hcounts, h => by
      obtain rfl := Except.ok.inj h
      exact ⟨.refl hcounts, rfl⟩
  | (_, body) :: rest, _, _, hcounts, h => by
      obtain ⟨code, next, hcode, h⟩ := exists_of_bind_eq_ok h
      obtain ⟨codes, last, hcodes, h⟩ := exists_of_bind_eq_ok h
      obtain rfl := Except.ok.inj h
      obtain ⟨hfirst, hout⟩ := attachPipelineMetricNodes_attaches body hcounts hcode
      obtain ⟨hrest, houts⟩ := attachBranches_attaches rest hfirst.counts hcodes
      exact ⟨hfirst.trans hrest, congrArg₂ (· ++ ·) hout houts⟩

theorem attachArms_attaches : ∀ (arms : List (Option Expr × List PipelineCode))
    {table : MetricTable} {result : List (Option Expr × List PipelineCode) × MetricTable},
      table.Counts → attachArms bodies arms table = .ok result →
        Attaches bodies table result.2 (armsSites arms) (armsSites result.1) ∧
          armsOutputs result.1 = armsOutputs arms
  | [], _, _, hcounts, h => by
      obtain rfl := Except.ok.inj h
      exact ⟨.refl hcounts, rfl⟩
  | (_, body) :: rest, _, _, hcounts, h => by
      obtain ⟨code, next, hcode, h⟩ := exists_of_bind_eq_ok h
      obtain ⟨codes, last, hcodes, h⟩ := exists_of_bind_eq_ok h
      obtain rfl := Except.ok.inj h
      obtain ⟨hfirst, hout⟩ := attachPipelineMetricNodes_attaches body hcounts hcode
      obtain ⟨hrest, houts⟩ := attachArms_attaches rest hfirst.counts hcodes
      exact ⟨hfirst.trans hrest, congrArg₂ (· ++ ·) hout houts⟩

end

end Limpid.Pipeline.Blueprint
