import Limpid.Graph
import Limpid.Check.Function

/-!
# What the search for cycles establishes

A search that reports nothing leaves every name it has finished with accessible along the edges it
was given (`Sound`), and it finishes with every name (`acc_of_no_cycle`).

One search of a node: what it has coloured before keeps its colour, the node itself ends up done,
and nothing else is left on the stack (`dfsCycle_spec`).  The recursion is on the fuel, of which
there is enough because the search colours the node before it goes on: there is always at least
one unit for each unvisited node.
-/

namespace Limpid.Check

variable {adj : String → Option (List String)} {names : List String} {declared : String}

/-- `f` lists `g` as a callee. -/
def Edge (adj : String → Option (List String)) (g f : String) : Prop := g ∈ (adj f).getD []

/-- How many names the search has not come to. -/
def unvisitedCount (names : List String) (s : DfsState) : ℕ :=
  names.countP fun name => s.color name = .unvisited

/-- While nothing is reported, nodes that are done are on no cycle and lead to none. -/
structure Sound (adj : String → Option (List String)) (s : DfsState) : Prop where
  errors : ∀ d ∈ s.diagnostics, d.level = .error ∧ d.kind = .other
  reported : s.reported ≠ [] → s.diagnostics ≠ []
  done : s.diagnostics = [] → ∀ node, s.color node = .done → Acc (Edge adj) node

/-- What a search does not undo, and what it does not leave behind. -/
structure Progress (s next : DfsState) : Prop where
  settled : ∀ node, s.color node ≠ .unvisited → next.color node = s.color node
  finished : ∀ node, next.color node = .onStack → s.color node = .onStack
  diagnostics : next.diagnostics = [] → s.diagnostics = []

namespace Progress

variable {s next last : DfsState}

theorem refl (s : DfsState) : Progress s s :=
  ⟨fun _ _ => rfl, fun _ h => h, fun h => h⟩

theorem trans (h : Progress s next) (hnext : Progress next last) : Progress s last where
  settled node hnode := by
    have hsettled := h.settled node hnode
    rw [hnext.settled node (hsettled ▸ hnode), hsettled]
  finished node hnode := h.finished node (hnext.finished node hnode)
  diagnostics hnone := h.diagnostics (hnext.diagnostics hnone)

/-- Nothing becomes unvisited. -/
theorem unvisitedCount_le (h : Progress s next) (names : List String) :
    unvisitedCount names next ≤ unvisitedCount names s := by
  refine List.countP_mono_left fun name _ hname => ?_
  have hnext : next.color name = .unvisited := of_decide_eq_true hname
  refine decide_eq_true ?_
  by_contra hs
  exact hs ((h.settled name hs).symm.trans hnext)

end Progress

/-- A search from an unvisited node, with enough fuel. -/
def Searches (adj : String → Option (List String)) (names : List String) (fuel : ℕ)
    (dfs : String → DfsState → DfsState) : Prop :=
  ∀ node s, Sound adj s → node ∈ names → s.color node = .unvisited →
    unvisitedCount names s ≤ fuel →
      Sound adj (dfs node s) ∧ Progress s (dfs node s) ∧ (dfs node s).color node = .done

/-! ## The loop over callees -/

/-- A cycle is reported, or was reported before. -/
theorem reportCycle_diagnostics {s : DfsState} (hs : s.reported ≠ [] → s.diagnostics ≠ [])
    (callee : String) : (reportCycle declared callee s).diagnostics ≠ [] := by
  unfold reportCycle
  dsimp only
  split
  · next hmem => exact hs (List.ne_nil_of_mem hmem)
  · simp

theorem reportCycle_errors {s : DfsState}
    (hs : ∀ d ∈ s.diagnostics, d.level = .error ∧ d.kind = .other) (callee : String) :
    ∀ d ∈ (reportCycle declared callee s).diagnostics, d.level = .error ∧ d.kind = .other := by
  unfold reportCycle
  dsimp only
  split
  · exact hs
  · intro d hd
    rcases List.mem_append.mp hd with hd | hd
    · exact hs d hd
    · rw [List.mem_singleton.mp hd]
      exact ⟨rfl, rfl⟩

theorem reportCycle_color (callee : String) (s : DfsState) :
    (reportCycle declared callee s).color = s.color := by
  unfold reportCycle
  dsimp only
  split <;> rfl

variable {fuel : ℕ} {dfs : String → DfsState → DfsState} {s : DfsState}

/-- A callee that is visited without a report is done. -/
theorem visitCallee_spec (hdfs : Searches adj names fuel dfs) (hs : Sound adj s)
    {callee : String} (hcallee : callee ∈ names) (hfuel : unvisitedCount names s ≤ fuel) :
    Sound adj (visitCallee declared dfs s callee) ∧ Progress s (visitCallee declared dfs s callee) ∧
      ((visitCallee declared dfs s callee).diagnostics = [] →
        (visitCallee declared dfs s callee).color callee = .done) := by
  unfold visitCallee
  split
  · next hunvisited =>
      obtain ⟨hsound, hprogress, hdone⟩ := hdfs callee s hs hcallee hunvisited hfuel
      exact ⟨hsound, hprogress, fun _ => hdone⟩
  · have hne : (reportCycle declared callee s).diagnostics ≠ [] :=
      reportCycle_diagnostics hs.reported callee
    have hcolor : (reportCycle declared callee s).color = s.color := reportCycle_color callee s
    have herrors : ∀ d ∈ (reportCycle declared callee s).diagnostics,
        d.level = .error ∧ d.kind = .other := reportCycle_errors hs.errors callee
    refine ⟨⟨herrors, fun _ => hne, fun h => absurd h hne⟩,
      ⟨fun node _ => by rw [hcolor], ?_, ?_⟩, ?_⟩
    · intro node hnode
      rwa [hcolor] at hnode
    · intro h
      exact absurd h hne
    · intro h
      exact absurd h hne
  · next hdone => exact ⟨hs, Progress.refl s, fun _ => hdone⟩

/-- After the loop without a report every callee is done. -/
theorem foldl_visitCallee (hdfs : Searches adj names fuel dfs) {callees : List String}
    (hcallees : ∀ callee ∈ callees, callee ∈ names) (hs : Sound adj s)
    (hfuel : unvisitedCount names s ≤ fuel) :
    Sound adj (callees.foldl (visitCallee declared dfs) s) ∧
      Progress s (callees.foldl (visitCallee declared dfs) s) ∧
      ((callees.foldl (visitCallee declared dfs) s).diagnostics = [] →
        ∀ callee ∈ callees, (callees.foldl (visitCallee declared dfs) s).color callee = .done) := by
  induction callees generalizing s with
  | nil => exact ⟨hs, Progress.refl s, fun _ callee h => absurd h List.not_mem_nil⟩
  | cons callee rest ih =>
      obtain ⟨hsound, hprogress, hdone⟩ :=
        visitCallee_spec hdfs hs (hcallees callee List.mem_cons_self) hfuel
      obtain ⟨hsound', hprogress', hdone'⟩ :=
        ih (fun c hc => hcallees c (List.mem_cons_of_mem _ hc)) hsound
          ((hprogress.unvisitedCount_le names).trans hfuel)
      refine ⟨hsound', hprogress.trans hprogress', fun hnone c hc => ?_⟩
      rcases List.mem_cons.mp hc with rfl | hc
      · -- done after its own visit, and no later visit changes that
        have hcolor := hdone (hprogress'.diagnostics hnone)
        rw [List.foldl_cons, hprogress'.settled c (by rw [hcolor]; decide), hcolor]
      · exact hdone' hnone c hc

/-! ## The search -/

/-- Colouring an unvisited node leaves fewer unvisited ones. -/
theorem unvisitedCount_setColor_lt {node : String} (hnode : node ∈ names)
    (hunvisited : s.color node = .unvisited) {color : Color} (hcolor : color ≠ .unvisited) :
    unvisitedCount names (s.setColor node color) < unvisitedCount names s := by
  have hle : ∀ rest : List String,
      unvisitedCount rest (s.setColor node color) ≤ unvisitedCount rest s := by
    intro rest
    refine List.countP_mono_left fun name _ hname => ?_
    have hname := of_decide_eq_true hname
    refine decide_eq_true ?_
    simp only [DfsState.setColor] at hname
    split at hname
    · exact absurd hname hcolor
    · exact hname
  obtain ⟨before, after, rfl⟩ := List.append_of_mem hnode
  have hbefore := hle before
  have hafter := hle after
  simp only [unvisitedCount, List.countP_append, List.countP_cons] at hbefore hafter ⊢
  simp only [DfsState.setColor, if_pos, hcolor, hunvisited, decide_true, decide_false]
    at hbefore hafter ⊢
  simp only [Bool.false_eq_true, if_false]
  omega

/-- **One search.**  With a unit of fuel for each unvisited node, the search finishes the node. -/
theorem dfsCycle_spec (hadj : ∀ node, ∀ callee ∈ (adj node).getD [], callee ∈ names) (fuel : ℕ) :
    Searches adj names fuel (dfsCycle declared adj fuel) := by
  induction fuel with
  | zero =>
      intro node s _ hnode hunvisited hfuel
      have hpos : 0 < unvisitedCount names s :=
        List.countP_pos_iff.mpr ⟨node, hnode, decide_eq_true hunvisited⟩
      omega
  | succ fuel ih =>
      intro node s hs hnode hunvisited hfuel
      -- the state in which the callees are visited
      let pushed : DfsState :=
        { s.setColor node .onStack with stack := (s.setColor node .onStack).stack ++ [node] }
      have hcolor : ∀ n, pushed.color n = if n = node then .onStack else s.color n := fun _ => rfl
      have hpushed : Sound adj pushed := by
        refine ⟨hs.errors, hs.reported, fun hnone n hn => hs.done hnone n ?_⟩
        rw [hcolor] at hn
        split at hn
        · exact absurd hn (by decide)
        · exact hn
      have hlt := unvisitedCount_setColor_lt hnode hunvisited
        (show Color.onStack ≠ .unvisited by decide)
      have hroom : unvisitedCount names pushed ≤ fuel := by
        have : unvisitedCount names pushed < unvisitedCount names s := hlt
        omega
      obtain ⟨hsound, hprogress, hdone⟩ := foldl_visitCallee ih (hadj node) hpushed hroom
      let visited := ((adj node).getD []).foldl
        (visitCallee declared (dfsCycle declared adj fuel)) pushed
      have hfinal : ∀ n, (dfsCycle declared adj (fuel + 1) node s).color n =
          if n = node then .done else visited.color n := fun _ => rfl
      have hother : ∀ n, n ≠ node →
          (dfsCycle declared adj (fuel + 1) node s).color n = visited.color n ∧
            pushed.color n = s.color n := fun n hn => ⟨(hfinal n).trans (if_neg hn), if_neg hn⟩
      refine ⟨⟨hsound.errors, hsound.reported, fun hnone n hn => ?_⟩,
        ⟨fun n hn => ?_, fun n hn => ?_,
        hprogress.diagnostics⟩, (hfinal node).trans (if_pos rfl)⟩
      · by_cases hnode' : n = node
        · -- every callee of the node is done, and so accessible
          subst hnode'
          exact Acc.intro _ fun callee hcallee =>
            hsound.done hnone callee (hdone hnone callee hcallee)
        · exact hsound.done hnone n ((hother n hnode').1.symm.trans hn)
      · have hne : n ≠ node := fun h => hn (h ▸ hunvisited)
        obtain ⟨hlast, hfirst⟩ := hother n hne
        rw [hlast, hprogress.settled n (by rwa [hfirst]), hfirst]
      · have hne : n ≠ node := by
          rintro rfl
          rw [hfinal, if_pos rfl] at hn
          exact absurd hn (by decide)
        obtain ⟨hlast, hfirst⟩ := hother n hne
        rw [← hfirst]
        exact hprogress.finished n (hlast ▸ hn)

/-! ## All names -/

theorem sound_initial : Sound adj .initial where
  errors d h := absurd h List.not_mem_nil
  reported h := absurd rfl h
  done _ node h := absurd h (show Color.unvisited ≠ .done by decide)

/-- Between two roots no node is on the stack. -/
theorem foldl_visitRoot (hdfs : Searches adj names names.length dfs) {roots : List String}
    (hroots : ∀ root ∈ roots, root ∈ names) (hs : Sound adj s)
    (hstack : ∀ node, s.color node ≠ .onStack) :
    Sound adj (roots.foldl (visitRoot dfs) s) ∧ Progress s (roots.foldl (visitRoot dfs) s) ∧
      ∀ root ∈ roots, (roots.foldl (visitRoot dfs) s).color root = .done := by
  induction roots generalizing s with
  | nil => exact ⟨hs, Progress.refl s, fun root h => absurd h List.not_mem_nil⟩
  | cons root rest ih =>
      have hvisit : Sound adj (visitRoot dfs s root) ∧ Progress s (visitRoot dfs s root) ∧
          (visitRoot dfs s root).color root = .done := by
        unfold visitRoot
        split
        · next hunvisited =>
            exact hdfs root s hs (hroots root List.mem_cons_self) hunvisited List.countP_le_length
        · next hvisited =>
            refine ⟨hs, Progress.refl s, ?_⟩
            have honStack := hstack root
            cases hcolor : s.color root with
            | unvisited => exact absurd hcolor hvisited
            | onStack => exact absurd hcolor honStack
            | done => rfl
      obtain ⟨hsound, hprogress, hdone⟩ := hvisit
      obtain ⟨hsound', hprogress', hdone'⟩ :=
        ih (fun r hr => hroots r (List.mem_cons_of_mem _ hr)) hsound fun node hnode =>
          hstack node (hprogress.finished node hnode)
      refine ⟨hsound', hprogress.trans hprogress', fun r hr => ?_⟩
      rcases List.mem_cons.mp hr with rfl | hr
      · rw [List.foldl_cons, hprogress'.settled r (by rw [hdone]; decide), hdone]
      · exact hdone' r hr

section All

variable (hadj : ∀ node, ∀ callee ∈ (adj node).getD [], callee ∈ names)
include hadj

theorem checkCycles_errors :
    ∀ d ∈ checkCycles declared adj names, d.level = .error ∧ d.kind = .other :=
  (foldl_visitRoot (dfsCycle_spec hadj names.length) (fun _ h => h) sound_initial
    fun _ => show Color.unvisited ≠ .onStack by decide).1.errors

/-- **No cycle, no infinite descent.**  If the search from all names reports nothing, every name is
accessible along the edges. -/
theorem acc_of_no_cycle (hnone : checkCycles declared adj names = []) {name : String}
    (hname : name ∈ names) : Acc (Edge adj) name := by
  obtain ⟨hsound, -, hdone⟩ := foldl_visitRoot (dfsCycle_spec hadj names.length)
    (fun _ h => h) sound_initial fun _ => show Color.unvisited ≠ .onStack by decide
  exact hsound.done hnone name (hdone name hname)

end All

end Limpid.Check
