import Limpid.Graph
import Limpid.Pipeline.MetricForest

/-!
# The graph of calls

The bodies of a blueprint call each other along their edges, the processes of a configuration
call each other by name.  Only named processes are called, and their bodies have the calls of
their definitions; so one graph has a cycle exactly when the other has (`acyclic_bodies_iff`).

`validate_process_cycles` goes through the bodies depth first.  Where it succeeds every body it
has done is accessible, and so there is no cycle (`acyclic_of_validate`); where there is no cycle
it succeeds (`validateProcessCycles_ok`), because the bodies on its path all lead to the one it
visits.
-/

namespace Limpid.Pipeline.Blueprint

open Dsl Relation

/-- The body `caller` has an edge to the body `callee`. -/
def CalledBy (bodies : List ProcessBodyCode) (callee caller : ProcessBodyId) : Prop :=
  ∃ body edge, bodies[caller]? = some body ∧ edge ∈ body.edges ∧ edge.target = .known callee

namespace CompiledConfig

variable (config : CompiledConfig)

/-- The names a process calls. -/
def callees (name : String) : List String :=
  ((config.processes.lookup name).map fun processDef =>
    ProcessStatement.calls processDef.body).getD []

/-- The call graph of the named processes. -/
def CalledBy (callee caller : String) : Prop :=
  callee ∈ config.callees caller ∧ callee ∈ Entries.keys config.processes

end CompiledConfig

/-! ## The search for cycles -/

section Search

variable {bodies : List ProcessBodyCode}

/-- One step of the loop over the edges of a body. -/
def visitEdge (bodies : List ProcessBodyCode) (active : List ProcessBodyId)
    (done : List ProcessBodyId) (edge : ProcessEdge) : Except String (List ProcessBodyId) :=
  match edge.target with
  | .known target => visit bodies target active done
  | .unknown => .ok done

theorem visit_eq {id : ProcessBodyId} {active done : List ProcessBodyId} (hdone : id ∉ done)
    (hactive : id ∉ active) {body : ProcessBodyCode} (hbody : bodies[id]? = some body) :
    visit bodies id active done = (body.edges.foldlM (visitEdge bodies (active ++ [id])) done >>=
      fun done => .ok (id :: done)) := by
  rw [visit, if_neg hdone, dif_neg hactive]
  split
  · next hnone => exact absurd (hnone.symm.trans hbody) (by simp)
  · next other hother =>
    obtain rfl := Option.some.inj (hother.symm.trans hbody)
    rfl

/-- What is done is accessible. -/
def DoneAcc (bodies : List ProcessBodyCode) (done : List ProcessBodyId) : Prop :=
  ∀ id ∈ done, Acc (CalledBy bodies) id

/-- **A visit that succeeds**: the body is done, and all that is done is accessible. -/
theorem visit_acc {id : ProcessBodyId} {active done next : List ProcessBodyId}
    (hdone : DoneAcc bodies done) (h : visit bodies id active done = .ok next) :
    DoneAcc bodies next ∧ done ⊆ next ∧ id ∈ next := by
  induction hn : unvisited bodies.length active using Nat.strong_induction_on
    generalizing id active done next with
  | _ n ih =>
    by_cases hid : id ∈ done
    · rw [visit, if_pos hid] at h
      obtain rfl := Except.ok.inj h
      exact ⟨hdone, List.Subset.refl _, hid⟩
    by_cases hactive : id ∈ active
    · rw [visit, if_neg hid, dif_pos hactive] at h
      cases h
    cases hbody : bodies[id]? with
    | none =>
        rw [visit, if_neg hid, dif_neg hactive] at h
        split at h
        · cases h
        · next body hother => exact absurd (hother.symm.trans hbody) (by simp)
    | some body =>
        rw [visit_eq hid hactive hbody] at h
        obtain ⟨visited, hvisited, h⟩ := Except.exists_of_bind_eq_ok h
        obtain rfl := Except.ok.inj h
        -- the loop: every callee among the edges is done after it
        have hloop : ∀ (edges : List ProcessEdge) {before after : List ProcessBodyId},
            DoneAcc bodies before →
              edges.foldlM (visitEdge bodies (active ++ [id])) before = .ok after →
                DoneAcc bodies after ∧ before ⊆ after ∧
                  ∀ edge ∈ edges, ∀ callee, edge.target = .known callee → callee ∈ after := by
          intro edges
          induction edges with
          | nil =>
              intro before after hbefore hafter
              obtain rfl := Except.ok.inj hafter
              exact ⟨hbefore, List.Subset.refl _, fun edge hedge => absurd hedge List.not_mem_nil⟩
          | cons edge rest ihEdges =>
              intro before after hbefore hafter
              rw [List.foldlM_cons] at hafter
              obtain ⟨middle, hmiddle, hafter⟩ := Except.exists_of_bind_eq_ok hafter
              have hvisit : DoneAcc bodies middle ∧ before ⊆ middle ∧
                  ∀ callee, edge.target = .known callee → callee ∈ middle := by
                unfold visitEdge at hmiddle
                split at hmiddle
                · next target htarget =>
                  obtain ⟨hacc, hsub, hmem⟩ := ih _ (hn ▸ unvisited_append_lt
                    (lt_length_of_getElem? hbody) hactive) hbefore hmiddle rfl
                  refine ⟨hacc, hsub, fun callee hcallee => ?_⟩
                  obtain rfl := ProcessTarget.known.inj (htarget.symm.trans hcallee)
                  exact hmem
                · next htarget =>
                  obtain rfl := Except.ok.inj hmiddle
                  refine ⟨hbefore, List.Subset.refl _, fun callee hcallee => ?_⟩
                  exact absurd (htarget.symm.trans hcallee) (by simp)
              obtain ⟨hacc, hsub, hmem⟩ := hvisit
              obtain ⟨haccRest, hsubRest, hmemRest⟩ := ihEdges hacc hafter
              refine ⟨haccRest, List.Subset.trans hsub hsubRest, fun other hother callee heq => ?_⟩
              rcases List.mem_cons.mp hother with rfl | hother
              · exact hsubRest (hmem callee heq)
              · exact hmemRest other hother callee heq
        obtain ⟨hacc, hsub, hmem⟩ := hloop body.edges hdone hvisited
        refine ⟨fun other hother => ?_, fun other hother => List.mem_cons_of_mem _ (hsub hother),
          List.mem_cons_self⟩
        rcases List.mem_cons.mp hother with rfl | hother
        · refine Acc.intro _ fun callee hcallee => ?_
          obtain ⟨caller, edge, hcaller, hedge, htarget⟩ := hcallee
          obtain rfl := Option.some.inj (hbody.symm.trans hcaller)
          exact hacc callee (hmem edge hedge callee htarget)
        · exact hacc other hother

/-- **Sound**: a blueprint whose cycles have been validated has none. -/
theorem acyclic_of_validate (h : validateProcessCycles bodies = .ok ()) :
    Acyclic (CalledBy bodies) := by
  unfold validateProcessCycles at h
  obtain ⟨done, hdone, -⟩ := Except.exists_of_bind_eq_ok h
  have hloop : ∀ (ids : List ProcessBodyId) {before after : List ProcessBodyId},
      DoneAcc bodies before → ids.foldlM (fun done index => do
        let id ← fromIndex bodyLimit index
        visit bodies id [] done) before = .ok after →
          DoneAcc bodies after ∧ before ⊆ after ∧ ids ⊆ after := by
    intro ids
    induction ids with
    | nil =>
        intro before after hbefore hafter
        obtain rfl := Except.ok.inj hafter
        exact ⟨hbefore, List.Subset.refl _, List.nil_subset _⟩
    | cons index rest ih =>
        intro before after hbefore hafter
        rw [List.foldlM_cons] at hafter
        obtain ⟨middle, hmiddle, hafter⟩ := Except.exists_of_bind_eq_ok hafter
        obtain ⟨id, hid, hvisit⟩ := Except.exists_of_bind_eq_ok hmiddle
        obtain ⟨-, rfl⟩ := fromIndex_eq_ok_iff.mp hid
        obtain ⟨hacc, hsub, hmem⟩ := visit_acc hbefore hvisit
        obtain ⟨haccRest, hsubRest, hrest⟩ := ih hacc hafter
        exact ⟨haccRest, List.Subset.trans hsub hsubRest,
          List.cons_subset.mpr ⟨hsubRest hmem, hrest⟩⟩
  obtain ⟨hacc, -, hall⟩ := hloop _ (fun id hid => absurd hid List.not_mem_nil) hdone
  refine Acyclic.of_wellFounded ⟨fun id => ?_⟩
  by_cases hid : id < bodies.length
  · exact hacc id (hall (List.mem_range.mpr hid))
  · refine Acc.intro _ fun callee hcallee => ?_
    obtain ⟨body, edge, hbody, -⟩ := hcallee
    exact absurd (lt_length_of_getElem? hbody) hid

/-- Every callee is a body. -/
def CalleesInRange (bodies : List ProcessBodyCode) : Prop :=
  ∀ callee caller, CalledBy bodies callee caller → callee < bodies.length

/-- A visit succeeds when the bodies on its path all lead to the one it visits. -/
theorem visit_ok (hacyclic : Acyclic (CalledBy bodies)) (hrange : CalleesInRange bodies)
    {id : ProcessBodyId} {active : List ProcessBodyId} (hid : id < bodies.length)
    (hpath : ∀ other ∈ active, TransGen (CalledBy bodies) id other)
    (done : List ProcessBodyId) : ∃ next, visit bodies id active done = .ok next := by
  induction hn : unvisited bodies.length active using Nat.strong_induction_on
    generalizing id active done with
  | _ n ih =>
    by_cases hdone : id ∈ done
    · exact ⟨done, by rw [visit, if_pos hdone]⟩
    have hactive : id ∉ active := fun hmem => hacyclic id (hpath id hmem)
    have hbody : bodies[id]? = some bodies[id] := List.getElem?_eq_getElem hid
    rw [visit_eq hdone hactive hbody]
    have hloop : ∀ (edges : List ProcessEdge), (∀ edge ∈ edges, edge ∈ bodies[id].edges) →
        ∀ before, ∃ after, edges.foldlM (visitEdge bodies (active ++ [id])) before = .ok after := by
      intro edges
      induction edges with
      | nil => exact fun _ before => ⟨before, rfl⟩
      | cons edge rest ihEdges =>
          intro hedges before
          have hvisit : ∃ middle, visitEdge bodies (active ++ [id]) before edge = .ok middle := by
            unfold visitEdge
            split
            · next target htarget =>
              have hcalled : CalledBy bodies target id :=
                ⟨_, edge, hbody, hedges edge List.mem_cons_self, htarget⟩
              refine ih _ (hn ▸ unvisited_append_lt hid hactive) (hrange _ _ hcalled)
                (fun other hother => ?_) before rfl
              rcases List.mem_append.mp hother with hother | hother
              · exact TransGen.head hcalled (hpath other hother)
              · rw [List.mem_singleton.mp hother]
                exact TransGen.single hcalled
            · exact ⟨before, rfl⟩
          obtain ⟨middle, hmiddle⟩ := hvisit
          obtain ⟨after, hafter⟩ :=
            ihEdges (fun other hother => hedges other (List.mem_cons_of_mem _ hother)) middle
          refine ⟨after, ?_⟩
          rw [List.foldlM_cons, hmiddle]
          exact hafter
    obtain ⟨after, hafter⟩ := hloop _ (fun _ hedge => hedge) done
    rw [hafter]
    exact ⟨_, rfl⟩

/-- **Complete**: without a cycle the validation succeeds. -/
theorem validateProcessCycles_ok (hacyclic : Acyclic (CalledBy bodies))
    (hrange : CalleesInRange bodies) (hlimit : bodies.length ≤ UInt32.size) :
    validateProcessCycles bodies = .ok () := by
  unfold validateProcessCycles
  have hloop : ∀ (ids : List ProcessBodyId), (∀ id ∈ ids, id < bodies.length) →
      ∀ before, ∃ after, ids.foldlM (fun done index => do
        let id ← fromIndex bodyLimit index
        visit bodies id [] done) before = .ok after := by
    intro ids
    induction ids with
    | nil => exact fun _ before => ⟨before, rfl⟩
    | cons index rest ih =>
        intro hids before
        have hindex := hids index List.mem_cons_self
        have hfrom : fromIndex bodyLimit index = .ok index :=
          fromIndex_eq_ok_iff.mpr ⟨Nat.lt_of_lt_of_le hindex hlimit, rfl⟩
        obtain ⟨middle, hmiddle⟩ := visit_ok hacyclic hrange hindex
          (fun other hother => absurd hother List.not_mem_nil) before
        obtain ⟨after, hafter⟩ := ih (fun id hid => hids id (List.mem_cons_of_mem _ hid)) middle
        refine ⟨after, ?_⟩
        rw [List.foldlM_cons, hfrom]
        change (visit bodies index [] before >>= _) = _
        rw [hmiddle]
        exact hafter
  obtain ⟨after, hafter⟩ := hloop _ (fun id hid => List.mem_range.mp hid) []
  rw [hafter]
  rfl

end Search

/-! ## Named processes -/

theorem sortedKeys_perm {V : Type} (entries : List (String × V)) :
    (sortedKeys entries).Perm (Entries.keys entries) :=
  List.perm_insertionSort _ _

theorem mem_sortedKeys {V : Type} {entries : List (String × V)} {name : String} :
    name ∈ sortedKeys entries ↔ name ∈ Entries.keys entries :=
  (sortedKeys_perm entries).mem_iff

theorem edgeOf_target_eq_known {processNames : List (String × ProcessBodyId)} {name : String}
    {id : ProcessBodyId} :
    (edgeOf processNames name).target = .known id ↔ processNames.lookup name = some id := by
  unfold edgeOf
  cases processNames.lookup name <;> simp

/-- The bodies of the named processes stand under their numbers, and every body is compiled from
some statements. -/
structure NamedBodies (config : CompiledConfig) (processNames : List (String × ProcessBodyId))
    (bodies : List ProcessBodyCode) : Prop where
  numbered : processNames = (sortedKeys config.processes).zipIdx
  named : ∀ name id, processNames.lookup name = some id → ∃ processDef body,
    config.processes.lookup name = some processDef ∧ bodies[id]? = some body ∧
      body.name = name ∧ CompiledFrom processNames processDef.body body
  compiled : ∀ body ∈ bodies, ∃ statements, CompiledFrom processNames statements body

namespace NamedBodies

variable {config : CompiledConfig} {processNames : List (String × ProcessBodyId)}
  {bodies : List ProcessBodyCode}

theorem lookup_eq_some_iff (h : NamedBodies config processNames bodies) {name : String}
    {id : ProcessBodyId} :
    processNames.lookup name = some id ↔ (sortedKeys config.processes)[id]? = some name := by
  rw [h.numbered]
  exact lookup_zipIdx ((sortedKeys_perm _).nodup_iff.mpr config.nodup_processes)

theorem length_eq (h : NamedBodies config processNames bodies) :
    processNames.length = config.processes.length := by
  rw [h.numbered, List.length_zipIdx, (sortedKeys_perm _).length_eq, Entries.keys,
    List.length_map]

/-- Exactly the processes of the configuration have a number. -/
theorem mem_keys_iff (h : NamedBodies config processNames bodies) {name : String} :
    name ∈ Entries.keys config.processes ↔ ∃ id, processNames.lookup name = some id := by
  rw [← mem_sortedKeys, List.mem_iff_getElem?]
  exact exists_congr fun id => h.lookup_eq_some_iff.symm

theorem lt_length (h : NamedBodies config processNames bodies) {name : String}
    {id : ProcessBodyId} (hid : processNames.lookup name = some id) : id < processNames.length := by
  have hplace := (List.getElem?_eq_some_iff.mp (h.lookup_eq_some_iff.mp hid)).1
  rwa [h.numbered, List.length_zipIdx]

/-- The names that a named process calls are those of its definition. -/
theorem callees_eq (h : NamedBodies config processNames bodies) {name : String}
    {id : ProcessBodyId} (hid : processNames.lookup name = some id) :
    ∃ body, bodies[id]? = some body ∧
      body.edges = (firstUses (config.callees name)).map (edgeOf processNames) := by
  obtain ⟨processDef, body, hdef, hbody, -, hfrom⟩ := h.named name id hid
  refine ⟨body, hbody, ?_⟩
  rw [hfrom.edges, CompiledConfig.callees, hdef]
  rfl

theorem callees_of_unknown (h : NamedBodies config processNames bodies) {name : String}
    (hid : processNames.lookup name = none) : config.callees name = [] := by
  have hnone : config.processes.lookup name = none := by
    rw [Entries.lookup_eq_none_iff, h.mem_keys_iff]
    rintro ⟨id, hsome⟩
    exact absurd (hid.symm.trans hsome) (by simp)
  rw [CompiledConfig.callees, hnone]
  rfl

/-- An edge leads to the body of the process it names. -/
theorem edge_target (h : NamedBodies config processNames bodies) {callee caller : ProcessBodyId}
    (hcalled : CalledBy bodies callee caller) :
    ∃ name, processNames.lookup name = some callee := by
  obtain ⟨body, edge, hbody, hedge, htarget⟩ := hcalled
  obtain ⟨statements, hfrom⟩ := h.compiled body (List.mem_of_getElem? hbody)
  rw [hfrom.edges] at hedge
  obtain ⟨name, -, rfl⟩ := List.mem_map.mp hedge
  exact ⟨name, edgeOf_target_eq_known.mp htarget⟩

theorem calleesInRange (h : NamedBodies config processNames bodies) : CalleesInRange bodies := by
  intro callee caller hcalled
  obtain ⟨name, hname⟩ := h.edge_target hcalled
  obtain ⟨processDef, body, -, hbody, -⟩ := h.named name callee hname
  exact lt_length_of_getElem? hbody

/-- Between named processes the two graphs are one. -/
theorem calledBy_iff (h : NamedBodies config processNames bodies) {callee caller : String}
    {calleeId callerId : ProcessBodyId} (hcallee : processNames.lookup callee = some calleeId)
    (hcaller : processNames.lookup caller = some callerId) :
    CalledBy bodies calleeId callerId ↔ config.CalledBy callee caller := by
  obtain ⟨body, hbody, hedges⟩ := h.callees_eq hcaller
  constructor
  · rintro ⟨other, edge, hother, hedge, hknown⟩
    obtain rfl := Option.some.inj (hbody.symm.trans hother)
    rw [hedges] at hedge
    obtain ⟨name, hname, rfl⟩ := List.mem_map.mp hedge
    -- the edge names the process whose number it has
    have hsame : name = callee := by
      have hfirst := h.lookup_eq_some_iff.mp (edgeOf_target_eq_known.mp hknown)
      exact Option.some.inj (hfirst.symm.trans (h.lookup_eq_some_iff.mp hcallee))
    rw [← hsame]
    exact ⟨mem_firstUses.mp hname, h.mem_keys_iff.mpr ⟨calleeId, hsame ▸ hcallee⟩⟩
  · rintro ⟨hmem, -⟩
    refine ⟨body, edgeOf processNames callee, hbody, ?_, edgeOf_target_eq_known.mpr hcallee⟩
    rw [hedges]
    exact List.mem_map_of_mem (mem_firstUses.mpr hmem)

/-- **One graph has a cycle when the other has.** -/
theorem acyclic_bodies_iff (h : NamedBodies config processNames bodies) :
    Acyclic (Blueprint.CalledBy bodies) ↔ Acyclic config.CalledBy := by
  have hnumber : ∀ {callee caller : String}, config.CalledBy callee caller →
      (∃ i, processNames.lookup callee = some i) ∧ ∃ j, processNames.lookup caller = some j := by
    intro callee caller hcalled
    refine ⟨h.mem_keys_iff.mp hcalled.2, ?_⟩
    cases hcaller : processNames.lookup caller with
    | none =>
        have hnone := h.callees_of_unknown hcaller
        exact absurd (hnone ▸ hcalled.1) List.not_mem_nil
    | some j => exact ⟨j, rfl⟩
  constructor
  · intro hacyclic name hcycle
    refine hacyclic ((processNames.lookup name).getD 0) (TransGen.lift
      (fun name => (processNames.lookup name).getD 0) (fun callee caller hcalled => ?_)
      _ _ hcycle)
    obtain ⟨⟨i, hi⟩, j, hj⟩ := hnumber hcalled
    change Blueprint.CalledBy bodies ((processNames.lookup callee).getD 0)
      ((processNames.lookup caller).getD 0)
    rw [hi, hj]
    exact (h.calledBy_iff hi hj).mpr hcalled
  · intro hacyclic id hcycle
    -- a path that ends in a named process goes through named processes only
    have hpath : ∀ {callee caller : ProcessBodyId}, TransGen (Blueprint.CalledBy bodies) callee
        caller → ∀ name, processNames.lookup name = some caller →
          ∃ other, processNames.lookup other = some callee ∧
            TransGen config.CalledBy other name := by
      intro callee caller hgen
      induction hgen with
      | single hcalled =>
          intro name hname
          obtain ⟨other, hother⟩ := h.edge_target hcalled
          exact ⟨other, hother, TransGen.single ((h.calledBy_iff hother hname).mp hcalled)⟩
      | tail _ hcalled ih =>
          intro name hname
          obtain ⟨middle, hmiddle⟩ := h.edge_target hcalled
          obtain ⟨other, hother, hrest⟩ := ih middle hmiddle
          exact ⟨other, hother, hrest.tail ((h.calledBy_iff hmiddle hname).mp hcalled)⟩
    obtain ⟨caller, hcalled, -⟩ := TransGen.head'_iff.mp hcycle
    obtain ⟨name, hname⟩ := h.edge_target hcalled
    obtain ⟨other, hother, hnames⟩ := hpath hcycle name hname
    have hsame : other = name := Option.some.inj
      ((h.lookup_eq_some_iff.mp hother).symm.trans (h.lookup_eq_some_iff.mp hname))
    exact hacyclic name (hsame ▸ hnames)

end NamedBodies

end Limpid.Pipeline.Blueprint
