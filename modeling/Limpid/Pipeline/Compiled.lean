import Limpid.Dsl.Serialize
import Limpid.Pipeline.Seal

/-!
# What the compiler makes of statements

The code of a process body has the calls of the body, one for one, and the slot of each call is
the place of its name among the `firstUses` of the calls; the edges of the body are those of these
names (`CompiledFrom`).  A body whose branches hold statements of its own kind compiles when there
is a slot for each name.

## Strategy

* The compilers of statements hand a table of edges on.  A table only grows, so what is said of the
  slot of a name stays true of the tables that come later (`compilePipelineBranches_grows` and the
  lemmas beside it).
* The functions are mutual, over statements, branches and arms, and so are the inductions: one
  theorem for each function, in the order of the definitions.
* With known names, room for them in the tables, and branches of their own kind, the compilers
  return (`compileChainElement_ok` to `compilePipelineArms_ok`).
-/

namespace Limpid.Pipeline.Blueprint

open Dsl SlotTable

/-! ## Process bodies -/

section Processes

variable {processNames : List (String × ProcessBodyId)} {table : EdgeTable processNames}

mutual

/-- The code of a body has the calls of the body. -/
theorem compileProcessStatements_grows : ∀ (statements : List ProcessStatement)
    {table : EdgeTable processNames} {result : List ProcessCode × EdgeTable processNames},
    compileProcessStatements processNames statements table = .ok result →
      table.Grows UInt32.size result.2 (ProcessStatement.calls statements) (codeCalls result.1)
  | [], table, _, h => by
      obtain rfl := Except.ok.inj h
      exact .refl table
  | statement :: rest, _, _, h => by
      obtain ⟨code, next, hcode, h⟩ := exists_of_bind_eq_ok h
      obtain ⟨codes, last, hcodes, h⟩ := exists_of_bind_eq_ok h
      obtain rfl := Except.ok.inj h
      exact (compileProcessStatement_grows statement hcode).trans
        (compileProcessStatements_grows rest hcodes)

theorem compileProcessStatement_grows : ∀ (statement : ProcessStatement)
    {table : EdgeTable processNames} {result : ProcessCode × EdgeTable processNames},
    compileProcessStatement processNames statement table = .ok result →
      table.Grows UInt32.size result.2 (ProcessStatement.callsOf statement)
        (statementCalls result.1)
  | .processCall name, _, _, h => by
      obtain ⟨slot, next, hslot, h⟩ := exists_of_bind_eq_ok h
      obtain rfl := Except.ok.inj h
      exact .of_slot hslot
  | .ifChain branches none, _, _, h => by
      obtain ⟨codes, next, hcodes, h⟩ := exists_of_bind_eq_ok h
      obtain rfl := Except.ok.inj h
      exact compileProcessBranches_grows branches hcodes
  | .ifChain branches (some elseBody), _, _, h => by
      obtain ⟨codes, next, hcodes, h⟩ := exists_of_bind_eq_ok h
      obtain ⟨elseCode, last, helse, h⟩ := exists_of_bind_eq_ok h
      obtain rfl := Except.ok.inj h
      exact (compileProcessBranches_grows branches hcodes).trans
        (compileProcessBranch_grows elseBody helse)
  | .switch _ arms, _, _, h => by
      obtain ⟨codes, next, hcodes, h⟩ := exists_of_bind_eq_ok h
      obtain rfl := Except.ok.inj h
      exact compileProcessArms_grows arms hcodes
  | .tryCatch tryBody catchBody, _, _, h => by
      obtain ⟨tryCode, next, htry, h⟩ := exists_of_bind_eq_ok h
      obtain ⟨catchCode, last, hcatch, h⟩ := exists_of_bind_eq_ok h
      obtain rfl := Except.ok.inj h
      exact (compileProcessStatements_grows tryBody htry).trans
        (compileProcessStatements_grows catchBody hcatch)
  | .assign _ _, table, _, h | .letBinding _ _, table, _, h | .drop, table, _, h
  | .error _, table, _, h | .exprStmt _, table, _, h => by
      obtain rfl := Except.ok.inj h
      exact .refl table

theorem compileProcessBranch_grows : ∀ (body : List BranchBody)
    {table : EdgeTable processNames} {result : List ProcessCode × EdgeTable processNames},
    compileProcessBranch processNames body table = .ok result →
      table.Grows UInt32.size result.2 (ProcessStatement.callsBranch body) (codeCalls result.1)
  | [], table, _, h => by
      obtain rfl := Except.ok.inj h
      exact .refl table
  | .process statement :: rest, _, _, h => by
      obtain ⟨code, next, hcode, h⟩ := exists_of_bind_eq_ok h
      obtain ⟨codes, last, hcodes, h⟩ := exists_of_bind_eq_ok h
      obtain rfl := Except.ok.inj h
      exact (compileProcessStatement_grows statement hcode).trans
        (compileProcessBranch_grows rest hcodes)
  | .pipeline _ :: _, _, _, h => nomatch h

theorem compileProcessBranches_grows : ∀ (branches : List (Expr × List BranchBody))
    {table : EdgeTable processNames}
    {result : List (Expr × List ProcessCode) × EdgeTable processNames},
    compileProcessBranches processNames branches table = .ok result →
      table.Grows UInt32.size result.2 (ProcessStatement.callsBranches branches)
        (branchesCalls result.1)
  | [], table, _, h => by
      obtain rfl := Except.ok.inj h
      exact .refl table
  | (_, body) :: rest, _, _, h => by
      obtain ⟨code, next, hcode, h⟩ := exists_of_bind_eq_ok h
      obtain ⟨codes, last, hcodes, h⟩ := exists_of_bind_eq_ok h
      obtain rfl := Except.ok.inj h
      exact (compileProcessBranch_grows body hcode).trans
        (compileProcessBranches_grows rest hcodes)

theorem compileProcessArms_grows : ∀ (arms : List (Option Expr × List BranchBody))
    {table : EdgeTable processNames}
    {result : List (Option Expr × List ProcessCode) × EdgeTable processNames},
    compileProcessArms processNames arms table = .ok result →
      table.Grows UInt32.size result.2 (ProcessStatement.callsArms arms) (armsCalls result.1)
  | [], table, _, h => by
      obtain rfl := Except.ok.inj h
      exact .refl table
  | (_, body) :: rest, _, _, h => by
      obtain ⟨code, next, hcode, h⟩ := exists_of_bind_eq_ok h
      obtain ⟨codes, last, hcodes, h⟩ := exists_of_bind_eq_ok h
      obtain rfl := Except.ok.inj h
      exact (compileProcessBranch_grows body hcode).trans
        (compileProcessArms_grows rest hcodes)

end

mutual

/-- A body whose branches are of its own kind compiles. -/
theorem compileProcessStatements_ok : ∀ (statements : List ProcessStatement)
    {table : EdgeTable processNames}, ProcessStatement.ownKind statements = true →
      table.HasRoom UInt32.size (ProcessStatement.calls statements) →
        ∃ result, compileProcessStatements processNames statements table = .ok result
  | [], _, _, _ => ⟨_, rfl⟩
  | statement :: rest, _, hkind, hroom => by
      obtain ⟨hfirst, hrest⟩ := Bool.and_eq_true_iff.mp hkind
      refine exists_bind_eq_ok (compileProcessStatement_ok statement hfirst hroom.left)
        fun code next hcode => ?_
      have hgrows := compileProcessStatement_grows statement hcode
      exact exists_bind_eq_ok (compileProcessStatements_ok rest hrest (hroom.right hgrows))
        fun _ _ _ => ⟨_, rfl⟩

theorem compileProcessStatement_ok : ∀ (statement : ProcessStatement)
    {table : EdgeTable processNames}, ProcessStatement.ownKindOf statement = true →
      table.HasRoom UInt32.size (ProcessStatement.callsOf statement) →
        ∃ result, compileProcessStatement processNames statement table = .ok result
  | .processCall _, _, _, hroom => exists_bind_eq_ok (exists_slot hroom) fun _ _ _ => ⟨_, rfl⟩
  | .ifChain branches none, _, hkind, hroom =>
      exists_bind_eq_ok (compileProcessBranches_ok branches hkind hroom) fun _ _ _ => ⟨_, rfl⟩
  | .ifChain branches (some elseBody), _, hkind, hroom => by
      obtain ⟨hbranches, helse⟩ := Bool.and_eq_true_iff.mp hkind
      refine exists_bind_eq_ok (compileProcessBranches_ok branches hbranches hroom.left)
        fun codes next hcodes => ?_
      have hgrows := compileProcessBranches_grows branches hcodes
      exact exists_bind_eq_ok (compileProcessBranch_ok elseBody helse (hroom.right hgrows))
        fun _ _ _ => ⟨_, rfl⟩
  | .switch _ arms, _, hkind, hroom =>
      exists_bind_eq_ok (compileProcessArms_ok arms hkind hroom) fun _ _ _ => ⟨_, rfl⟩
  | .tryCatch tryBody catchBody, _, hkind, hroom => by
      obtain ⟨htry, hcatch⟩ := Bool.and_eq_true_iff.mp hkind
      refine exists_bind_eq_ok (compileProcessStatements_ok tryBody htry hroom.left)
        fun code next hcode => ?_
      have hgrows := compileProcessStatements_grows tryBody hcode
      exact exists_bind_eq_ok (compileProcessStatements_ok catchBody hcatch (hroom.right hgrows))
        fun _ _ _ => ⟨_, rfl⟩
  | .assign _ _, _, _, _ | .letBinding _ _, _, _, _ | .drop, _, _, _ | .error _, _, _, _
  | .exprStmt _, _, _, _ => ⟨_, rfl⟩

theorem compileProcessBranch_ok : ∀ (body : List BranchBody) {table : EdgeTable processNames},
    ProcessStatement.ownKindBranch body = true →
      table.HasRoom UInt32.size (ProcessStatement.callsBranch body) →
        ∃ result, compileProcessBranch processNames body table = .ok result
  | [], _, _, _ => ⟨_, rfl⟩
  | .process statement :: rest, _, hkind, hroom => by
      obtain ⟨hfirst, hrest⟩ := Bool.and_eq_true_iff.mp hkind
      refine exists_bind_eq_ok (compileProcessStatement_ok statement hfirst hroom.left)
        fun code next hcode => ?_
      have hgrows := compileProcessStatement_grows statement hcode
      exact exists_bind_eq_ok (compileProcessBranch_ok rest hrest (hroom.right hgrows))
        fun _ _ _ => ⟨_, rfl⟩
  | .pipeline _ :: _, _, hkind, _ => nomatch hkind

theorem compileProcessBranches_ok : ∀ (branches : List (Expr × List BranchBody))
    {table : EdgeTable processNames}, ProcessStatement.ownKindBranches branches = true →
      table.HasRoom UInt32.size (ProcessStatement.callsBranches branches) →
        ∃ result, compileProcessBranches processNames branches table = .ok result
  | [], _, _, _ => ⟨_, rfl⟩
  | (_, body) :: rest, _, hkind, hroom => by
      obtain ⟨hfirst, hrest⟩ := Bool.and_eq_true_iff.mp hkind
      refine exists_bind_eq_ok (compileProcessBranch_ok body hfirst hroom.left)
        fun code next hcode => ?_
      have hgrows := compileProcessBranch_grows body hcode
      exact exists_bind_eq_ok (compileProcessBranches_ok rest hrest (hroom.right hgrows))
        fun _ _ _ => ⟨_, rfl⟩

theorem compileProcessArms_ok : ∀ (arms : List (Option Expr × List BranchBody))
    {table : EdgeTable processNames}, ProcessStatement.ownKindArms arms = true →
      table.HasRoom UInt32.size (ProcessStatement.callsArms arms) →
        ∃ result, compileProcessArms processNames arms table = .ok result
  | [], _, _, _ => ⟨_, rfl⟩
  | (_, body) :: rest, _, hkind, hroom => by
      obtain ⟨hfirst, hrest⟩ := Bool.and_eq_true_iff.mp hkind
      refine exists_bind_eq_ok (compileProcessBranch_ok body hfirst hroom.left)
        fun code next hcode => ?_
      have hgrows := compileProcessBranch_grows body hcode
      exact exists_bind_eq_ok (compileProcessArms_ok rest hrest (hroom.right hgrows))
        fun _ _ _ => ⟨_, rfl⟩

end

/-- A body is compiled from statements: its calls are theirs, its edges are those of the names
called, and each call has the slot of its edge. -/
structure CompiledFrom (processNames : List (String × ProcessBodyId))
    (statements : List ProcessStatement) (body : ProcessBodyCode) : Prop where
  calls : (codeCalls body.code).map Prod.fst = ProcessStatement.calls statements
  edges : body.edges =
    (firstUses (ProcessStatement.calls statements)).map (edgeOf processNames)
  slots : ∀ call ∈ codeCalls body.code,
    (firstUses (ProcessStatement.calls statements))[call.2]? = some call.1
  room : body.edges.length ≤ UInt32.size

theorem compileProcessBody_spec {name : String} {statements : List ProcessStatement}
    {body : ProcessBodyCode} (h : compileProcessBody processNames name statements = .ok body) :
    body.name = name ∧ CompiledFrom processNames statements body := by
  unfold compileProcessBody at h
  obtain ⟨⟨code, table⟩, hcode, h⟩ := Except.exists_of_bind_eq_ok h
  obtain rfl := Except.ok.inj h
  have hgrows := compileProcessStatements_grows statements hcode
  refine ⟨rfl, hgrows.uses, ?_, fun call hcall => ?_, ?_⟩
  · change table.entries = _
    rw [table.entries_eq]
    exact congrArg (List.map _) hgrows.names
  · have hslot := hgrows.slots call hcall
    rwa [hgrows.names] at hslot
  · change table.entries.length ≤ _
    rw [table.length_entries]
    exact hgrows.room (Nat.zero_le _)

theorem compileProcessBody_ok {statements : List ProcessStatement}
    (hkind : ProcessStatement.ownKind statements = true)
    (hroom : (ProcessStatement.calls statements).dedup.length ≤ UInt32.size) (name : String) :
    ∃ body, compileProcessBody processNames name statements = .ok body := by
  unfold compileProcessBody
  have hempty : (SlotTable.empty : EdgeTable processNames).HasRoom UInt32.size
      (ProcessStatement.calls statements) := by
    rw [← length_firstUses] at hroom
    exact hroom
  obtain ⟨result, hresult⟩ := compileProcessStatements_ok statements hkind hempty
  rw [hresult]
  exact ⟨_, rfl⟩

end Processes

/-! ## Pipeline bodies -/

section Pipelines

variable {processNames : List (String × ProcessBodyId)}

/-- The process is written in the chain. -/
def isInline : ProcessChainElement → Bool
  | .named _ => false
  | .inline _ => true

/-- A site is the one of an element: it runs the body of the named process, or a body of its own
that comes after those of the named processes. -/
inductive SiteOf (processNames : List (String × ProcessBodyId)) (bodies : List ProcessBodyCode) :
    ProcessChainElement → ProcessSite → Prop
  | named {name : String} {id : ProcessBodyId} {node : MetricNodeId} :
      processNames.lookup name = some id →
        SiteOf processNames bodies (.named name) ⟨name, .named, id, node⟩
  | inline {statements : List ProcessStatement} {body : ProcessBodyCode} {id : ProcessBodyId}
      {node : MetricNodeId} : bodies[id]? = some body →
        CompiledFrom processNames statements body → processNames.length ≤ id →
          SiteOf processNames bodies (.inline statements) ⟨"(inline)", .inline, id, node⟩

theorem SiteOf.mono {bodies more : List ProcessBodyCode} (hbodies : bodies <+: more)
    {element : ProcessChainElement} {site : ProcessSite}
    (h : SiteOf processNames bodies element site) : SiteOf processNames more element site := by
  cases h with
  | named hname => exact .named hname
  | inline hbody hfrom hid => exact .inline (getElem?_of_isPrefix hbodies hbody) hfrom hid

/-- What a part of a pipeline body adds: a body for each inline process, the outputs it names, and
a site for each element of its chains. -/
structure PipelineTables.Grows (processNames : List (String × ProcessBodyId))
    (tables next : PipelineTables) (elements : List ProcessChainElement)
    (sites : List ProcessSite) (outputs : List String)
    (given : List (String × OutputTimerSlot)) : Prop where
  bodies : tables.processBodies <+: next.processBodies
  length : next.processBodies.length = tables.processBodies.length + elements.countP isInline
  room : tables.processBodies.length ≤ UInt32.size → next.processBodies.length ≤ UInt32.size
  compiled : ∀ body ∈ next.processBodies, body ∈ tables.processBodies ∨
    ∃ statements, CompiledFrom processNames statements body
  outputs : tables.outputs.Grows UInt32.size next.outputs outputs given
  sites : List.Forall₂ (SiteOf processNames next.processBodies) elements sites

namespace PipelineTables.Grows

variable {tables next last : PipelineTables} {elements others : List ProcessChainElement}
  {sites more : List ProcessSite} {outputs names : List String}
  {given slots : List (String × OutputTimerSlot)}

theorem refl (tables : PipelineTables) : tables.Grows processNames tables [] [] [] [] where
  bodies := List.prefix_rfl
  length := rfl
  room := id
  compiled _ hbody := Or.inl hbody
  outputs := .refl tables.outputs
  sites := .nil

theorem trans (h : tables.Grows processNames next elements sites outputs given)
    (hnext : next.Grows processNames last others more names slots) :
    tables.Grows processNames last (elements ++ others) (sites ++ more) (outputs ++ names)
      (given ++ slots) where
  bodies := h.bodies.trans hnext.bodies
  length := by rw [List.countP_append, hnext.length, h.length, Nat.add_assoc]
  room htables := hnext.room (h.room htables)
  compiled body hbody := by
    rcases hnext.compiled body hbody with hbefore | hnew
    · exact h.compiled body hbefore
    · exact Or.inr hnew
  outputs := h.outputs.trans hnext.outputs
  sites := List.rel_append (h.sites.imp fun _ _ => SiteOf.mono hnext.bodies) hnext.sites

/-- There are at least as many bodies as before. -/
theorem le_length (h : tables.Grows processNames next elements sites outputs given)
    (hbodies : processNames.length ≤ tables.processBodies.length) :
    processNames.length ≤ next.processBodies.length :=
  Nat.le_trans hbodies h.bodies.length_le

end PipelineTables.Grows

theorem compileChainElement_grows {element : ProcessChainElement} {tables : PipelineTables}
    {result : ProcessSite × PipelineTables}
    (hbodies : processNames.length ≤ tables.processBodies.length)
    (h : compileChainElement processNames element tables = .ok result) :
    tables.Grows processNames result.2 [element] [result.1] [] [] := by
  cases element with
  | named name =>
      cases hname : processNames.lookup name with
      | none =>
          simp only [compileChainElement, hname] at h
          exact nomatch h
      | some id =>
          simp only [compileChainElement, hname] at h
          obtain rfl := Except.ok.inj h
          exact {
            bodies := List.prefix_rfl
            length := rfl
            room := fun hroom => hroom
            compiled := fun _ hbody => Or.inl hbody
            outputs := .refl tables.outputs
            sites := .cons (.named hname) .nil }
  | inline statements =>
      obtain ⟨id, next, hid, h⟩ := exists_of_bind_eq_ok h
      obtain rfl := Except.ok.inj h
      unfold compileInline at hid
      obtain ⟨id', hindex, hid⟩ := Except.exists_of_bind_eq_ok hid
      obtain ⟨body, hbody, hid⟩ := Except.exists_of_bind_eq_ok hid
      obtain ⟨rfl, rfl⟩ := Prod.mk.inj (Except.ok.inj hid)
      -- the new body is the last one
      obtain ⟨hlt, rfl⟩ := fromIndex_eq_ok_iff.mp hindex
      obtain ⟨-, hfrom⟩ := compileProcessBody_spec hbody
      exact {
        bodies := List.prefix_append _ _
        length := List.length_append
        room := fun _ => by
          rw [List.length_append]
          exact hlt
        compiled := fun other hother => by
          rcases List.mem_append.mp hother with hother | hother
          · exact Or.inl hother
          · exact Or.inr ⟨statements, List.mem_singleton.mp hother ▸ hfrom⟩
        outputs := .refl tables.outputs
        sites := .cons (.inline List.getElem?_concat_length hfrom hbodies) .nil }

theorem compileChain_grows (chain : List ProcessChainElement) {tables : PipelineTables}
    {result : List ProcessSite × PipelineTables}
    (hbodies : processNames.length ≤ tables.processBodies.length)
    (h : mapInOrder (compileChainElement processNames) chain tables = .ok result) :
    tables.Grows processNames result.2 chain result.1 [] [] := by
  induction chain generalizing tables result with
  | nil =>
      obtain rfl := Except.ok.inj h
      exact .refl tables
  | cons element rest ih =>
      obtain ⟨site, next, hsite, h⟩ := exists_of_bind_eq_ok h
      obtain ⟨sites, last, hsites, h⟩ := exists_of_bind_eq_ok h
      obtain rfl := Except.ok.inj h
      have hgrows := compileChainElement_grows hbodies hsite
      exact hgrows.trans (ih (hgrows.le_length hbodies) hsites)

theorem outputSlot_grows {name : String} {tables : PipelineTables}
    {result : OutputTimerSlot × PipelineTables} (h : outputSlot name tables = .ok result) :
    tables.Grows processNames result.2 [] [] [name] [(name, result.1)] := by
  unfold outputSlot at h
  obtain ⟨given, hslot, h⟩ := Except.exists_of_bind_eq_ok h
  obtain rfl := Except.ok.inj h
  exact {
    bodies := List.prefix_rfl
    length := rfl
    room := id
    compiled := fun _ hbody => Or.inl hbody
    outputs := .of_slot hslot
    sites := .nil }

mutual

/-- The code of a body has the sites and the outputs of the body. -/
theorem compilePipelineStatements_grows : ∀ (statements : List PipelineStatement)
    {tables : PipelineTables} {result : List PipelineCode × PipelineTables},
    processNames.length ≤ tables.processBodies.length →
      compilePipelineStatements processNames statements tables = .ok result →
        tables.Grows processNames result.2 (PipelineStatement.elements statements)
          (codeSites result.1) (PipelineStatement.outputs statements) (codeOutputs result.1)
  | [], tables, _, _, h => by
      obtain rfl := Except.ok.inj h
      exact .refl tables
  | statement :: rest, _, _, hbodies, h => by
      obtain ⟨code, next, hcode, h⟩ := exists_of_bind_eq_ok h
      obtain ⟨codes, last, hcodes, h⟩ := exists_of_bind_eq_ok h
      obtain rfl := Except.ok.inj h
      have hgrows := compilePipelineStatement_grows statement hbodies hcode
      exact hgrows.trans (compilePipelineStatements_grows rest (hgrows.le_length hbodies) hcodes)

theorem compilePipelineStatement_grows : ∀ (statement : PipelineStatement)
    {tables : PipelineTables} {result : PipelineCode × PipelineTables},
    processNames.length ≤ tables.processBodies.length →
      compilePipelineStatement processNames statement tables = .ok result →
        tables.Grows processNames result.2 (PipelineStatement.elementsOf statement)
          (statementSites result.1) (PipelineStatement.outputsOf statement)
          (statementOutputs result.1)
  | .processChain chain, _, _, hbodies, h => by
      obtain ⟨sites, next, hsites, h⟩ := exists_of_bind_eq_ok h
      obtain rfl := Except.ok.inj h
      exact compileChain_grows chain hbodies hsites
  | .output name, _, _, _, h => by
      obtain ⟨slot, next, hslot, h⟩ := exists_of_bind_eq_ok h
      obtain rfl := Except.ok.inj h
      exact outputSlot_grows hslot
  | .ifChain branches none, _, _, hbodies, h => by
      obtain ⟨codes, next, hcodes, h⟩ := exists_of_bind_eq_ok h
      obtain rfl := Except.ok.inj h
      exact compilePipelineBranches_grows branches hbodies hcodes
  | .ifChain branches (some elseBody), _, _, hbodies, h => by
      obtain ⟨codes, next, hcodes, h⟩ := exists_of_bind_eq_ok h
      obtain ⟨elseCode, last, helse, h⟩ := exists_of_bind_eq_ok h
      obtain rfl := Except.ok.inj h
      have hgrows := compilePipelineBranches_grows branches hbodies hcodes
      exact hgrows.trans (compilePipelineBranch_grows elseBody (hgrows.le_length hbodies) helse)
  | .switch _ arms, _, _, hbodies, h => by
      obtain ⟨codes, next, hcodes, h⟩ := exists_of_bind_eq_ok h
      obtain rfl := Except.ok.inj h
      exact compilePipelineArms_grows arms hbodies hcodes
  | .input _, tables, _, _, h | .drop, tables, _, _, h | .finish, tables, _, _, h
  | .error _, tables, _, _, h => by
      obtain rfl := Except.ok.inj h
      exact .refl tables

theorem compilePipelineBranch_grows : ∀ (body : List BranchBody)
    {tables : PipelineTables} {result : List PipelineCode × PipelineTables},
    processNames.length ≤ tables.processBodies.length →
      compilePipelineBranch processNames body tables = .ok result →
        tables.Grows processNames result.2 (PipelineStatement.elementsBranch body)
          (codeSites result.1) (PipelineStatement.outputsBranch body) (codeOutputs result.1)
  | [], tables, _, _, h => by
      obtain rfl := Except.ok.inj h
      exact .refl tables
  | .pipeline statement :: rest, _, _, hbodies, h => by
      obtain ⟨code, next, hcode, h⟩ := exists_of_bind_eq_ok h
      obtain ⟨codes, last, hcodes, h⟩ := exists_of_bind_eq_ok h
      obtain rfl := Except.ok.inj h
      have hgrows := compilePipelineStatement_grows statement hbodies hcode
      exact hgrows.trans (compilePipelineBranch_grows rest (hgrows.le_length hbodies) hcodes)
  | .process _ :: _, _, _, _, h => nomatch h

theorem compilePipelineBranches_grows : ∀ (branches : List (Expr × List BranchBody))
    {tables : PipelineTables} {result : List (Expr × List PipelineCode) × PipelineTables},
    processNames.length ≤ tables.processBodies.length →
      compilePipelineBranches processNames branches tables = .ok result →
        tables.Grows processNames result.2 (PipelineStatement.elementsBranches branches)
          (branchesSites result.1) (PipelineStatement.outputsBranches branches)
          (branchesOutputs result.1)
  | [], tables, _, _, h => by
      obtain rfl := Except.ok.inj h
      exact .refl tables
  | (_, body) :: rest, _, _, hbodies, h => by
      obtain ⟨code, next, hcode, h⟩ := exists_of_bind_eq_ok h
      obtain ⟨codes, last, hcodes, h⟩ := exists_of_bind_eq_ok h
      obtain rfl := Except.ok.inj h
      have hgrows := compilePipelineBranch_grows body hbodies hcode
      exact hgrows.trans (compilePipelineBranches_grows rest (hgrows.le_length hbodies) hcodes)

theorem compilePipelineArms_grows : ∀ (arms : List (Option Expr × List BranchBody))
    {tables : PipelineTables} {result : List (Option Expr × List PipelineCode) × PipelineTables},
    processNames.length ≤ tables.processBodies.length →
      compilePipelineArms processNames arms tables = .ok result →
        tables.Grows processNames result.2 (PipelineStatement.elementsArms arms)
          (armsSites result.1) (PipelineStatement.outputsArms arms) (armsOutputs result.1)
  | [], tables, _, _, h => by
      obtain rfl := Except.ok.inj h
      exact .refl tables
  | (_, body) :: rest, _, _, hbodies, h => by
      obtain ⟨code, next, hcode, h⟩ := exists_of_bind_eq_ok h
      obtain ⟨codes, last, hcodes, h⟩ := exists_of_bind_eq_ok h
      obtain rfl := Except.ok.inj h
      have hgrows := compilePipelineBranch_grows body hbodies hcode
      exact hgrows.trans (compilePipelineArms_grows rest (hgrows.le_length hbodies) hcodes)

end

/-- The named processes of the elements are there, and the new bodies, their edges and the outputs
have room. -/
structure PipelineTables.HasRoom (processNames : List (String × ProcessBodyId))
    (tables : PipelineTables) (elements : List ProcessChainElement) (outputs : List String) :
    Prop where
  defined : ∀ name, .named name ∈ elements → name ∈ Entries.keys processNames
  bodies : tables.processBodies.length + elements.countP isInline ≤ UInt32.size
  edges : ∀ statements, .inline statements ∈ elements →
    (ProcessStatement.calls statements).dedup.length ≤ UInt32.size
  outputs : tables.outputs.HasRoom UInt32.size outputs

namespace PipelineTables.HasRoom

variable {tables next : PipelineTables} {elements others : List ProcessChainElement}
  {sites : List ProcessSite} {outputs names : List String}
  {given : List (String × OutputTimerSlot)}

theorem left (h : tables.HasRoom processNames (elements ++ others) (outputs ++ names)) :
    tables.HasRoom processNames elements outputs where
  defined name hname := h.defined name (List.mem_append_left _ hname)
  bodies := by
    have hbodies := h.bodies
    rw [List.countP_append] at hbodies
    omega
  edges statements hmem := h.edges statements (List.mem_append_left _ hmem)
  outputs := h.outputs.left

theorem right (h : tables.HasRoom processNames (elements ++ others) (outputs ++ names))
    (hgrows : tables.Grows processNames next elements sites outputs given) :
    next.HasRoom processNames others names where
  defined name hname := h.defined name (List.mem_append_right _ hname)
  bodies := by
    have hbodies := h.bodies
    rw [List.countP_append] at hbodies
    rw [hgrows.length]
    omega
  edges statements hmem := h.edges statements (List.mem_append_right _ hmem)
  outputs := h.outputs.right hgrows.outputs

end PipelineTables.HasRoom

theorem compileChainElement_ok {element : ProcessChainElement} {tables : PipelineTables}
    (hkind : element.ownKind = true) (hroom : tables.HasRoom processNames [element] []) :
    ∃ result, compileChainElement processNames element tables = .ok result := by
  cases element with
  | named name =>
      cases hname : processNames.lookup name with
      | none =>
          have hmem := hroom.defined name List.mem_cons_self
          exact absurd hmem (Entries.lookup_eq_none_iff.mp hname)
      | some id =>
          simp only [compileChainElement, hname]
          exact ⟨_, rfl⟩
  | inline statements =>
      have hindex : tables.processBodies.length < UInt32.size := hroom.bodies
      obtain ⟨body, hbody⟩ := @compileProcessBody_ok processNames statements hkind
        (hroom.edges statements List.mem_cons_self) (inlineName tables.processBodies.length)
      have hinline : compileInline processNames statements tables = .ok
          (tables.processBodies.length,
            { tables with processBodies := tables.processBodies ++ [body] }) := by
        unfold compileInline
        rw [fromIndex_eq_ok_iff.mpr ⟨hindex, rfl⟩]
        change (compileProcessBody processNames _ statements >>= _) = _
        rw [hbody]
        rfl
      exact exists_bind_eq_ok ⟨_, hinline⟩ fun _ _ _ => ⟨_, rfl⟩

theorem compileChain_ok (chain : List ProcessChainElement) {tables : PipelineTables}
    (hbodies : processNames.length ≤ tables.processBodies.length)
    (hkind : chain.all ProcessChainElement.ownKind = true)
    (hroom : tables.HasRoom processNames chain []) :
    ∃ result, mapInOrder (compileChainElement processNames) chain tables = .ok result := by
  induction chain generalizing tables with
  | nil => exact ⟨_, rfl⟩
  | cons element rest ih =>
      obtain ⟨hfirst, hrest⟩ := Bool.and_eq_true_iff.mp hkind
      have hroom : tables.HasRoom processNames ([element] ++ rest) ([] ++ []) := hroom
      refine exists_bind_eq_ok (compileChainElement_ok hfirst hroom.left) fun site next hsite => ?_
      have hgrows := compileChainElement_grows hbodies hsite
      exact exists_bind_eq_ok (ih (hgrows.le_length hbodies) hrest (hroom.right hgrows))
        fun _ _ _ => ⟨_, rfl⟩

theorem outputSlot_ok {name : String} {tables : PipelineTables}
    (hroom : tables.HasRoom processNames [] [name]) :
    ∃ result, outputSlot name tables = .ok result := by
  obtain ⟨given, hgiven⟩ := @exists_slot _ _ _ _ _ _ timerLimit _ _ hroom.outputs
  unfold outputSlot
  rw [hgiven]
  exact ⟨_, rfl⟩

mutual

/-- A body whose branches are of its own kind compiles. -/
theorem compilePipelineStatements_ok : ∀ (statements : List PipelineStatement)
    {tables : PipelineTables}, processNames.length ≤ tables.processBodies.length →
      PipelineStatement.ownKind statements = true →
        tables.HasRoom processNames (PipelineStatement.elements statements)
          (PipelineStatement.outputs statements) →
            ∃ result, compilePipelineStatements processNames statements tables = .ok result
  | [], _, _, _, _ => ⟨_, rfl⟩
  | statement :: rest, _, hbodies, hkind, hroom => by
      obtain ⟨hfirst, hrest⟩ := Bool.and_eq_true_iff.mp hkind
      refine exists_bind_eq_ok (compilePipelineStatement_ok statement hbodies hfirst hroom.left)
        fun code next hcode => ?_
      have hgrows := compilePipelineStatement_grows statement hbodies hcode
      exact exists_bind_eq_ok (compilePipelineStatements_ok rest (hgrows.le_length hbodies) hrest
        (hroom.right hgrows)) fun _ _ _ => ⟨_, rfl⟩

theorem compilePipelineStatement_ok : ∀ (statement : PipelineStatement)
    {tables : PipelineTables}, processNames.length ≤ tables.processBodies.length →
      PipelineStatement.ownKindOf statement = true →
        tables.HasRoom processNames (PipelineStatement.elementsOf statement)
          (PipelineStatement.outputsOf statement) →
            ∃ result, compilePipelineStatement processNames statement tables = .ok result
  | .processChain chain, _, hbodies, hkind, hroom =>
      exists_bind_eq_ok (compileChain_ok chain hbodies hkind hroom) fun _ _ _ => ⟨_, rfl⟩
  | .output _, _, _, _, hroom => exists_bind_eq_ok (outputSlot_ok hroom) fun _ _ _ => ⟨_, rfl⟩
  | .ifChain branches none, _, hbodies, hkind, hroom =>
      exists_bind_eq_ok (compilePipelineBranches_ok branches hbodies hkind hroom)
        fun _ _ _ => ⟨_, rfl⟩
  | .ifChain branches (some elseBody), _, hbodies, hkind, hroom => by
      obtain ⟨hbranches, helse⟩ := Bool.and_eq_true_iff.mp hkind
      refine exists_bind_eq_ok (compilePipelineBranches_ok branches hbodies hbranches hroom.left)
        fun codes next hcodes => ?_
      have hgrows := compilePipelineBranches_grows branches hbodies hcodes
      exact exists_bind_eq_ok (compilePipelineBranch_ok elseBody (hgrows.le_length hbodies) helse
        (hroom.right hgrows)) fun _ _ _ => ⟨_, rfl⟩
  | .switch _ arms, _, hbodies, hkind, hroom =>
      exists_bind_eq_ok (compilePipelineArms_ok arms hbodies hkind hroom) fun _ _ _ => ⟨_, rfl⟩
  | .input _, _, _, _, _ | .drop, _, _, _, _ | .finish, _, _, _, _ | .error _, _, _, _, _ =>
      ⟨_, rfl⟩

theorem compilePipelineBranch_ok : ∀ (body : List BranchBody) {tables : PipelineTables},
    processNames.length ≤ tables.processBodies.length →
      PipelineStatement.ownKindBranch body = true →
        tables.HasRoom processNames (PipelineStatement.elementsBranch body)
          (PipelineStatement.outputsBranch body) →
            ∃ result, compilePipelineBranch processNames body tables = .ok result
  | [], _, _, _, _ => ⟨_, rfl⟩
  | .pipeline statement :: rest, _, hbodies, hkind, hroom => by
      obtain ⟨hfirst, hrest⟩ := Bool.and_eq_true_iff.mp hkind
      refine exists_bind_eq_ok (compilePipelineStatement_ok statement hbodies hfirst hroom.left)
        fun code next hcode => ?_
      have hgrows := compilePipelineStatement_grows statement hbodies hcode
      exact exists_bind_eq_ok (compilePipelineBranch_ok rest (hgrows.le_length hbodies) hrest
        (hroom.right hgrows)) fun _ _ _ => ⟨_, rfl⟩
  | .process _ :: _, _, _, hkind, _ => nomatch hkind

theorem compilePipelineBranches_ok : ∀ (branches : List (Expr × List BranchBody))
    {tables : PipelineTables}, processNames.length ≤ tables.processBodies.length →
      PipelineStatement.ownKindBranches branches = true →
        tables.HasRoom processNames (PipelineStatement.elementsBranches branches)
          (PipelineStatement.outputsBranches branches) →
            ∃ result, compilePipelineBranches processNames branches tables = .ok result
  | [], _, _, _, _ => ⟨_, rfl⟩
  | (_, body) :: rest, _, hbodies, hkind, hroom => by
      obtain ⟨hfirst, hrest⟩ := Bool.and_eq_true_iff.mp hkind
      refine exists_bind_eq_ok (compilePipelineBranch_ok body hbodies hfirst hroom.left)
        fun code next hcode => ?_
      have hgrows := compilePipelineBranch_grows body hbodies hcode
      exact exists_bind_eq_ok (compilePipelineBranches_ok rest (hgrows.le_length hbodies) hrest
        (hroom.right hgrows)) fun _ _ _ => ⟨_, rfl⟩

theorem compilePipelineArms_ok : ∀ (arms : List (Option Expr × List BranchBody))
    {tables : PipelineTables}, processNames.length ≤ tables.processBodies.length →
      PipelineStatement.ownKindArms arms = true →
        tables.HasRoom processNames (PipelineStatement.elementsArms arms)
          (PipelineStatement.outputsArms arms) →
            ∃ result, compilePipelineArms processNames arms tables = .ok result
  | [], _, _, _, _ => ⟨_, rfl⟩
  | (_, body) :: rest, _, hbodies, hkind, hroom => by
      obtain ⟨hfirst, hrest⟩ := Bool.and_eq_true_iff.mp hkind
      refine exists_bind_eq_ok (compilePipelineBranch_ok body hbodies hfirst hroom.left)
        fun code next hcode => ?_
      have hgrows := compilePipelineBranch_grows body hbodies hcode
      exact exists_bind_eq_ok (compilePipelineArms_ok rest (hgrows.le_length hbodies) hrest
        (hroom.right hgrows)) fun _ _ _ => ⟨_, rfl⟩

end

end Pipelines

end Limpid.Pipeline.Blueprint
