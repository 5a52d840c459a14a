import Limpid.Check.Cycles
import Limpid.Dsl.Termination

/-!
# Accepted functions and their termination

The calls a run can make are those `callSites` lists.  The check collects every one that is not
made inside the block of a `map`, `filter`, `find` or `reduce` (`mem_collect_of_callSites`), so an
accepted configuration has no cycle of such calls.  A cycle through a block is not seen: in the
configuration `selfMapping` a function maps itself over its argument, the check has nothing to
say about it, and a call with a one-element array has no result at any depth
(`accepted_diverges`).

This is the only way: an accepted configuration has no cycle of calls, and all its functions
return, exactly when no call made inside a block leads back to the function it is made in
(`accepted_terminates`).
-/

namespace Limpid.Check

open Dsl FunctionRegistry Relation

variable {World : Type}

/-! ## The calls the check collects -/

section Collected

variable {config : CompiledConfig} {g : String}

mutual

/-- A call outside blocks of a function of the configuration is collected; the calls of a block
are all inside one. -/
theorem mem_collect_of_callSites (hg : g ∈ config.functionNames) {b : Bool} : ∀ e : Expr,
    (false, (none, g)) ∈ callSites b e → b = false ∧ g ∈ collectUserCallees config e
  | .template fragments, h => mem_collectFragments hg fragments h
  | .funcCall ns name args none, h => by
      rcases List.mem_cons.mp h with h | h
      · obtain ⟨rfl, rfl, rfl⟩ : false = b ∧ none = ns ∧ g = name := by simpa using h
        exact ⟨rfl, List.mem_append_left _ (by simp [hg])⟩
      · obtain ⟨hb, hargs⟩ := mem_collectArgs hg args h
        exact ⟨hb, List.mem_append_right _ hargs⟩
  | .funcCall ns name args (some (.mk params lets ret)), h => by
      rcases List.mem_append.mp h with h | h
      · obtain ⟨hb, hargs⟩ := mem_collectArgs hg args h
        exact ⟨hb, List.mem_append_right _ hargs⟩
      · -- the sites of a block are marked as such
        rcases List.mem_append.mp h with h | h
        · exact absurd (mem_collectEntries hg lets h).1 (by decide)
        · exact absurd (mem_collect_of_callSites hg ret h).1 (by decide)
  | .binOp left _ right, h => by
      rcases List.mem_append.mp h with h | h
      · obtain ⟨hb, hleft⟩ := mem_collect_of_callSites hg left h
        exact ⟨hb, List.mem_append_left _ hleft⟩
      · obtain ⟨hb, hright⟩ := mem_collect_of_callSites hg right h
        exact ⟨hb, List.mem_append_right _ hright⟩
  | .unaryOp _ operand, h => mem_collect_of_callSites hg operand h
  | .hashLit entries, h => mem_collectEntries hg entries h
  | .arrayLit items, h => mem_collectArgs hg items h
  | .propertyAccess base _, h => mem_collect_of_callSites hg base h
  | .switchExpr scrutinee arms, h => by
      rcases List.mem_append.mp h with h | h
      · obtain ⟨hb, hscrutinee⟩ := mem_collect_of_callSites hg scrutinee h
        exact ⟨hb, List.mem_append_left _ hscrutinee⟩
      · obtain ⟨hb, harms⟩ := mem_collectArms hg arms h
        exact ⟨hb, List.mem_append_right _ harms⟩
  | .stringLit _, h | .intLit _, h | .floatLit _, h | .boolLit _, h | .null, h | .ident _, h =>
      absurd h List.not_mem_nil

theorem mem_collectArgs (hg : g ∈ config.functionNames) {b : Bool} : ∀ args : List Expr,
    (false, (none, g)) ∈ callSitesArgs b args → b = false ∧ g ∈ collectArgs config args
  | [], h => absurd h List.not_mem_nil
  | e :: rest, h => by
      rcases List.mem_append.mp h with h | h
      · obtain ⟨hb, he⟩ := mem_collect_of_callSites hg e h
        exact ⟨hb, List.mem_append_left _ he⟩
      · obtain ⟨hb, hrest⟩ := mem_collectArgs hg rest h
        exact ⟨hb, List.mem_append_right _ hrest⟩

theorem mem_collectFragments (hg : g ∈ config.functionNames) {b : Bool} :
    ∀ fragments : List TemplateFragment, (false, (none, g)) ∈ callSitesFragments b fragments →
      b = false ∧ g ∈ collectFragments config fragments
  | [], h => absurd h List.not_mem_nil
  | .literal _ :: rest, h => mem_collectFragments hg rest h
  | .interp e :: rest, h => by
      rcases List.mem_append.mp h with h | h
      · obtain ⟨hb, he⟩ := mem_collect_of_callSites hg e h
        exact ⟨hb, List.mem_append_left _ he⟩
      · obtain ⟨hb, hrest⟩ := mem_collectFragments hg rest h
        exact ⟨hb, List.mem_append_right _ hrest⟩

theorem mem_collectEntries (hg : g ∈ config.functionNames) {b : Bool} :
    ∀ entries : List (String × Expr), (false, (none, g)) ∈ callSitesEntries b entries →
      b = false ∧ g ∈ collectEntries config entries
  | [], h => absurd h List.not_mem_nil
  | (_, e) :: rest, h => by
      rcases List.mem_append.mp h with h | h
      · obtain ⟨hb, he⟩ := mem_collect_of_callSites hg e h
        exact ⟨hb, List.mem_append_left _ he⟩
      · obtain ⟨hb, hrest⟩ := mem_collectEntries hg rest h
        exact ⟨hb, List.mem_append_right _ hrest⟩

theorem mem_collectArms (hg : g ∈ config.functionNames) {b : Bool} :
    ∀ arms : List (Option Expr × Expr), (false, (none, g)) ∈ callSitesArms b arms →
      b = false ∧ g ∈ collectArms config arms
  | [], h => absurd h List.not_mem_nil
  | (none, body) :: rest, h => by
      rcases List.mem_append.mp h with h | h
      · obtain ⟨hb, hbody⟩ := mem_collect_of_callSites hg body h
        exact ⟨hb, List.mem_append_left _ hbody⟩
      · obtain ⟨hb, hrest⟩ := mem_collectArms hg rest h
        exact ⟨hb, List.mem_append_right _ hrest⟩
  | (some pattern, body) :: rest, h => by
      rcases List.mem_append.mp h with h | h
      · obtain ⟨hb, hpattern⟩ := mem_collect_of_callSites hg pattern h
        exact ⟨hb, List.mem_append_left _ (List.mem_append_left _ hpattern)⟩
      · rcases List.mem_append.mp h with h | h
        · obtain ⟨hb, hbody⟩ := mem_collect_of_callSites hg body h
          exact ⟨hb, List.mem_append_left _ (List.mem_append_right _ hbody)⟩
        · obtain ⟨hb, hrest⟩ := mem_collectArms hg rest h
          exact ⟨hb, List.mem_append_right _ hrest⟩

end

/-- Only functions of the configuration are collected. -/
theorem mem_functionNames_iff {name : String} :
    name ∈ config.functionNames ↔ (config.function name).isSome := by
  simp [CompiledConfig.functionNames, CompiledConfig.function, List.find?_isSome]

mutual

theorem collectUserCallees_subset : ∀ e : Expr, g ∈ collectUserCallees config e →
    g ∈ config.functionNames
  | .template fragments, h => collectFragments_subset fragments h
  | .funcCall ns name args _, h => by
      rcases List.mem_append.mp h with h | h
      · split at h
        · next hname => exact List.mem_singleton.mp h ▸ hname.2
        · exact absurd h List.not_mem_nil
      · exact collectArgs_subset args h
  | .binOp left _ right, h =>
      (List.mem_append.mp h).elim (collectUserCallees_subset left) (collectUserCallees_subset right)
  | .unaryOp _ operand, h => collectUserCallees_subset operand h
  | .hashLit entries, h => collectEntries_subset entries h
  | .arrayLit items, h => collectArgs_subset items h
  | .propertyAccess base _, h => collectUserCallees_subset base h
  | .switchExpr scrutinee arms, h =>
      (List.mem_append.mp h).elim (collectUserCallees_subset scrutinee) (collectArms_subset arms)
  | .stringLit _, h | .intLit _, h | .floatLit _, h | .boolLit _, h | .null, h | .ident _, h =>
      absurd h List.not_mem_nil

theorem collectArgs_subset : ∀ args : List Expr, g ∈ collectArgs config args →
    g ∈ config.functionNames
  | [], h => absurd h List.not_mem_nil
  | e :: rest, h =>
      (List.mem_append.mp h).elim (collectUserCallees_subset e) (collectArgs_subset rest)

theorem collectFragments_subset : ∀ fragments : List TemplateFragment,
    g ∈ collectFragments config fragments → g ∈ config.functionNames
  | [], h => absurd h List.not_mem_nil
  | .literal _ :: rest, h => collectFragments_subset rest h
  | .interp e :: rest, h =>
      (List.mem_append.mp h).elim (collectUserCallees_subset e) (collectFragments_subset rest)

theorem collectEntries_subset : ∀ entries : List (String × Expr),
    g ∈ collectEntries config entries → g ∈ config.functionNames
  | [], h => absurd h List.not_mem_nil
  | (_, e) :: rest, h =>
      (List.mem_append.mp h).elim (collectUserCallees_subset e) (collectEntries_subset rest)

theorem collectArms_subset : ∀ arms : List (Option Expr × Expr),
    g ∈ collectArms config arms → g ∈ config.functionNames
  | [], h => absurd h List.not_mem_nil
  | (none, body) :: rest, h =>
      (List.mem_append.mp h).elim (collectUserCallees_subset body) (collectArms_subset rest)
  | (some pattern, body) :: rest, h =>
      (List.mem_append.mp h).elim
        (fun h => (List.mem_append.mp h).elim (collectUserCallees_subset pattern)
          (collectUserCallees_subset body))
        (collectArms_subset rest)

end

theorem callees_subset (node : String) :
    ∀ callee ∈ (callees config node).getD [], callee ∈ config.functionNames := by
  intro callee hcallee
  unfold callees at hcallee
  cases hnode : config.function node with
  | none =>
      rw [hnode] at hcallee
      exact absurd hcallee List.not_mem_nil
  | some fnDef =>
      rw [hnode] at hcallee
      exact (List.mem_append.mp hcallee).elim (collectEntries_subset fnDef.lets)
        (collectUserCallees_subset fnDef.ret)

end Collected

/-! ## The functions of a configuration at run time -/

/-- The registry a configuration runs with. -/
def CompiledConfig.registered (config : CompiledConfig) (builtins : FunctionRegistry World) :
    FunctionRegistry World :=
  registerUserFunctions config.function builtins

section Registered

variable {config : CompiledConfig} {builtins : FunctionRegistry World}

theorem userDefinitions_registered (hbuiltins : ∀ name, builtins.userDefinitions name = none)
    (name : String) :
    (config.registered builtins).userDefinitions name = config.function name := by
  simp [CompiledConfig.registered, registerUserFunctions, hbuiltins]

/-- A call outside blocks is an edge of the search. -/
theorem edge_of_calledIn (hbuiltins : ∀ name, builtins.userDefinitions name = none) {f g : String}
    (h : (config.registered builtins).CalledIn false g f) : Edge (callees config) g f := by
  obtain ⟨fnDef, hf, hsite, hg⟩ := h
  rw [userDefinitions_registered hbuiltins] at hf hg
  have hmem := mem_functionNames_iff.mpr hg
  unfold Edge callees
  rw [hf]
  refine List.mem_append.mpr ?_
  rcases List.mem_append.mp hsite with hsite | hsite
  · exact Or.inl (mem_collectEntries hmem fnDef.lets hsite).2
  · exact Or.inr (mem_collect_of_callSites hmem fnDef.ret hsite).2

/-- An accepted configuration has no cycle of calls outside blocks. -/
theorem acyclic_of_accepted (hbuiltins : ∀ name, builtins.userDefinitions name = none)
    {names : List String} (hnames : names.Perm config.functionNames)
    (haccepted : Accepted config names builtins) :
    Acyclic ((config.registered builtins).CalledIn false) := by
  have hadj : ∀ node, ∀ callee ∈ (callees config node).getD [], callee ∈ names :=
    fun node callee h => hnames.mem_iff.mpr (callees_subset node callee h)
  have hnone : checkFunctionCycles config names = [] := by
    refine List.eq_nil_iff_forall_not_mem.mpr fun d hd => ?_
    exact haccepted d (List.mem_append_right _ hd) (checkCycles_errors hadj d hd).1
  have hwf : WellFounded (Edge (callees config)) := by
    refine ⟨fun name => ?_⟩
    by_cases hname : name ∈ names
    · exact acc_of_no_cycle hadj hnone hname
    · -- no function, no callees
      refine Acc.intro _ fun callee hcallee => absurd ?_ hname
      refine hnames.mem_iff.mpr (mem_functionNames_iff.mpr ?_)
      unfold Edge callees at hcallee
      cases hfunction : config.function name with
      | none =>
          rw [hfunction] at hcallee
          exact absurd hcallee List.not_mem_nil
      | some fnDef => rfl
  exact (Acyclic.of_wellFounded hwf).mono fun g f => edge_of_calledIn hbuiltins

/-- No call made inside the block of another call leads back to the function it is made in. -/
def NoCycleThroughBlock (registry : FunctionRegistry World) : Prop :=
  ∀ g f, registry.CalledIn true g f → ¬ ReflTransGen registry.CalledBy f g

/-- The calls of a run do not come back to a function they started from, and every call of a
function of the configuration returns. -/
def Terminating (rt : Runtime) (config : CompiledConfig) (registry : FunctionRegistry World) :
    Prop :=
  Acyclic registry.CalledBy ∧
    ∀ name, (config.function name).isSome → ∀ args event world,
      Returns rt registry name args event world

/-- **Accepted configurations terminate unless a call in a block closes a cycle.** -/
theorem accepted_terminates (rt : Runtime) (config : CompiledConfig) (names : List String)
    (builtins : FunctionRegistry World) (hbuiltins : ∀ name, builtins.userDefinitions name = none)
    (hnames : names.Perm config.functionNames) (haccepted : Accepted config names builtins) :
    Terminating rt config (config.registered builtins) ↔
      NoCycleThroughBlock (config.registered builtins) := by
  constructor
  · rintro ⟨hacyclic, -⟩ g f hcall hback
    exact hacyclic f (TransGen.tail' hback (Or.inr hcall))
  · intro hblocks
    have hacyclic : Acyclic (config.registered builtins).CalledBy :=
      (acyclic_of_accepted hbuiltins hnames haccepted).or hblocks
    refine ⟨hacyclic, fun name _ args event world => ?_⟩
    -- only functions of the configuration call or are called
    have hwf : WellFounded (config.registered builtins).CalledBy := by
      refine hacyclic.wellFounded (List.finite_toSet config.functionNames) fun {g f} h => ?_
      have hboth : ∀ {inBlock}, (config.registered builtins).CalledIn inBlock g f →
          g ∈ config.functionNames ∧ f ∈ config.functionNames := by
        rintro inBlock ⟨fnDef, hf, -, hg⟩
        rw [userDefinitions_registered hbuiltins] at hf hg
        exact ⟨mem_functionNames_iff.mpr hg, mem_functionNames_iff.mpr (by rw [hf]; rfl)⟩
      exact h.elim hboth hboth
    exact returns_of_acc rt (hwf.apply name) args event world

end Registered

/-! ## Examples -/

/-- A registry with the `map` of the primitives alone. -/
def mapBuiltins : FunctionRegistry Unit where
  functions
    | (none, "map") => some fun _ _ world =>
        (.error "map() requires a block argument: `map(arr) \x7b |x| <body> \x7d`", world)
    | _ => none
  hasNamespace _ := false
  signatures
    | (none, "map") => some ⟨[.union [.array, .object, .null]], .fixed, .array⟩
    | _ => none
  userDefinitions _ := none

/-- A call of a function of one argument. -/
def callOf (name : String) (arg : String) : Expr := .funcCall none name [.ident [arg]] none

/-- `map(xs) { |x| body }`. -/
def mapOver (body : Expr) : Expr :=
  .funcCall none "map" [.ident ["xs"]] (some (.mk ["x"] [] body))

/-- `def function both(x) { [x, x] }` and `def function each(xs) { map(xs) { |x| both(x) } }`. -/
def mapping : CompiledConfig where
  functions :=
    [⟨"both", ["x"], [], .arrayLit [.ident ["x"], .ident ["x"]]⟩,
      ⟨"each", ["xs"], [], mapOver (callOf "both" "x")⟩]
  processes := []
  nodup := by decide

theorem callSites_mapping {f g : String} {inBlock : Bool}
    (h : (mapping.registered mapBuiltins).CalledIn inBlock g f) : f = "each" ∧ g = "both" := by
  obtain ⟨fnDef, hf, hsite, -⟩ := h
  rw [userDefinitions_registered fun _ => rfl] at hf
  have hmem : fnDef ∈ mapping.functions := List.mem_of_find?_eq_some hf
  have hname : fnDef.name = f := by simpa using List.find?_some hf
  simp only [mapping, List.mem_cons, List.not_mem_nil, or_false] at hmem
  rcases hmem with rfl | rfl
  · exact absurd hsite List.not_mem_nil
  · have hsite' : (inBlock, (none, g)) ∈ [(true, ((none : Option String), "both"))] := hsite
    simp only [List.mem_singleton, Prod.mk.injEq] at hsite'
    exact ⟨hname.symm, hsite'.2.2⟩

theorem accepted_terminates_mapping :
    (mapping.registered mapBuiltins).CalledIn true "both" "each" ∧
      ∀ rt, Terminating rt mapping (mapping.registered mapBuiltins) := by
  refine ⟨⟨_, rfl, List.mem_singleton.mpr rfl, rfl⟩, fun rt => ?_⟩
  have haccepted : Accepted mapping ["each", "both"] mapBuiltins := by
    intro d hd
    rw [show checkAllFunctions mapping ["each", "both"] mapBuiltins = [] from by rfl] at hd
    exact absurd hd List.not_mem_nil
  refine (accepted_terminates rt mapping ["each", "both"] mapBuiltins (fun _ => rfl)
    (by decide) haccepted).mpr fun g f hcall hback => ?_
  -- nothing calls `each`
  obtain ⟨rfl, rfl⟩ := callSites_mapping hcall
  rcases hback.cases_head with heq | ⟨caller, hcaller, -⟩
  · exact absurd heq (by decide)
  · rcases hcaller with hcaller | hcaller <;>
      exact absurd (callSites_mapping hcaller).2 (by decide)

/-- `def function f(xs) { map(xs) { |x| f(xs) } }`. -/
def selfMapping : CompiledConfig where
  functions := [⟨"f", ["xs"], [], mapOver (callOf "f" "xs")⟩]
  processes := []
  nodup := by decide

/-- A call on an array of one element is a call on the same array one level down. -/
theorem selfMapping_diverges (rt : Runtime) (event : BorrowedEvent) (depth : ℕ) :
    call rt (selfMapping.registered mapBuiltins) event depth none "f" [.array [.null]] () =
      none := by
  have hf : (selfMapping.registered mapBuiltins).userDefinitions "f" =
      some ⟨"f", ["xs"], [], mapOver (callOf "f" "xs")⟩ := rfl
  induction depth with
  | zero => rfl
  | succ depth ih =>
      rw [call_user hf]
      -- the block is run on the one element, with `xs` still bound to the array
      let scope : LocalScope := [("x", .null), ("xs", .array [.null])]
      have hblock : evalExpr rt event (call rt (selfMapping.registered mapBuiltins) event depth)
          scope (callOf "f" "xs") () = none := ih
      have hcollect : Eval.collect [evalExpr rt event
          (call rt (selfMapping.registered mapBuiltins) event depth) scope (callOf "f" "xs")] () =
            none := Eval.bind_eq_none hblock _
      exact Eval.bind_eq_none hcollect fun out => Eval.ok (Value.array out)

theorem accepted_diverges :
    Accepted selfMapping ["f"] mapBuiltins ∧ (selfMapping.function "f").isSome ∧
      ∀ rt event,
        ¬ Returns rt (selfMapping.registered mapBuiltins) "f" [.array [.null]] event () := by
  refine ⟨?_, rfl, fun rt event hreturns => ?_⟩
  · intro d hd
    rw [show checkAllFunctions selfMapping ["f"] mapBuiltins = [] from by rfl] at hd
    exact absurd hd List.not_mem_nil
  · obtain ⟨depth, result, h⟩ := hreturns
    have hsome := h depth le_rfl
    rw [selfMapping_diverges] at hsome
    exact absurd hsome (by simp)

end Limpid.Check
