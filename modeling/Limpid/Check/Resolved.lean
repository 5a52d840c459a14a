import Limpid.Check.Analyze
import Limpid.Check.NameError

/-!
# What the analysis does not report resolves

The walk over an expression and the walk over the body of a function report an identifier that is
not a known name or a field of the event, and a call of a function that has no signature.  Where
neither reports anything, the expression `Resolves` under the names that are bound there.  The
bodies of the functions are checked in the same way, so a call that can be made does not fail for
a name, however deep calls nest (`call_knowsNames`).

The walk over expressions (`check_types`) has a scope of names that grows under the parameters of a
block; that is the set `known` of `Resolves`.  The registry of the analysis and the one of the
runtime are the same, so a function that has a signature in one can be called in the other.
-/

namespace Limpid.Check

open Dsl Eval FunctionRegistry

variable {World : Type}

/-- Nothing is reported as unknown. -/
def NoUnknown (diagnostics : List Diagnostic) : Prop :=
  ∀ d ∈ diagnostics, d.kind ≠ .unknownIdent

theorem noUnknown_append {first second : List Diagnostic} :
    NoUnknown (first ++ second) ↔ NoUnknown first ∧ NoUnknown second :=
  List.forall_mem_append

theorem not_noUnknown_error (message : String) :
    ¬ NoUnknown [.errorKind .unknownIdent message] := fun h => h _ List.mem_cons_self rfl

theorem not_noUnknown_warning (message : String) :
    ¬ NoUnknown [.warningKind .unknownIdent message] := fun h => h _ List.mem_cons_self rfl

/-- The analysis knows a signature for the function. -/
def Signed (registry : FunctionRegistry World) (ns : Option String) (name : String) : Prop :=
  registry.signatures (ns, name) ≠ none

/-! ## Bindings -/

namespace Bindings

/-- The names that are bound. -/
def known (bindings : Bindings) : Set String := {name | bindings.getLet name = true}

theorem known_pushLetScope (bindings : Bindings) :
    bindings.pushLetScope.known = bindings.known := by
  ext name
  simp [known, getLet, pushLetScope]

theorem popLetScope_pushLetScope (bindings : Bindings) :
    bindings.pushLetScope.popLetScope = bindings := rfl

theorem known_bindLet {bindings : Bindings} (h : bindings.letScopes ≠ []) (name : String) :
    (bindings.bindLet name).known = insert name bindings.known := by
  obtain ⟨_ | ⟨top, rest⟩⟩ := bindings
  · exact absurd rfl h
  · ext other
    simp [known, getLet, bindLet, or_assoc]

theorem letScopes_bindLet {bindings : Bindings} (h : bindings.letScopes ≠ []) (name : String) :
    (bindings.bindLet name).letScopes ≠ [] := by
  obtain ⟨_ | ⟨top, rest⟩⟩ := bindings
  · exact absurd rfl h
  · exact List.cons_ne_nil _ _

/-- Only the innermost scope grows. -/
theorem tail_bindLet (bindings : Bindings) (name : String) :
    (bindings.bindLet name).letScopes.tail = bindings.letScopes.tail := by
  obtain ⟨_ | ⟨top, rest⟩⟩ := bindings <;> rfl

theorem bindLets_spec (names : List String) {bindings : Bindings} (h : bindings.letScopes ≠ []) :
    (names.foldl (fun bindings name => bindings.bindLet name) bindings).letScopes ≠ [] ∧
      (names.foldl (fun bindings name => bindings.bindLet name) bindings).known =
        {name | name ∈ names} ∪ bindings.known := by
  induction names generalizing bindings with
  | nil => exact ⟨h, by simp⟩
  | cons name rest ih =>
      obtain ⟨hscopes, hknown⟩ := ih (letScopes_bindLet h name)
      refine ⟨hscopes, ?_⟩
      rw [List.foldl_cons, hknown, known_bindLet h]
      ext other
      simp only [Set.mem_union, Set.mem_insert_iff, Set.mem_ofPred_eq, List.mem_cons]
      tauto

end Bindings

/-! ## The analysis of expressions -/

section Expressions

variable {pipelineName : String} {registry : FunctionRegistry World}

theorem checkUnknownIdent_resolves {bindings : Bindings} {parts : List String}
    (h : NoUnknown (checkUnknownIdent pipelineName bindings parts)) :
    ResolvesIdent bindings.known parts := by
  unfold checkUnknownIdent at h
  cases parts with
  | nil => exact .inl rfl
  | cons first rest =>
      dsimp only at h
      split at h
      · next hreserved =>
        obtain ⟨rfl, hfirst⟩ := hreserved
        exact .inr (.inr (.inl ⟨first, hfirst, rfl⟩))
      split at h
      · next hsource =>
        obtain ⟨rfl, rfl | rfl⟩ := hsource
        · exact .inr (.inl (by simp))
        · exact .inr (.inl (by simp))
      split at h
      · next hworkspace =>
        subst hworkspace
        exact .inr (.inr (.inr (.inl rfl)))
      split at h
      · next hlet => exact .inr (.inr (.inr (.inr ⟨first, hlet, rfl⟩)))
      split at h
      · exact absurd h (not_noUnknown_warning _)
      · exact absurd h (not_noUnknown_warning _)

theorem checkFnCall_signed {ns : Option String} {name : String}
    (h : NoUnknown (checkFnCall pipelineName registry ns name)) : Signed registry ns name := by
  intro hnone
  unfold checkFnCall at h
  rw [if_pos hnone] at h
  exact not_noUnknown_warning _ h

mutual

/-- **What `check_types` does not report resolves.** -/
theorem checkTypes_resolves : ∀ (e : Expr) {bindings : Bindings},
    NoUnknown (checkTypes pipelineName registry bindings e) →
      Resolves (Signed registry) bindings.known e
  | .stringLit _, _, _ | .intLit _, _, _ | .floatLit _, _, _ | .boolLit _, _, _ | .null, _, _ =>
      trivial
  | .template fragments, _, h => checkFragments_resolves fragments h
  | .ident _, _, h => checkUnknownIdent_resolves h
  | .funcCall ns name args none, _, h => by
      obtain ⟨hargs, hcall⟩ := noUnknown_append.mp h
      exact ⟨checkFnCall_signed hcall, checkArgs_resolves args hargs⟩
  | .funcCall ns name args (some (.mk params lets ret)), bindings, h => by
      obtain ⟨hblock, -⟩ := noUnknown_append.mp h
      obtain ⟨hargs, hblock⟩ := noUnknown_append.mp hblock
      obtain ⟨hlets, hret⟩ := noUnknown_append.mp hblock
      have hinner := Bindings.bindLets_spec params (List.cons_ne_nil [] bindings.letScopes)
      rw [show (⟨[] :: bindings.letScopes⟩ : Bindings) = bindings.pushLetScope from rfl,
        Bindings.known_pushLetScope] at hinner
      have hlast := Bindings.bindLets_spec (lets.map Prod.fst) hinner.1
      rw [List.foldl_map, hinner.2] at hlast
      refine ⟨checkArgs_resolves args hargs, ?_, ?_⟩
      · exact hinner.2 ▸ checkLets_resolves lets hinner.1 hlets
      · exact hlast.2 ▸ checkTypes_resolves ret hret
  | .binOp left _ right, _, h => by
      obtain ⟨hleft, hright⟩ := noUnknown_append.mp h
      exact ⟨checkTypes_resolves left hleft, checkTypes_resolves right hright⟩
  | .unaryOp _ operand, _, h => checkTypes_resolves operand h
  | .hashLit entries, _, h => checkEntries_resolves entries h
  | .arrayLit items, _, h => checkArgs_resolves items h
  | .propertyAccess base _, _, h => checkTypes_resolves base h
  | .switchExpr scrutinee arms, _, h => by
      obtain ⟨h, -⟩ := noUnknown_append.mp h
      obtain ⟨hscrutinee, harms⟩ := noUnknown_append.mp h
      exact ⟨checkTypes_resolves scrutinee hscrutinee, checkArms_resolves arms harms⟩

theorem checkArgs_resolves : ∀ (args : List Expr) {bindings : Bindings},
    NoUnknown (checkArgs pipelineName registry bindings args) →
      ResolvesArgs (Signed registry) bindings.known args
  | [], _, _ => trivial
  | e :: rest, _, h => by
      obtain ⟨he, hrest⟩ := noUnknown_append.mp h
      exact ⟨checkTypes_resolves e he, checkArgs_resolves rest hrest⟩

theorem checkFragments_resolves : ∀ (fragments : List TemplateFragment) {bindings : Bindings},
    NoUnknown (checkFragments pipelineName registry bindings fragments) →
      ResolvesFragments (Signed registry) bindings.known fragments
  | [], _, _ => trivial
  | .literal _ :: rest, _, h => checkFragments_resolves rest h
  | .interp e :: rest, _, h => by
      obtain ⟨he, hrest⟩ := noUnknown_append.mp h
      exact ⟨checkTypes_resolves e he, checkFragments_resolves rest hrest⟩

theorem checkEntries_resolves : ∀ (entries : List (String × Expr)) {bindings : Bindings},
    NoUnknown (checkEntries pipelineName registry bindings entries) →
      ResolvesEntries (Signed registry) bindings.known entries
  | [], _, _ => trivial
  | (_, e) :: rest, _, h => by
      obtain ⟨he, hrest⟩ := noUnknown_append.mp h
      exact ⟨checkTypes_resolves e he, checkEntries_resolves rest hrest⟩

theorem checkArms_resolves : ∀ (arms : List (Option Expr × Expr)) {bindings : Bindings},
    NoUnknown (checkArms pipelineName registry bindings arms) →
      ResolvesArms (Signed registry) bindings.known arms
  | [], _, _ => trivial
  | (none, body) :: rest, _, h => by
      obtain ⟨hbody, hrest⟩ := noUnknown_append.mp h
      exact ⟨checkTypes_resolves body hbody, checkArms_resolves rest hrest⟩
  | (some pattern, body) :: rest, _, h => by
      obtain ⟨h, hrest⟩ := noUnknown_append.mp h
      obtain ⟨hpattern, hbody⟩ := noUnknown_append.mp h
      exact ⟨checkTypes_resolves pattern hpattern, checkTypes_resolves body hbody,
        checkArms_resolves rest hrest⟩

theorem checkLets_resolves : ∀ (lets : List (String × Expr)) {bindings : Bindings},
    bindings.letScopes ≠ [] → NoUnknown (checkLets pipelineName registry bindings lets) →
      ResolvesLets (Signed registry) bindings.known lets
  | [], _, _, _ => trivial
  | (name, e) :: rest, bindings, hscopes, h => by
      obtain ⟨he, hrest⟩ := noUnknown_append.mp h
      refine ⟨checkTypes_resolves e he, ?_⟩
      exact Bindings.known_bindLet hscopes name ▸
        checkLets_resolves rest (Bindings.letScopes_bindLet hscopes name) hrest

end

end Expressions

/-! ## The check of functions -/

section Functions

variable {fnName : String} {config : CompiledConfig} {registry : FunctionRegistry World}

/-- The names of a list. -/
def named (names : List String) : Set String := {name | name ∈ names}

theorem named_cons (name : String) (names : List String) :
    named (name :: names) = insert name (named names) := by
  ext other
  simp [named]

theorem named_append (names others : List String) :
    named (names ++ others) = {name | name ∈ names} ∪ named others := by
  ext other
  simp [named]

theorem named_reverse_append (names others : List String) :
    named (names.reverse ++ others) = {name | name ∈ names} ∪ named others := by
  ext other
  simp [named]

theorem identDiagnostics_resolves {known parts : List String}
    (h : NoUnknown (identDiagnostics fnName known parts)) :
    ResolvesIdent (named known) parts := by
  unfold identDiagnostics at h
  cases parts with
  | nil => exact .inl rfl
  | cons head rest =>
      have hhead : head ∈ known := by
        by_contra hunknown
        simp only [hunknown, and_false, if_false] at h
        split at h
        · exact not_noUnknown_error _ h
        · split at h
          · exact not_noUnknown_error _ h
          · exact not_noUnknown_error _ h
      exact .inr (.inr (.inr (.inr ⟨head, hhead, rfl⟩)))

/-- The functions of the configuration have signatures. -/
def FunctionsSigned (config : CompiledConfig) (registry : FunctionRegistry World) : Prop :=
  ∀ name ∈ config.functionNames, Signed registry none name

theorem callDiagnostics_signed (hfunctions : FunctionsSigned config registry)
    {ns : Option String} {name : String}
    (h : NoUnknown (callDiagnostics fnName config registry ns name)) :
    Signed registry ns name := by
  intro hnone
  have hundefined : ¬ (ns = none ∧ name ∈ config.functionNames) := by
    rintro ⟨rfl, hname⟩
    exact hfunctions name hname hnone
  unfold callDiagnostics at h
  split at h
  · exact not_noUnknown_error _ h
  · rw [if_pos ⟨hnone, hundefined⟩] at h
    exact not_noUnknown_error _ h

mutual

/-- **What the check of a function does not report resolves.** -/
theorem walkForPurity_resolves (hfunctions : FunctionsSigned config registry) :
    ∀ (e : Expr) {known : List String},
    NoUnknown (walkForPurity fnName config registry known e) →
      Resolves (Signed registry) (named known) e
  | .stringLit _, _, _ | .intLit _, _, _ | .floatLit _, _, _ | .boolLit _, _, _ | .null, _, _ =>
      trivial
  | .template fragments, _, h => walkFragments_resolves hfunctions fragments h
  | .ident _, _, h => identDiagnostics_resolves h
  | .funcCall ns name args none, _, h => by
      obtain ⟨hcall, hargs⟩ := noUnknown_append.mp h
      exact ⟨callDiagnostics_signed hfunctions hcall, walkArgs_resolves hfunctions args hargs⟩
  | .funcCall ns name args (some (.mk params lets ret)), known, h => by
      obtain ⟨h, hblock⟩ := noUnknown_append.mp h
      obtain ⟨-, hargs⟩ := noUnknown_append.mp h
      obtain ⟨hlets, hret⟩ := noUnknown_append.mp hblock
      have hlets' := walkLets_resolves hfunctions lets hlets
      have hret' := walkForPurity_resolves hfunctions ret hret
      rw [named_append] at hlets'
      rw [named_reverse_append, named_append] at hret'
      exact ⟨walkArgs_resolves hfunctions args hargs, hlets', hret'⟩
  | .binOp left _ right, _, h => by
      obtain ⟨hleft, hright⟩ := noUnknown_append.mp h
      exact ⟨walkForPurity_resolves hfunctions left hleft,
        walkForPurity_resolves hfunctions right hright⟩
  | .unaryOp _ operand, _, h => walkForPurity_resolves hfunctions operand h
  | .hashLit entries, _, h => walkEntries_resolves hfunctions entries h
  | .arrayLit items, _, h => walkArgs_resolves hfunctions items h
  | .propertyAccess base _, _, h => walkForPurity_resolves hfunctions base h
  | .switchExpr scrutinee arms, _, h => by
      obtain ⟨h, -⟩ := noUnknown_append.mp h
      obtain ⟨hscrutinee, harms⟩ := noUnknown_append.mp h
      exact ⟨walkForPurity_resolves hfunctions scrutinee hscrutinee,
        walkArms_resolves hfunctions arms harms⟩

theorem walkArgs_resolves (hfunctions : FunctionsSigned config registry) :
    ∀ (args : List Expr) {known : List String},
    NoUnknown (walkArgs fnName config registry known args) →
      ResolvesArgs (Signed registry) (named known) args
  | [], _, _ => trivial
  | e :: rest, _, h => by
      obtain ⟨he, hrest⟩ := noUnknown_append.mp h
      exact ⟨walkForPurity_resolves hfunctions e he, walkArgs_resolves hfunctions rest hrest⟩

theorem walkFragments_resolves (hfunctions : FunctionsSigned config registry) :
    ∀ (fragments : List TemplateFragment) {known : List String},
    NoUnknown (walkFragments fnName config registry known fragments) →
      ResolvesFragments (Signed registry) (named known) fragments
  | [], _, _ => trivial
  | .literal _ :: rest, _, h => walkFragments_resolves hfunctions rest h
  | .interp e :: rest, _, h => by
      obtain ⟨he, hrest⟩ := noUnknown_append.mp h
      exact ⟨walkForPurity_resolves hfunctions e he, walkFragments_resolves hfunctions rest hrest⟩

theorem walkEntries_resolves (hfunctions : FunctionsSigned config registry) :
    ∀ (entries : List (String × Expr)) {known : List String},
    NoUnknown (walkEntries fnName config registry known entries) →
      ResolvesEntries (Signed registry) (named known) entries
  | [], _, _ => trivial
  | (_, e) :: rest, _, h => by
      obtain ⟨he, hrest⟩ := noUnknown_append.mp h
      exact ⟨walkForPurity_resolves hfunctions e he, walkEntries_resolves hfunctions rest hrest⟩

theorem walkArms_resolves (hfunctions : FunctionsSigned config registry) :
    ∀ (arms : List (Option Expr × Expr)) {known : List String},
    NoUnknown (walkArms fnName config registry known arms) →
      ResolvesArms (Signed registry) (named known) arms
  | [], _, _ => trivial
  | (none, body) :: rest, _, h => by
      obtain ⟨hbody, hrest⟩ := noUnknown_append.mp h
      exact ⟨walkForPurity_resolves hfunctions body hbody, walkArms_resolves hfunctions rest hrest⟩
  | (some pattern, body) :: rest, _, h => by
      obtain ⟨h, hrest⟩ := noUnknown_append.mp h
      obtain ⟨hpattern, hbody⟩ := noUnknown_append.mp h
      exact ⟨walkForPurity_resolves hfunctions pattern hpattern,
        walkForPurity_resolves hfunctions body hbody, walkArms_resolves hfunctions rest hrest⟩

theorem walkLets_resolves (hfunctions : FunctionsSigned config registry) :
    ∀ (lets : List (String × Expr)) {known : List String},
    NoUnknown (walkLets fnName config registry known lets) →
      ResolvesLets (Signed registry) (named known) lets
  | [], _, _ => trivial
  | (name, e) :: rest, known, h => by
      obtain ⟨he, hrest⟩ := noUnknown_append.mp h
      have hlets := walkLets_resolves hfunctions rest hrest
      rw [named_cons name known] at hlets
      exact ⟨walkForPurity_resolves hfunctions e he, hlets⟩

end

end Functions

/-! ## Calls -/

section Calls

variable {rt : Runtime} {program : Program} {builtins : FunctionRegistry World}

/-- The built-in functions, as they are registered: one that has a signature is there, and one that
is there does not fail with the text of one that is not. -/
structure BuiltinsNamed (builtins : FunctionRegistry World) : Prop where
  user : ∀ name, builtins.userDefinitions name = none
  present : ∀ ns name, Signed builtins ns name → builtins.functions (ns, name) ≠ none
  texts : ∀ event ns name args, builtins.functions (ns, name) ≠ none →
    KnowsNames (callBuiltin builtins event ns name args)

theorem functionsSigned (program : Program) (builtins : FunctionRegistry World) :
    FunctionsSigned program.functionConfig (program.registry builtins) := by
  intro name hname hnone
  obtain ⟨fnDef, hdef⟩ := Option.isSome_iff_exists.mp (mem_functionNames_iff.mp hname)
  simp [Program.registry, CompiledConfig.registered, registerUserFunctions, hdef] at hnone

/-- A function of the configuration takes the place of a built-in one of its name. -/
theorem callBuiltin_registry {event : BorrowedEvent} {ns : Option String} {name : String}
    (h : ns = none → program.functionConfig.function name = none) (args : List Value) :
    callBuiltin (program.registry builtins) event ns name args =
      callBuiltin builtins event ns name args := by
  unfold callBuiltin
  cases ns with
  | some ns => rfl
  | none =>
      simp only [Program.registry, CompiledConfig.registered, registerUserFunctions, h rfl]

theorem signed_of_registry {ns : Option String} {name : String}
    (h : ns = none → program.functionConfig.function name = none)
    (hsigned : Signed (program.registry builtins) ns name) : Signed builtins ns name := by
  unfold Signed at hsigned ⊢
  cases ns with
  | some ns => exact hsigned
  | none =>
      simpa only [Program.registry, CompiledConfig.registered, registerUserFunctions, h rfl]
        using hsigned

theorem callBuiltin_knowsNames (hbuiltins : BuiltinsNamed builtins) {ns : Option String}
    {name : String}
    (h : ns ≠ none ∨ (program.registry builtins).userDefinitions name = none)
    (hsigned : Signed (program.registry builtins) ns name) (event : BorrowedEvent)
    (args : List Value) :
    KnowsNames (callBuiltin (program.registry builtins) event ns name args) := by
  have hnone : ns = none → program.functionConfig.function name = none := by
    intro hns
    rw [← userDefinitions_registered hbuiltins.user]
    exact h.resolve_left fun hne => hne hns
  rw [callBuiltin_registry hnone]
  apply hbuiltins.texts event ns name args
  exact hbuiltins.present ns name (signed_of_registry hnone hsigned)

theorem callUserFunction_knowsNames {event : BorrowedEvent} {fnDef : FunctionDef}
    {call : Option String → String → List Value → Eval World Value}
    (hcall : CallsKnowNames (Signed (program.registry builtins)) call)
    (hbody : NoUnknown
      (checkFunctionBody program.functionConfig (program.registry builtins) fnDef))
    (args : List Value) : KnowsNames (callUserFunction rt event call fnDef args) := by
  have hfunctions := functionsSigned program builtins
  obtain ⟨hlets, hret⟩ := noUnknown_append.mp hbody
  have hret := walkForPurity_resolves hfunctions fnDef.ret hret
  rw [named_reverse_append] at hret
  unfold callUserFunction
  refine .ite (fun _ => .bail ?_) fun hlength => ?_
  · refine not_isNameError (c := 'f') ?_ (by decide)
    repeat apply head?_append
    rfl
  · -- the body is evaluated in a scope of its own, with the parameters bound
    have hbinds : Binds (LocalScope.bindAll fnDef.params args []) (named fnDef.params) := by
      refine ((Binds.empty []).bindAll (not_not.mp hlength)).mono ?_
      exact fun name hname => .inl hname
    exact evalLets_knowsNames hcall fnDef.lets (walkLets_resolves hfunctions fnDef.lets hlets)
      hbinds fun inner hinner => evalExpr_knowsNames hcall fnDef.ret hret hinner

/-- **A call of a function with a signature does not fail for a name**, however deep calls nest. -/
theorem call_knowsNames (hbuiltins : BuiltinsNamed builtins)
    (hbodies : ∀ fnDef ∈ program.functions, NoUnknown
      (checkFunctionBody program.functionConfig (program.registry builtins) fnDef))
    (event : BorrowedEvent) (depth : ℕ) :
    CallsKnowNames (Signed (program.registry builtins))
      (call rt (program.registry builtins) event depth) := by
  induction depth with
  | zero =>
      intro ns name hsigned args
      rcases user_or_builtin (program.registry builtins) ns name with
        ⟨rfl, fnDef, hname⟩ | hbuiltin
      · rw [call.eq_def]
        simp only [hname]
        exact .diverge
      · rw [call_builtin hbuiltin]
        exact callBuiltin_knowsNames hbuiltins hbuiltin hsigned event args
  | succ depth ih =>
      intro ns name hsigned args
      rcases user_or_builtin (program.registry builtins) ns name with
        ⟨rfl, fnDef, hname⟩ | hbuiltin
      · rw [call_user hname]
        have hdef := hname
        rw [Program.registry, userDefinitions_registered hbuiltins.user] at hdef
        exact callUserFunction_knowsNames ih (hbodies fnDef (List.mem_of_find?_eq_some hdef)) args
      · rw [call_builtin hbuiltin]
        exact callBuiltin_knowsNames hbuiltins hbuiltin hsigned event args

end Calls

end Limpid.Check
