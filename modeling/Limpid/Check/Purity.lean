import Limpid.Check.Termination

/-!
# Accepted functions are pure

What `walk_for_purity` accepts reads names only that are known, and the names that are known
somewhere are bound in every scope the evaluator can have there (`Bound`).  A bound name is looked
up in the scope, never in the event, so the value of an accepted expression does not depend on the
event (`evalExpr_pure`), as long as calls do not.  Calls of user functions are calls of accepted
ones, evaluated in a scope of their own; built-in functions are assumed not to look at the event
they are given, as the ones of the registry do not.
-/

namespace Limpid.Dsl.Eval

variable {World α β γ : Type}

theorem bind_assoc (x : Eval World α) (f : α → Eval World β) (g : β → Eval World γ) :
    (x >>= f) >>= g = x >>= fun a => f a >>= g := by
  funext world
  change bind (bind x f) g world = bind x (fun a => bind (f a) g) world
  unfold bind
  match x world with
  | none | some (.error _, _) | some (.ok _, _) => rfl

end Limpid.Dsl.Eval

namespace Limpid.Check

open Dsl Eval FunctionRegistry

variable {World : Type}

/-- No error is among the diagnostics. -/
def Clean (diagnostics : List Diagnostic) : Prop := ∀ d ∈ diagnostics, d.level ≠ .error

theorem clean_append {first second : List Diagnostic} :
    Clean (first ++ second) ↔ Clean first ∧ Clean second :=
  List.forall_mem_append

theorem not_clean_error (kind : DiagKind) (message : String) :
    ¬ Clean [.errorKind kind message] := fun h => h _ List.mem_cons_self rfl

/-! ## Scopes -/

/-- Every known name is bound. -/
def Bound (known : List String) (scope : LocalScope) : Prop :=
  ∀ name ∈ known, (scope.get name).isSome

theorem Bound.bind {known : List String} {scope : LocalScope} (h : Bound known scope)
    (name : String) (value : Value) : Bound (name :: known) (scope.bind name value) := by
  intro other hother
  simp only [LocalScope.get, LocalScope.bind, List.lookup_cons]
  rcases List.mem_cons.mp hother with rfl | hother
  · simp
  · split
    · rfl
    · exact h other hother

theorem Bound.mono {known fewer : List String} {scope : LocalScope} (h : Bound known scope)
    (hsub : ∀ name ∈ fewer, name ∈ known) : Bound fewer scope := fun name hname =>
  h name (hsub name hname)

/-- Parameters are bound to as many values. -/
theorem Bound.bindAll {known : List String} {scope : LocalScope} (h : Bound known scope) :
    ∀ {params : List String} {values : List Value}, values.length = params.length →
      Bound (params ++ known) (LocalScope.bindAll params values scope) := by
  intro params
  induction params generalizing known scope with
  | nil => exact fun _ => h
  | cons param rest ih =>
      intro values hlength
      cases values with
      | nil => exact absurd hlength (by simp)
      | cons value values =>
          refine (ih (h.bind param value) (Nat.succ.inj hlength)).mono fun name hname => ?_
          simp only [List.cons_append, List.mem_cons, List.mem_append] at hname ⊢
          tauto

/-! ## Expressions -/

section Expressions

variable {rt : Runtime} {event other : BorrowedEvent}
  {call : Option String → String → List Value → Eval World Value} {fnName : String}
  {config : CompiledConfig} {registry : FunctionRegistry World}

/-- An accepted identifier is a known name, or a path into one. -/
theorem resolveIdent_pure {known parts : List String} {scope : LocalScope}
    (hclean : Clean (identDiagnostics fnName known parts)) (hbound : Bound known scope) :
    resolveIdent parts event scope = resolveIdent parts other scope := by
  match parts with
  | [] => rfl
  | head :: rest =>
      have hhead : head ∈ known := by
        unfold identDiagnostics at hclean
        by_contra hunknown
        simp only [hunknown, and_false, if_false] at hclean
        split at hclean
        · exact not_clean_error _ _ hclean
        · split at hclean
          · exact not_clean_error _ _ hclean
          · exact not_clean_error _ _ hclean
      obtain ⟨root, hroot⟩ := Option.isSome_iff_exists.mp (hbound head hhead)
      unfold resolveIdent
      simp only [hroot]

mutual

/-- **The value of an accepted expression does not depend on the event.** -/
theorem evalExpr_pure : ∀ (e : Expr) {known : List String} {scope : LocalScope},
    Clean (walkForPurity fnName config registry known e) → Bound known scope →
      evalExpr rt event call scope e = evalExpr rt other call scope e
  | .stringLit _, _, _, _, _ | .intLit _, _, _, _, _ | .floatLit _, _, _, _, _
  | .boolLit _, _, _, _, _ | .null, _, _, _, _ => by
      simp only [evalExpr]
  | .template fragments, _, _, hclean, hbound => by
      simp only [evalExpr]
      rw [evalFragments_pure fragments hclean hbound]
  | .ident parts, _, _, hclean, hbound => by
      simp only [evalExpr]
      rw [resolveIdent_pure hclean hbound]
  | .funcCall ns name args none, _, _, hclean, hbound => by
      simp only [evalExpr]
      rw [evalArgs_pure args (clean_append.mp hclean).2 hbound]
  | .funcCall ns name args (some (.mk params lets ret)), known, scope, hclean, hbound => by
      obtain ⟨hclean, hblock⟩ := clean_append.mp hclean
      obtain ⟨hlets, hret⟩ := clean_append.mp hblock
      simp only [evalExpr]
      rw [evalArgs_pure args (clean_append.mp hclean).2 hbound]
      congr 1
      funext values
      split
      · rfl
      · next hlength =>
        -- in the block the parameters are known as well
        have hinner := hbound.bindAll (not_not.mp hlength)
        exact evalLets_pure lets hlets hinner fun inner hinner => evalExpr_pure ret hret hinner
  | .binOp left op right, _, _, hclean, hbound => by
      obtain ⟨hleft, hright⟩ := clean_append.mp hclean
      simp only [evalExpr]
      rw [evalExpr_pure left hleft hbound, evalExpr_pure right hright hbound]
  | .unaryOp op operand, _, _, hclean, hbound => by
      simp only [evalExpr]
      rw [evalExpr_pure operand hclean hbound]
  | .hashLit entries, _, _, hclean, hbound => by
      simp only [evalExpr]
      rw [evalEntries_pure entries hclean hbound]
  | .arrayLit items, _, _, hclean, hbound => by
      simp only [evalExpr]
      rw [evalArgs_pure items hclean hbound]
  | .propertyAccess base path, _, _, hclean, hbound => by
      simp only [evalExpr]
      rw [evalExpr_pure base hclean hbound]
  | .switchExpr scrutinee arms, _, _, hclean, hbound => by
      obtain ⟨hclean, -⟩ := clean_append.mp hclean
      obtain ⟨hscrutinee, harms⟩ := clean_append.mp hclean
      simp only [evalExpr]
      rw [evalExpr_pure scrutinee hscrutinee hbound]
      congr 1
      funext target
      exact evalArms_pure target arms harms hbound

theorem evalArgs_pure : ∀ (args : List Expr) {known : List String} {scope : LocalScope},
    Clean (walkArgs fnName config registry known args) → Bound known scope →
      evalArgs rt event call scope args = evalArgs rt other call scope args
  | [], _, _, _, _ => by simp only [evalArgs]
  | e :: rest, _, _, hclean, hbound => by
      obtain ⟨he, hrest⟩ := clean_append.mp hclean
      simp only [evalArgs]
      rw [evalExpr_pure e he hbound, evalArgs_pure rest hrest hbound]

theorem evalFragments_pure : ∀ (fragments : List TemplateFragment) {known : List String}
    {scope : LocalScope}, Clean (walkFragments fnName config registry known fragments) →
      Bound known scope →
        evalFragments rt event call scope fragments = evalFragments rt other call scope fragments
  | [], _, _, _, _ => by simp only [evalFragments]
  | .literal _ :: rest, _, _, hclean, hbound => by
      simp only [evalFragments]
      rw [evalFragments_pure rest hclean hbound]
  | .interp e :: rest, _, _, hclean, hbound => by
      obtain ⟨he, hrest⟩ := clean_append.mp hclean
      simp only [evalFragments]
      rw [evalExpr_pure e he hbound, evalFragments_pure rest hrest hbound]

theorem evalEntries_pure : ∀ (entries : List (String × Expr)) {known : List String}
    {scope : LocalScope}, Clean (walkEntries fnName config registry known entries) →
      Bound known scope →
        evalEntries rt event call scope entries = evalEntries rt other call scope entries
  | [], _, _, _, _ => by simp only [evalEntries]
  | (_, e) :: rest, _, _, hclean, hbound => by
      obtain ⟨he, hrest⟩ := clean_append.mp hclean
      simp only [evalEntries]
      rw [evalExpr_pure e he hbound, evalEntries_pure rest hrest hbound]

theorem evalArms_pure (target : Value) : ∀ (arms : List (Option Expr × Expr))
    {known : List String} {scope : LocalScope},
    Clean (walkArms fnName config registry known arms) → Bound known scope →
      evalArms rt event call scope target arms = evalArms rt other call scope target arms
  | [], _, _, _, _ => by simp only [evalArms]
  | (none, body) :: _, _, _, hclean, hbound => by
      simp only [evalArms]
      rw [evalExpr_pure body (clean_append.mp hclean).1 hbound]
  | (some pattern, body) :: rest, _, _, hclean, hbound => by
      obtain ⟨hclean, hrest⟩ := clean_append.mp hclean
      obtain ⟨hpattern, hbody⟩ := clean_append.mp hclean
      simp only [evalArms]
      rw [evalExpr_pure pattern hpattern hbound, evalExpr_pure body hbody hbound,
        evalArms_pure target rest hrest hbound]

/-- `let` bindings, and what follows them in a scope in which they are bound as well. -/
theorem evalLets_pure {α : Type} {k k' : LocalScope → Eval World α} :
    ∀ (lets : List (String × Expr)) {known : List String} {scope : LocalScope},
      Clean (walkLets fnName config registry known lets) → Bound known scope →
        (∀ inner, Bound ((lets.map Prod.fst).reverse ++ known) inner → k inner = k' inner) →
          (evalLets rt event call scope lets >>= k) = (evalLets rt other call scope lets >>= k')
  | [], known, scope, _, hbound, hk => by
      simp only [evalLets]
      exact hk scope hbound
  | (name, e) :: rest, known, scope, hclean, hbound, hk => by
      obtain ⟨he, hrest⟩ := clean_append.mp hclean
      simp only [evalLets]
      rw [evalExpr_pure e he hbound, Eval.bind_assoc, Eval.bind_assoc]
      congr 1
      funext value
      refine evalLets_pure rest hrest (hbound.bind name value) fun inner hinner => hk inner ?_
      rw [List.map_cons, List.reverse_cons, List.append_assoc]
      exact hinner

end

end Expressions

/-! ## Calls -/

section Calls

variable {rt : Runtime} {config : CompiledConfig} {builtins : FunctionRegistry World}

/-- No built-in function looks at the event it is given. -/
def EventBlind (builtins : FunctionRegistry World) : Prop :=
  ∀ key f, builtins.functions key = some f → ∀ args (event other : BorrowedEvent) world,
    f args event world = f args other world

/-- Every body of the configuration is clean. -/
theorem clean_body {names : List String} (haccepted : Accepted config names builtins)
    {fnDef : FunctionDef} (hmem : fnDef ∈ config.functions) :
    Clean (checkFunctionBody config builtins fnDef) := fun d hd =>
  haccepted d (List.mem_append_left _ (List.mem_flatMap.mpr ⟨fnDef, hmem, hd⟩))

theorem callBuiltin_blind (hblind : EventBlind builtins) (event other : BorrowedEvent)
    (ns : Option String) (name : String) (args : List Value) :
    callBuiltin (config.registered builtins) event ns name args =
      callBuiltin (config.registered builtins) other ns name args := by
  unfold callBuiltin
  rw [show (config.registered builtins).functions = builtins.functions from rfl]
  cases hf : builtins.functions (ns, name) with
  | none => rfl
  | some f =>
      have hsame : f args event = f args other := funext (hblind _ f hf args event other)
      simp only [hsame]

/-- **Calls do not depend on the event**, however deep they nest. -/
theorem call_pure (hbuiltins : ∀ name, builtins.userDefinitions name = none)
    (hblind : EventBlind builtins) {names : List String}
    (haccepted : Accepted config names builtins) (event other : BorrowedEvent) (depth : ℕ) :
    call rt (config.registered builtins) event depth =
      call rt (config.registered builtins) other depth := by
  induction depth with
  | zero =>
      funext ns name args
      rcases user_or_builtin (config.registered builtins) ns name with
        ⟨rfl, fnDef, hname⟩ | hbuiltin
      · rw [call.eq_def, call.eq_def]
        simp only [hname]
      · rw [call_builtin hbuiltin, call_builtin hbuiltin]
        exact callBuiltin_blind hblind event other ns name args
  | succ depth ih =>
      funext ns name args
      rcases user_or_builtin (config.registered builtins) ns name with
        ⟨rfl, fnDef, hname⟩ | hbuiltin
      · rw [call_user hname, call_user hname, ih]
        rw [userDefinitions_registered hbuiltins] at hname
        have hclean := clean_body haccepted (List.mem_of_find?_eq_some hname)
        obtain ⟨hlets, hret⟩ := clean_append.mp hclean
        unfold callUserFunction
        split
        · rfl
        · next hlength =>
          -- the parameters are bound in a scope of their own
          have hbound : Bound (fnDef.params ++ []) (LocalScope.bindAll fnDef.params args []) :=
            Bound.bindAll (fun _ h => absurd h List.not_mem_nil) (not_not.mp hlength)
          rw [List.append_nil] at hbound
          exact evalLets_pure fnDef.lets hlets hbound fun inner hinner =>
            evalExpr_pure fnDef.ret hret hinner
      · rw [call_builtin hbuiltin, call_builtin hbuiltin]
        exact callBuiltin_blind hblind event other ns name args

end Calls

/-- **Accepted functions are pure.**  A call of a function of the configuration with some arguments
gives the same result under any two events; and a call expression whose arguments have the same
values gives the same result in any two scopes, under any two events. -/
theorem accepted_pure (rt : Runtime) (config : CompiledConfig) (names : List String)
    (builtins : FunctionRegistry World) (hbuiltins : ∀ name, builtins.userDefinitions name = none)
    (hblind : EventBlind builtins) (haccepted : Accepted config names builtins) (name : String)
    (event other : BorrowedEvent) (depth : ℕ) :
    (∀ args world, call rt (config.registered builtins) event depth none name args world =
      call rt (config.registered builtins) other depth none name args world) ∧
    ∀ (args others : List Expr) (scope scope' : LocalScope) (world world' after : World)
      (values : List Value),
      Eval.collect (evalArgs rt event (call rt (config.registered builtins) event depth) scope
        args) world = some (.ok values, after) →
      Eval.collect (evalArgs rt other (call rt (config.registered builtins) other depth) scope'
        others) world' = some (.ok values, after) →
      evalExpr rt event (call rt (config.registered builtins) event depth) scope
          (.funcCall none name args none) world =
        evalExpr rt other (call rt (config.registered builtins) other depth) scope'
          (.funcCall none name others none) world' := by
  have hpure := @call_pure _ rt _ _ hbuiltins hblind _ haccepted event other depth
  refine ⟨fun args world => by rw [hpure], ?_⟩
  intro args others scope scope' world world' after values hargs hothers
  simp only [evalExpr]
  change Eval.bind _ _ world = Eval.bind _ _ world'
  unfold Eval.bind
  rw [hargs, hothers]
  simp only [hpure]

/-- Two events that have nothing in common. -/
def firstEvent : BorrowedEvent := ⟨1, 0, .v4 .localhost 514, [65], [65], [("k", .null)], none⟩

/-- An event that differs from the first one in every field. -/
def secondEvent : BorrowedEvent := ⟨2, 1, .v4 .localhost 515, [66], [], [], none⟩

theorem accepted_pure_mapping :
    firstEvent.ingress ≠ secondEvent.ingress ∧ ∀ rt depth args,
      call rt (mapping.registered mapBuiltins) firstEvent depth none "each" args () =
        call rt (mapping.registered mapBuiltins) secondEvent depth none "each" args () := by
  refine ⟨by decide, fun rt depth args => ?_⟩
  have haccepted : Accepted mapping ["each", "both"] mapBuiltins := by
    intro d hd
    rw [show checkAllFunctions mapping ["each", "both"] mapBuiltins = [] from by rfl] at hd
    exact absurd hd List.not_mem_nil
  have hblind : EventBlind mapBuiltins := by
    intro key f hf args event other world
    unfold mapBuiltins at hf
    simp only at hf
    split at hf
    · obtain rfl := Option.some.inj hf
      rfl
    · exact nomatch hf
  exact (accepted_pure rt mapping ["each", "both"] mapBuiltins (fun _ => rfl) hblind haccepted
    "each" firstEvent secondEvent depth).1 args ()

end Limpid.Check
