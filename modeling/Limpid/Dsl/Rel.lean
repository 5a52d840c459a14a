import Limpid.Dsl.Eval

/-!
# Comparing evaluations

The evaluator with two different meanings of calls.  A relation between computations that holds of
every result and every error and is respected by sequencing (`Congruence`) holds between the two
evaluations of an expression as soon as it holds between the calls the expression can make
(`evalExpr_rel`).

Two instances are used.  `Terminates` does not look at the second computation at all; `Le` says
that the second one has every result the first one has.
-/

namespace Limpid.Dsl

open Eval

variable {World α β : Type}

/-! ## The calls of an expression -/

mutual

/-- The calls an evaluation can make, each with whether it is made inside a block argument.  The
block primitives are not calls: their blocks are evaluated in place. -/
def callSites (inBlock : Bool) : Expr → List (Bool × FnKey)
  | .template fragments => callSitesFragments inBlock fragments
  | .funcCall ns name args none => (inBlock, (ns, name)) :: callSitesArgs inBlock args
  | .funcCall _ _ args (some (.mk _ lets ret)) =>
      callSitesArgs inBlock args ++ (callSitesEntries true lets ++ callSites true ret)
  | .binOp left _ right => callSites inBlock left ++ callSites inBlock right
  | .unaryOp _ operand => callSites inBlock operand
  | .hashLit entries => callSitesEntries inBlock entries
  | .arrayLit items => callSitesArgs inBlock items
  | .propertyAccess base _ => callSites inBlock base
  | .switchExpr scrutinee arms => callSites inBlock scrutinee ++ callSitesArms inBlock arms
  | _ => []

def callSitesArgs (inBlock : Bool) : List Expr → List (Bool × FnKey)
  | [] => []
  | e :: rest => callSites inBlock e ++ callSitesArgs inBlock rest

def callSitesFragments (inBlock : Bool) : List TemplateFragment → List (Bool × FnKey)
  | [] => []
  | .literal _ :: rest => callSitesFragments inBlock rest
  | .interp e :: rest => callSites inBlock e ++ callSitesFragments inBlock rest

def callSitesEntries (inBlock : Bool) : List (String × Expr) → List (Bool × FnKey)
  | [] => []
  | (_, e) :: rest => callSites inBlock e ++ callSitesEntries inBlock rest

def callSitesArms (inBlock : Bool) : List (Option Expr × Expr) → List (Bool × FnKey)
  | [] => []
  | (none, body) :: rest => callSites inBlock body ++ callSitesArms inBlock rest
  | (some pattern, body) :: rest =>
      callSites inBlock pattern ++ (callSites inBlock body ++ callSitesArms inBlock rest)

end

/-- The calls the body of a function can make. -/
def FunctionDef.callSites (fnDef : FunctionDef) : List (Bool × FnKey) :=
  callSitesEntries false fnDef.lets ++ Dsl.callSites false fnDef.ret

/-! ## Congruences -/

/-- A relation between computations. -/
abbrev EvalRel (World : Type) := ∀ {α : Type}, Eval World α → Eval World α → Prop

/-- A relation that the operations of `Eval` keep. -/
structure Congruence (R : EvalRel World) : Prop where
  ok : ∀ {α : Type} (a : α), R (ok a) (ok a)
  bail : ∀ {α : Type} (message : String), R (bail message : Eval World α) (bail message)
  bind : ∀ {α β : Type} {x y : Eval World α} {f g : α → Eval World β}, R x y →
    (∀ a, R (f a) (g a)) → R (x >>= f) (y >>= g)

namespace Congruence

variable {R : EvalRel World} (h : Congruence R)
include h

theorem ofExcept (x : Except String α) : R (Eval.ofExcept x) (Eval.ofExcept x) := by
  cases x with
  | ok a => exact h.ok a
  | error message => exact h.bail message

theorem collect {xs ys : List (Eval World α)} (hxs : List.Forall₂ (R (α := α)) xs ys) :
    R (collect xs) (collect ys) := by
  induction hxs with
  | nil => exact h.ok []
  | cons hx _ ih => exact h.bind hx fun a => h.bind ih fun as => h.ok (a :: as)

/-- One computation for each element. -/
theorem collect_map {f g : α → Eval World β} (hfg : ∀ a, R (f a) (g a)) (items : List α) :
    R (Eval.collect (items.map f)) (Eval.collect (items.map g)) := by
  refine h.collect ?_
  induction items with
  | nil => exact List.Forall₂.nil
  | cons a rest ih => exact List.Forall₂.cons (hfg a) ih

theorem filterM' {f g : α → Eval World Bool} (hfg : ∀ a, R (f a) (g a)) (items : List α) :
    R (Eval.filterM' f items) (Eval.filterM' g items) := by
  induction items with
  | nil => exact h.ok []
  | cons a rest ih => exact h.bind (hfg a) fun keep => h.bind ih fun kept => h.ok _

theorem findM' {f g : α → Eval World Bool} (hfg : ∀ a, R (f a) (g a)) (items : List α) :
    R (Eval.findM' f items) (Eval.findM' g items) := by
  induction items with
  | nil => exact h.ok none
  | cons a rest ih =>
      refine h.bind (hfg a) fun found => ?_
      cases found with
      | true => exact h.ok (some a)
      | false => exact ih

theorem foldM' {f g : β → α → Eval World β} (hfg : ∀ acc a, R (f acc a) (g acc a)) (acc : β)
    (items : List α) : R (Eval.foldM' f acc items) (Eval.foldM' g acc items) := by
  induction items generalizing acc with
  | nil => exact h.ok acc
  | cons a rest ih => exact h.bind (hfg acc a) fun acc => ih acc

/-! ### The block primitives -/

section Blocks

variable {rt : Runtime} {params : List String} {f g : List Value → Eval World Value}
  {xs ys : List (Eval World Value)}

theorem expectCollectionArg (hxs : List.Forall₂ (R (α := Value)) xs ys) (name : String)
    (expected : ℕ) : R (Dsl.expectCollectionArg name expected xs)
      (Dsl.expectCollectionArg name expected ys) := by
  unfold Dsl.expectCollectionArg
  rw [← hxs.length_eq]
  split
  · exact h.bail _
  · cases hxs with
    | nil => exact h.bail _
    | cons hx _ =>
        refine h.bind hx fun value => ?_
        cases value <;> first | exact h.ok _ | exact h.bail _

theorem expectBlockArity (name : String) (params : List String) (collectionType : String)
    (expected : ℕ) (names : String) :
    R (Dsl.expectBlockArity name params collectionType expected names)
      (Dsl.expectBlockArity name params collectionType expected names) := by
  unfold Dsl.expectBlockArity
  split
  · exact h.bail _
  · exact h.ok ()

theorem test (hfg : ∀ args, R (f args) (g args)) (args : List Value) :
    R (Dsl.test rt f args) (Dsl.test rt g args) :=
  h.bind (hfg args) fun _ => h.ok _

theorem evalMap (hfg : ∀ args, R (f args) (g args))
    (hxs : List.Forall₂ (R (α := Value)) xs ys) :
    R (Dsl.evalMap params f xs) (Dsl.evalMap params g ys) := by
  refine h.bind (h.expectCollectionArg hxs "map" 1) fun collection => ?_
  cases collection with
  | array items =>
      refine h.bind (h.expectBlockArity _ _ _ _ _) fun _ => ?_
      exact h.bind (h.collect_map (fun item => hfg [item]) items) fun _ => h.ok _
  | object entries =>
      refine h.bind (h.expectBlockArity _ _ _ _ _) fun _ => ?_
      exact h.bind (h.collect_map (fun entry => hfg (entryArgs entry)) entries) fun _ => h.ok _
  | null => exact h.bind (h.expectBlockArity _ _ _ _ _) fun _ => h.ok _

theorem evalFilter (hfg : ∀ args, R (f args) (g args))
    (hxs : List.Forall₂ (R (α := Value)) xs ys) :
    R (Dsl.evalFilter rt params f xs) (Dsl.evalFilter rt params g ys) := by
  refine h.bind (h.expectCollectionArg hxs "filter" 1) fun collection => ?_
  cases collection with
  | array items =>
      refine h.bind (h.expectBlockArity _ _ _ _ _) fun _ => ?_
      exact h.bind (h.filterM' (fun item => h.test hfg [item]) items) fun _ => h.ok _
  | object entries =>
      refine h.bind (h.expectBlockArity _ _ _ _ _) fun _ => ?_
      exact h.bind (h.filterM' (fun entry => h.test hfg (entryArgs entry)) entries)
        fun _ => h.ok _
  | null => exact h.bind (h.expectBlockArity _ _ _ _ _) fun _ => h.ok _

theorem evalFind (hfg : ∀ args, R (f args) (g args))
    (hxs : List.Forall₂ (R (α := Value)) xs ys) :
    R (Dsl.evalFind rt params f xs) (Dsl.evalFind rt params g ys) := by
  refine h.bind (h.expectCollectionArg hxs "find" 1) fun collection => ?_
  cases collection with
  | array items =>
      refine h.bind (h.expectBlockArity _ _ _ _ _) fun _ => ?_
      exact h.bind (h.findM' (fun item => h.test hfg [item]) items) fun _ => h.ok _
  | object entries =>
      refine h.bind (h.expectBlockArity _ _ _ _ _) fun _ => ?_
      exact h.bind (h.findM' (fun entry => h.test hfg (entryArgs entry)) entries)
        fun _ => h.ok _
  | null => exact h.bind (h.expectBlockArity _ _ _ _ _) fun _ => h.ok _

theorem evalReduce (hfg : ∀ args, R (f args) (g args))
    (hxs : List.Forall₂ (R (α := Value)) xs ys) :
    R (Dsl.evalReduce params f xs) (Dsl.evalReduce params g ys) := by
  have hinit : R (xs.getD 1 (Eval.bail "index out of bounds"))
      (ys.getD 1 (Eval.bail "index out of bounds")) := by
    match xs, ys, hxs with
    | [], [], _ => exact h.bail _
    | [_], [_], _ => exact h.bail _
    | _ :: _ :: _, _ :: _ :: _, .cons _ (.cons hx _) => exact hx
  refine h.bind (h.expectCollectionArg hxs "reduce" 2) fun collection => ?_
  cases collection with
  | array items =>
      refine h.bind (h.expectBlockArity _ _ _ _ _) fun _ => h.bind hinit fun acc => ?_
      exact h.foldM' (fun acc item => hfg [acc, item]) acc items
  | object entries =>
      refine h.bind (h.expectBlockArity _ _ _ _ _) fun _ => h.bind hinit fun acc => ?_
      exact h.foldM' (fun acc entry => hfg (acc :: entryArgs entry)) acc entries
  | null =>
      exact h.bind (h.expectBlockArity _ _ _ _ _) fun _ => h.bind hinit fun acc => h.ok acc

theorem evalBlockPrimitive (hfg : ∀ args, R (f args) (g args))
    (hxs : List.Forall₂ (R (α := Value)) xs ys) (ns : Option String) (name : String) :
    R (Dsl.evalBlockPrimitive rt params f ns name xs)
      (Dsl.evalBlockPrimitive rt params g ns name ys) := by
  cases ns with
  | some ns => exact h.bail _
  | none =>
      unfold Dsl.evalBlockPrimitive
      dsimp only
      split
      · exact h.evalMap hfg hxs
      · exact h.evalFilter hfg hxs
      · exact h.evalFind hfg hxs
      · exact h.evalReduce hfg hxs
      · exact h.bail _

end Blocks

end Congruence

/-! ## Evaluations -/

section Evaluations

variable {R : EvalRel World} {rt : Runtime} {event : BorrowedEvent}
  {call call' : Option String → String → List Value → Eval World Value}

/-- The two meanings of calls are related at the given call sites. -/
def RelatedAt (R : EvalRel World) (call call' : Option String → String → List Value →
    Eval World Value) (sites : List (Bool × FnKey)) : Prop :=
  ∀ site ∈ sites, ∀ args, R (call site.2.1 site.2.2 args) (call' site.2.1 site.2.2 args)

theorem relatedAt_append {first second : List (Bool × FnKey)} :
    RelatedAt R call call' (first ++ second) ↔
      RelatedAt R call call' first ∧ RelatedAt R call call' second := by
  simp only [RelatedAt, List.mem_append, or_imp, forall_and]

theorem relatedAt_cons {site : Bool × FnKey} {rest : List (Bool × FnKey)} :
    RelatedAt R call call' (site :: rest) ↔
      (∀ args, R (call site.2.1 site.2.2 args) (call' site.2.1 site.2.2 args)) ∧
        RelatedAt R call call' rest := by
  simp only [RelatedAt, List.mem_cons, forall_eq_or_imp]

mutual

/-- **Related calls make related evaluations.** -/
theorem evalExpr_rel (h : Congruence R) {b : Bool} : ∀ (e : Expr) (scope : LocalScope),
    RelatedAt R call call' (callSites b e) →
      R (evalExpr rt event call scope e) (evalExpr rt event call' scope e)
  | .stringLit _, _, _ => h.ok _
  | .template fragments, scope, hsites =>
      h.bind (evalFragments_rel h fragments scope hsites) fun _ => h.ok _
  | .intLit _, _, _ => h.ok _
  | .floatLit _, _, _ => h.ok _
  | .boolLit _, _, _ => h.ok _
  | .null, _, _ => h.ok _
  | .ident _, _, _ => h.ofExcept _
  | .funcCall ns name args none, scope, hsites => by
      obtain ⟨hcall, hargs⟩ := relatedAt_cons.mp hsites
      exact h.bind (h.collect (evalArgs_rel h args scope hargs)) fun values => hcall values
  | .funcCall ns name args (some (.mk params lets ret)), scope, hsites => by
      obtain ⟨hargs, hblock⟩ := relatedAt_append.mp hsites
      obtain ⟨hlets, hret⟩ := relatedAt_append.mp hblock
      refine h.evalBlockPrimitive (fun values => ?_) (evalArgs_rel h args scope hargs) ns name
      split
      · exact h.bail _
      · exact h.bind (evalLets_rel h lets _ hlets) fun inner => evalExpr_rel h ret inner hret
  | .binOp left op right, scope, hsites => by
      obtain ⟨hleft, hright⟩ := relatedAt_append.mp hsites
      exact h.bind (evalExpr_rel h left scope hleft) fun _ =>
        h.bind (evalExpr_rel h right scope hright) fun _ => h.ofExcept _
  | .unaryOp op operand, scope, hsites =>
      h.bind (evalExpr_rel h operand scope hsites) fun _ => h.ofExcept _
  | .hashLit entries, scope, hsites =>
      h.bind (evalEntries_rel h entries scope hsites) fun _ => h.ok _
  | .arrayLit items, scope, hsites =>
      h.bind (h.collect (evalArgs_rel h items scope hsites)) fun _ => h.ok _
  | .propertyAccess base path, scope, hsites =>
      h.bind (evalExpr_rel h base scope hsites) fun _ => h.ofExcept _
  | .switchExpr scrutinee arms, scope, hsites => by
      obtain ⟨hscrutinee, harms⟩ := relatedAt_append.mp hsites
      exact h.bind (evalExpr_rel h scrutinee scope hscrutinee) fun target =>
        evalArms_rel h target arms scope harms

theorem evalArgs_rel (h : Congruence R) {b : Bool} : ∀ (args : List Expr) (scope : LocalScope),
    RelatedAt R call call' (callSitesArgs b args) →
      List.Forall₂ (R (α := Value)) (evalArgs rt event call scope args)
        (evalArgs rt event call' scope args)
  | [], _, _ => List.Forall₂.nil
  | e :: rest, scope, hsites => by
      obtain ⟨he, hrest⟩ := relatedAt_append.mp hsites
      exact List.Forall₂.cons (evalExpr_rel h e scope he) (evalArgs_rel h rest scope hrest)

theorem evalFragments_rel (h : Congruence R) {b : Bool} :
    ∀ (fragments : List TemplateFragment) (scope : LocalScope),
      RelatedAt R call call' (callSitesFragments b fragments) →
        R (evalFragments rt event call scope fragments)
          (evalFragments rt event call' scope fragments)
  | [], _, _ => h.ok _
  | .literal _ :: rest, scope, hsites =>
      h.bind (evalFragments_rel h rest scope hsites) fun _ => h.ok _
  | .interp e :: rest, scope, hsites => by
      obtain ⟨he, hrest⟩ := relatedAt_append.mp hsites
      refine h.bind (evalExpr_rel h e scope he) fun value => ?_
      have hout := fun (s : String) =>
        h.bind (evalFragments_rel h rest scope hrest) fun out => h.ok (s ++ out)
      cases value <;> first | exact h.bail _ | exact hout _

theorem evalEntries_rel (h : Congruence R) {b : Bool} :
    ∀ (entries : List (String × Expr)) (scope : LocalScope),
      RelatedAt R call call' (callSitesEntries b entries) →
        R (evalEntries rt event call scope entries) (evalEntries rt event call' scope entries)
  | [], _, _ => h.ok _
  | (_, e) :: rest, scope, hsites => by
      obtain ⟨he, hrest⟩ := relatedAt_append.mp hsites
      exact h.bind (evalExpr_rel h e scope he) fun _ =>
        h.bind (evalEntries_rel h rest scope hrest) fun _ => h.ok _

theorem evalArms_rel (h : Congruence R) {b : Bool} (target : Value) :
    ∀ (arms : List (Option Expr × Expr)) (scope : LocalScope),
      RelatedAt R call call' (callSitesArms b arms) →
        R (evalArms rt event call scope target arms) (evalArms rt event call' scope target arms)
  | [], _, _ => h.ok _
  | (none, body) :: rest, scope, hsites => evalExpr_rel h body scope (relatedAt_append.mp hsites).1
  | (some pattern, body) :: rest, scope, hsites => by
      obtain ⟨hpattern, hsites⟩ := relatedAt_append.mp hsites
      obtain ⟨hbody, hrest⟩ := relatedAt_append.mp hsites
      refine h.bind (evalExpr_rel h pattern scope hpattern) fun value => ?_
      split
      · exact evalExpr_rel h body scope hbody
      · exact evalArms_rel h target rest scope hrest

theorem evalLets_rel (h : Congruence R) {b : Bool} :
    ∀ (lets : List (String × Expr)) (scope : LocalScope),
      RelatedAt R call call' (callSitesEntries b lets) →
        R (evalLets rt event call scope lets) (evalLets rt event call' scope lets)
  | [], _, _ => h.ok _
  | (name, e) :: rest, scope, hsites => by
      obtain ⟨he, hrest⟩ := relatedAt_append.mp hsites
      exact h.bind (evalExpr_rel h e scope he) fun value =>
        evalLets_rel h rest (scope.bind name value) hrest

end

theorem callUserFunction_rel (h : Congruence R) {fnDef : FunctionDef}
    (hsites : RelatedAt R call call' fnDef.callSites) (args : List Value) :
    R (FunctionRegistry.callUserFunction rt event call fnDef args)
      (FunctionRegistry.callUserFunction rt event call' fnDef args) := by
  obtain ⟨hlets, hret⟩ := relatedAt_append.mp hsites
  unfold FunctionRegistry.callUserFunction
  split
  · exact h.bail _
  · exact h.bind (evalLets_rel h fnDef.lets _ hlets) fun scope =>
      evalExpr_rel h fnDef.ret scope hret

end Evaluations

/-! ## Two congruences -/

/-- The computation does not run out of depth. -/
def Terminates (x : Eval World α) : Prop := ∀ world, x world ≠ none

theorem congruence_terminates :
    Congruence (fun {α} (x _ : Eval World α) => Terminates x) where
  ok a := by simp [Terminates, Eval.ok]
  bail message := by simp [Terminates, Eval.bail]
  bind := by
    intro α β x y f g hx hf world
    show Eval.bind x f world ≠ none
    unfold Eval.bind
    have hworld := hx world
    split
    · next hnone => exact absurd hnone hworld
    · simp
    · next a world' hsome => exact hf a world'

/-- The second computation has every result the first one has. -/
def Le (x y : Eval World α) : Prop := ∀ world result, x world = some result → y world = some result

theorem congruence_le : Congruence (fun {α} (x y : Eval World α) => Le x y) where
  ok a := fun world result h => h
  bail message := fun world result h => h
  bind := by
    intro α β x y f g hx hf world result h
    have hbind : Eval.bind x f world = some result := h
    show Eval.bind y g world = some result
    unfold Eval.bind at hbind ⊢
    cases hxw : x world with
    | none =>
        rw [hxw] at hbind
        exact absurd hbind (by simp)
    | some pair =>
        rw [hxw] at hbind
        rw [hx world pair hxw]
        obtain ⟨outcome, world'⟩ := pair
        cases outcome with
        | error message => exact hbind
        | ok a => exact hf a world' result hbind

end Limpid.Dsl
