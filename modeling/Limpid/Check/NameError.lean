import Mathlib.Data.Set.Insert
import Limpid.Check.Purity

/-!
# Errors about names

`resolve_ident` fails on a name that it does not know, and so does the dispatch of a call; their
texts begin in three ways, and no other text of the evaluator begins so.  An expression `Resolves`
under some names when each of its identifiers is one of them or a field of the event, and each of
its calls can be made.  In a scope that binds the names such an expression never fails with an
error of this kind (`evalExpr_knowsNames`), whatever its value.
-/

namespace Limpid.Check

open Dsl Eval

/-- How the texts of `resolve_ident` and of a call that is not found begin. -/
def nameErrors : List String := ["unknown identifier: ", "unknown ident path: ", "unknown function"]

/-- An error about a name.  The text with nothing after the colon is that of a path without parts:
the parser makes none, and the program would not get as far as the text. -/
def IsNameError (message : String) : Prop :=
  (∃ text ∈ nameErrors, text.toList <+: message.toList) ∧ message ≠ "unknown identifier: "

theorem head?_append {s t : String} {c : Char} (h : s.toList.head? = some c) :
    (s ++ t).toList.head? = some c := by
  rw [String.toList_append, List.head?_append, h, Option.some_or]

theorem not_isNameError {message : String} {c : Char} (h : message.toList.head? = some c)
    (hc : c ≠ 'u') : ¬ IsNameError message := by
  rintro ⟨⟨text, htext, rest, hrest⟩, -⟩
  have hfirst : text.toList.head? = some 'u' := by
    simp only [nameErrors, List.mem_cons, List.not_mem_nil, or_false] at htext
    rcases htext with rfl | rfl | rfl <;> rfl
  rw [← hrest, List.head?_append, hfirst, Option.some_or] at h
  exact hc (Option.some.inj h).symm

/-! ## Computations -/

section Computations

variable {S α β : Type}

/-- A computation that does not fail for a name. -/
def KnowsNames (x : Eval S α) : Prop :=
  ∀ state message after, x state = some (.error message, after) → ¬ IsNameError message

namespace KnowsNames

theorem ok (a : α) : KnowsNames (Eval.ok a : Eval S α) := by
  intro state message after h
  cases h

theorem bail {message : String} (h : ¬ IsNameError message) :
    KnowsNames (Eval.bail message : Eval S α) := by
  intro state other after hother
  obtain ⟨heq, -⟩ := Prod.mk.inj (Option.some.inj hother)
  obtain rfl := Except.error.inj heq
  exact h

theorem diverge : KnowsNames (Eval.diverge : Eval S α) := by
  intro state message after h
  cases h

theorem bind {x : Eval S α} {f : α → Eval S β} (hx : KnowsNames x)
    (hf : ∀ a, KnowsNames (f a)) : KnowsNames (x >>= f) := by
  intro state message after h
  change Eval.bind x f state = _ at h
  unfold Eval.bind at h
  cases hresult : x state with
  | none =>
      rw [hresult] at h
      cases h
  | some result =>
      obtain ⟨outcome, middle⟩ := result
      rw [hresult] at h
      cases outcome with
      | error text =>
          obtain ⟨heq, -⟩ := Prod.mk.inj (Option.some.inj h)
          obtain rfl := Except.error.inj heq
          exact hx state text middle hresult
      | ok a => exact hf a middle message after h

theorem ofExcept {x : Except String α} (h : ∀ message, x = .error message → ¬ IsNameError message) :
    KnowsNames (Eval.ofExcept x : Eval S α) := by
  cases x with
  | ok a => exact .ok a
  | error message => exact .bail (h message rfl)

theorem ite {p : Prop} [Decidable p] {x y : Eval S α} (hx : p → KnowsNames x)
    (hy : ¬ p → KnowsNames y) : KnowsNames (if p then x else y) := by
  split
  · next h => exact hx h
  · next h => exact hy h

theorem collect {computations : List (Eval S α)} (h : ∀ x ∈ computations, KnowsNames x) :
    KnowsNames (Eval.collect computations) := by
  induction computations with
  | nil => exact .ok []
  | cons x rest ih =>
      obtain ⟨hx, hrest⟩ := List.forall_mem_cons.mp h
      exact hx.bind fun a => (ih hrest).bind fun as => .ok (a :: as)

theorem filterM' {test : α → Eval S Bool} (h : ∀ a, KnowsNames (test a)) (items : List α) :
    KnowsNames (Eval.filterM' test items) := by
  induction items with
  | nil => exact .ok []
  | cons a rest ih => exact (h a).bind fun keep => ih.bind fun kept => .ok _

theorem findM' {test : α → Eval S Bool} (h : ∀ a, KnowsNames (test a)) (items : List α) :
    KnowsNames (Eval.findM' test items) := by
  induction items with
  | nil => exact .ok none
  | cons a rest ih => exact (h a).bind fun found => .ite (fun _ => .ok _) fun _ => ih

theorem foldM' {f : β → α → Eval S β} (h : ∀ acc a, KnowsNames (f acc a)) (acc : β)
    (items : List α) : KnowsNames (Eval.foldM' f acc items) := by
  induction items generalizing acc with
  | nil => exact .ok acc
  | cons a rest ih => exact (h acc a).bind fun next => ih next

end KnowsNames

end Computations

/-! ## The texts of the evaluator -/

section Texts

variable {rt : Runtime}

theorem exactIntOp_text {op : BinOp} {a b : Int64} {message : String}
    (h : exactIntOp op a b = .error message) : ¬ IsNameError message := by
  unfold exactIntOp at h
  dsimp only at h
  split at h
  · cases h
  · obtain rfl := Except.error.inj h
    refine not_isNameError (c := 'i') ?_ (by decide)
    repeat apply head?_append
    rfl

theorem numericOp_text {op : BinOp} {left right : Value} {message : String}
    (h : numericOp rt op left right = .error message) : ¬ IsNameError message := by
  have hcannot : ∀ op : BinOp,
      ¬ IsNameError s!"cannot {(arithmeticLabels op).1} a bytes value" := by
    intro op
    refine not_isNameError (c := 'c') ?_ (by decide)
    repeat apply head?_append
    rfl
  unfold numericOp at h
  split at h
  · exact Except.error.inj h ▸ hcannot op
  · exact Except.error.inj h ▸ hcannot op
  · next a b =>
    cases hexact : exactIntOp op a b with
    | ok n =>
        rw [hexact] at h
        cases h
    | error text =>
        rw [hexact] at h
        obtain rfl := Except.error.inj h
        exact exactIntOp_text hexact
  · cases h

theorem evalBinOp_text {op : BinOp} {left right : Value} {message : String}
    (h : evalBinOp rt left op right = .error message) : ¬ IsNameError message := by
  have hconcatenate : ∀ left right : Value, ¬ IsNameError
      s!"cannot concatenate {left.typeName} and {right.typeName} (only bytes + bytes is supported)" := by
    intro left right
    refine not_isNameError (c := 'c') ?_ (by decide)
    repeat apply head?_append
    rfl
  unfold evalBinOp at h
  cases op with
  | add =>
      dsimp only at h
      unfold addValues at h
      split at h
      · cases h
      · exact Except.error.inj h ▸ hconcatenate _ _
      · exact Except.error.inj h ▸ hconcatenate _ _
      · cases h
      · cases h
      · exact numericOp_text h
  | sub | mul | div | mod => exact numericOp_text h
  | eq | ne | lt | le | gt | ge | and | or => cases h

theorem evalUnaryOp_text {op : UnaryOp} {value : Value} {message : String}
    (h : evalUnaryOp rt op value = .error message) : ¬ IsNameError message := by
  unfold evalUnaryOp at h
  split at h
  · cases h
  · exact Except.error.inj h ▸ not_isNameError (c := 'c') rfl (by decide)
  · cases h

theorem cannotAccess (key : String) :
    ¬ IsNameError s!"cannot access field `{key}` on a bytes value" := by
  refine not_isNameError (c := 'c') ?_ (by decide)
  repeat apply head?_append
  rfl

theorem accessPath_text {path : List String} {value : Value} {message : String}
    (h : accessPath path value = .error message) : ¬ IsNameError message := by
  induction path generalizing value with
  | nil => cases h
  | cons field rest ih =>
      unfold accessPath at h
      split at h
      · exact ih h
      · exact Except.error.inj h ▸ cannotAccess field
      · exact ih h

theorem resolveWorkspacePath_text {path : List String} {value : Value} {message : String}
    (h : resolveWorkspacePath path value = .error message) : ¬ IsNameError message := by
  induction path generalizing value with
  | nil => cases h
  | cons key rest ih =>
      unfold resolveWorkspacePath at h
      split at h
      · exact ih h
      · exact Except.error.inj h ▸ cannotAccess key
      · cases h

end Texts

/-! ## Block primitives -/

section Blocks

variable {World : Type} {rt : Runtime} {params : List String}
  {body : List Value → Eval World Value} {args : List (Eval World Value)}

theorem expectCollectionArg_knowsNames {name : String} {c : Char}
    (hname : name.toList.head? = some c) (hc : c ≠ 'u') (expected : ℕ)
    (hargs : ∀ x ∈ args, KnowsNames x) :
    KnowsNames (expectCollectionArg name expected args) := by
  unfold expectCollectionArg
  refine .ite (fun _ => .bail ?_) fun _ => ?_
  · refine not_isNameError (c := c) ?_ hc
    repeat apply head?_append
    exact hname
  · cases args with
    | nil => exact .bail (not_isNameError (c := 'i') rfl (by decide))
    | cons first rest =>
        refine (hargs first List.mem_cons_self).bind fun value => ?_
        split
        · exact .ok _
        · exact .ok _
        · exact .ok _
        · refine .bail (not_isNameError (c := c) ?_ hc)
          repeat apply head?_append
          exact hname

theorem expectBlockArity_knowsNames {name : String} {c : Char}
    (hname : name.toList.head? = some c) (hc : c ≠ 'u') (collectionType : String) (expected : ℕ)
    (names : String) :
    KnowsNames (expectBlockArity name params collectionType expected names : Eval World Unit) := by
  unfold expectBlockArity
  refine .ite (fun _ => .bail ?_) fun _ => .ok ()
  refine not_isNameError (c := c) ?_ hc
  repeat apply head?_append
  exact hname

theorem test_knowsNames (hbody : ∀ values, KnowsNames (body values)) (values : List Value) :
    KnowsNames (test rt body values) :=
  (hbody values).bind fun _ => .ok _

theorem evalMap_knowsNames (hbody : ∀ values, KnowsNames (body values))
    (hargs : ∀ x ∈ args, KnowsNames x) : KnowsNames (evalMap params body args) := by
  unfold evalMap
  refine (expectCollectionArg_knowsNames (c := 'm') rfl (by decide) 1 hargs).bind fun found => ?_
  cases found with
  | array items =>
      refine (expectBlockArity_knowsNames (c := 'm') rfl (by decide) _ _ _).bind fun _ => ?_
      refine (KnowsNames.collect fun x hx => ?_).bind fun out => .ok _
      obtain ⟨item, -, rfl⟩ := List.mem_map.mp hx
      exact hbody _
  | object entries =>
      refine (expectBlockArity_knowsNames (c := 'm') rfl (by decide) _ _ _).bind fun _ => ?_
      refine (KnowsNames.collect fun x hx => ?_).bind fun out => .ok _
      obtain ⟨entry, -, rfl⟩ := List.mem_map.mp hx
      exact hbody _
  | null =>
      exact (expectBlockArity_knowsNames (c := 'm') rfl (by decide) _ _ _).bind fun _ => .ok _

theorem evalFilter_knowsNames (hbody : ∀ values, KnowsNames (body values))
    (hargs : ∀ x ∈ args, KnowsNames x) : KnowsNames (evalFilter rt params body args) := by
  unfold evalFilter
  refine (expectCollectionArg_knowsNames (c := 'f') rfl (by decide) 1 hargs).bind fun found => ?_
  cases found with
  | array items =>
      refine (expectBlockArity_knowsNames (c := 'f') rfl (by decide) _ _ _).bind fun _ => ?_
      exact (KnowsNames.filterM' (fun item => test_knowsNames hbody _) items).bind fun _ => .ok _
  | object entries =>
      refine (expectBlockArity_knowsNames (c := 'f') rfl (by decide) _ _ _).bind fun _ => ?_
      exact (KnowsNames.filterM' (fun entry => test_knowsNames hbody _) entries).bind
        fun _ => .ok _
  | null =>
      exact (expectBlockArity_knowsNames (c := 'f') rfl (by decide) _ _ _).bind fun _ => .ok _

theorem evalFind_knowsNames (hbody : ∀ values, KnowsNames (body values))
    (hargs : ∀ x ∈ args, KnowsNames x) : KnowsNames (evalFind rt params body args) := by
  unfold evalFind
  refine (expectCollectionArg_knowsNames (c := 'f') rfl (by decide) 1 hargs).bind fun found => ?_
  cases found with
  | array items =>
      refine (expectBlockArity_knowsNames (c := 'f') rfl (by decide) _ _ _).bind fun _ => ?_
      exact (KnowsNames.findM' (fun item => test_knowsNames hbody _) items).bind fun _ => .ok _
  | object entries =>
      refine (expectBlockArity_knowsNames (c := 'f') rfl (by decide) _ _ _).bind fun _ => ?_
      exact (KnowsNames.findM' (fun entry => test_knowsNames hbody _) entries).bind
        fun _ => .ok _
  | null =>
      exact (expectBlockArity_knowsNames (c := 'f') rfl (by decide) _ _ _).bind fun _ => .ok _

theorem evalReduce_knowsNames (hbody : ∀ values, KnowsNames (body values))
    (hargs : ∀ x ∈ args, KnowsNames x) : KnowsNames (evalReduce params body args) := by
  have hinitial : KnowsNames (args.getD 1 (bail "index out of bounds")) := by
    cases hsecond : args[1]? with
    | none =>
        rw [List.getD_eq_getElem?_getD, hsecond]
        exact .bail (not_isNameError (c := 'i') rfl (by decide))
    | some x =>
        rw [List.getD_eq_getElem?_getD, hsecond]
        exact hargs x (List.mem_of_getElem? hsecond)
  unfold evalReduce
  refine (expectCollectionArg_knowsNames (c := 'r') rfl (by decide) 2 hargs).bind fun found => ?_
  cases found with
  | array items =>
      refine (expectBlockArity_knowsNames (c := 'r') rfl (by decide) _ _ _).bind fun _ => ?_
      exact hinitial.bind fun acc => KnowsNames.foldM' (fun acc item => hbody _) acc items
  | object entries =>
      refine (expectBlockArity_knowsNames (c := 'r') rfl (by decide) _ _ _).bind fun _ => ?_
      exact hinitial.bind fun acc => KnowsNames.foldM' (fun acc entry => hbody _) acc entries
  | null =>
      refine (expectBlockArity_knowsNames (c := 'r') rfl (by decide) _ _ _).bind fun _ => ?_
      exact hinitial.bind fun acc => .ok acc

theorem evalBlockPrimitive_knowsNames (ns : Option String) (name : String)
    (hbody : ∀ values, KnowsNames (body values)) (hargs : ∀ x ∈ args, KnowsNames x) :
    KnowsNames (evalBlockPrimitive rt params body ns name args) := by
  unfold evalBlockPrimitive
  cases ns with
  | some ns =>
      refine .bail (not_isNameError (c := 'b') ?_ (by decide))
      repeat apply head?_append
      rfl
  | none =>
      dsimp only
      split
      · exact evalMap_knowsNames hbody hargs
      · exact evalFilter_knowsNames hbody hargs
      · exact evalFind_knowsNames hbody hargs
      · exact evalReduce_knowsNames hbody hargs
      · refine .bail (not_isNameError (c := 'f') ?_ (by decide))
        repeat apply head?_append
        rfl

end Blocks

/-! ## Expressions -/

/-- Every name of the set is bound. -/
def Binds (scope : LocalScope) (known : Set String) : Prop :=
  ∀ name ∈ known, (scope.get name).isSome

namespace Binds

variable {scope : LocalScope} {known fewer : Set String}

theorem empty (scope : LocalScope) : Binds scope ∅ := fun _ h => h.elim

theorem mono (h : Binds scope known) (hsub : fewer ⊆ known) : Binds scope fewer :=
  fun name hname => h name (hsub hname)

theorem bind (h : Binds scope known) (name : String) (value : Value) :
    Binds (scope.bind name value) (insert name known) := by
  intro other hother
  simp only [LocalScope.get, LocalScope.bind, List.lookup_cons]
  rcases hother with rfl | hother
  · simp
  · split
    · rfl
    · exact h other hother

/-- Parameters are bound to as many values. -/
theorem bindAll (h : Binds scope known) {params : List String} {values : List Value}
    (hlength : values.length = params.length) :
    Binds (LocalScope.bindAll params values scope) ({name | name ∈ params} ∪ known) := by
  induction params generalizing known scope values with
  | nil =>
      have hsubset : {name | name ∈ ([] : List String)} ∪ known ⊆ known := by
        rintro name (hname | hname)
        · exact absurd hname List.not_mem_nil
        · exact hname
      exact h.mono hsubset
  | cons param rest ih =>
      cases values with
      | nil => cases hlength
      | cons value values =>
          refine (ih (h.bind param value) (Nat.succ.inj hlength)).mono ?_
          rintro name (hname | hname)
          · rcases List.mem_cons.mp hname with rfl | hname
            · exact .inr (.inl rfl)
            · exact .inl hname
          · exact .inr (.inr hname)

end Binds

section Resolves

variable (callable : Option String → String → Prop)

/-- A path into a known name or into the event. -/
def ResolvesIdent (known : Set String) (parts : List String) : Prop :=
  parts = [] ∨ parts ∈ [["source", "ip"], ["source", "port"]] ∨
    (∃ name ∈ ["ingress", "egress", "source", "received_at", "error"], parts = [name]) ∨
    parts.head? = some "workspace" ∨ ∃ name ∈ known, parts.head? = some name

mutual

/-- Every identifier of an expression, and every function it calls, is known. -/
def Resolves (known : Set String) : Expr → Prop
  | .template fragments => ResolvesFragments known fragments
  | .ident parts => ResolvesIdent known parts
  | .funcCall ns name args none => callable ns name ∧ ResolvesArgs known args
  | .funcCall _ _ args (some (.mk params lets ret)) =>
      ResolvesArgs known args ∧ ResolvesLets ({name | name ∈ params} ∪ known) lets ∧
        Resolves ({name | name ∈ lets.map Prod.fst} ∪ ({name | name ∈ params} ∪ known)) ret
  | .binOp left _ right => Resolves known left ∧ Resolves known right
  | .unaryOp _ operand => Resolves known operand
  | .hashLit entries => ResolvesEntries known entries
  | .arrayLit items => ResolvesArgs known items
  | .propertyAccess base _ => Resolves known base
  | .switchExpr scrutinee arms => Resolves known scrutinee ∧ ResolvesArms known arms
  | _ => True

def ResolvesArgs (known : Set String) : List Expr → Prop
  | [] => True
  | e :: rest => Resolves known e ∧ ResolvesArgs known rest

def ResolvesFragments (known : Set String) : List TemplateFragment → Prop
  | [] => True
  | .literal _ :: rest => ResolvesFragments known rest
  | .interp e :: rest => Resolves known e ∧ ResolvesFragments known rest

def ResolvesEntries (known : Set String) : List (String × Expr) → Prop
  | [] => True
  | (_, e) :: rest => Resolves known e ∧ ResolvesEntries known rest

def ResolvesArms (known : Set String) : List (Option Expr × Expr) → Prop
  | [] => True
  | (none, body) :: rest => Resolves known body ∧ ResolvesArms known rest
  | (some pattern, body) :: rest =>
      Resolves known pattern ∧ Resolves known body ∧ ResolvesArms known rest

/-- The value of a `let` does not know its name, what follows does. -/
def ResolvesLets (known : Set String) : List (String × Expr) → Prop
  | [] => True
  | (name, e) :: rest => Resolves known e ∧ ResolvesLets (insert name known) rest

end

end Resolves

section Expressions

variable {World : Type} {rt : Runtime} {event : BorrowedEvent}
  {call : Option String → String → List Value → Eval World Value}
  {callable : Option String → String → Prop}

theorem resolveIdent_text {known : Set String} {parts : List String} {scope : LocalScope}
    {message : String} (hresolves : ResolvesIdent known parts) (hbinds : Binds scope known)
    (h : resolveIdent parts event scope = .error message) : ¬ IsNameError message := by
  unfold resolveIdent at h
  cases parts with
  | nil =>
      obtain rfl := Except.error.inj h
      exact fun hname => hname.2 rfl
  | cons head rest =>
      dsimp only at h
      cases hroot : scope.get head with
      | some root =>
          rw [hroot] at h
          exact resolveWorkspacePath_text h
      | none =>
          rw [hroot] at h
          rcases hresolves with hnil | hsource | ⟨name, hname, hparts⟩ | hworkspace |
            ⟨name, hname, hhead⟩
          · cases hnil
          · simp only [List.mem_cons, List.not_mem_nil, or_false, List.cons.injEq] at hsource
            rcases hsource with ⟨rfl, rfl, -⟩ | ⟨rfl, rfl, -⟩ <;> cases h
          · obtain ⟨rfl, rfl⟩ := List.cons.inj hparts
            simp only [List.mem_cons, List.not_mem_nil, or_false] at hname
            rcases hname with rfl | rfl | rfl | rfl | rfl <;> cases h
          · obtain rfl : head = "workspace" := Option.some.inj hworkspace
            cases rest with
            | nil => cases h
            | cons key rest => exact resolveWorkspacePath_text h
          · obtain rfl : head = name := Option.some.inj hhead
            have hbound := hbinds head hname
            rw [hroot] at hbound
            cases hbound

/-- The calls that can be made do not fail for a name. -/
def CallsKnowNames (callable : Option String → String → Prop)
    (call : Option String → String → List Value → Eval World Value) : Prop :=
  ∀ ns name, callable ns name → ∀ values, KnowsNames (call ns name values)

mutual

/-- **An expression that resolves does not fail for a name.** -/
theorem evalExpr_knowsNames (hcall : CallsKnowNames callable call) :
    ∀ (e : Expr) {known : Set String} {scope : LocalScope},
    Resolves callable known e → Binds scope known → KnowsNames (evalExpr rt event call scope e)
  | .stringLit _, _, _, _, _ | .intLit _, _, _, _, _ | .floatLit _, _, _, _, _
  | .boolLit _, _, _, _, _ | .null, _, _, _, _ => by
      simp only [evalExpr]
      exact .ok _
  | .template fragments, _, _, h, hbinds => by
      simp only [evalExpr]
      exact (evalFragments_knowsNames hcall fragments h hbinds).bind fun _ => .ok _
  | .ident parts, _, _, h, hbinds => by
      simp only [evalExpr]
      exact .ofExcept fun message hmessage => resolveIdent_text h hbinds hmessage
  | .funcCall ns name args none, _, _, h, hbinds => by
      simp only [evalExpr]
      exact (KnowsNames.collect (evalArgs_knowsNames hcall args h.2 hbinds)).bind
        fun values => hcall ns name h.1 values
  | .funcCall ns name args (some (.mk params lets ret)), _, _, h, hbinds => by
      obtain ⟨hargs, hlets, hret⟩ := h
      simp only [evalExpr]
      -- the block runs with its parameters bound, and with nothing else added
      refine evalBlockPrimitive_knowsNames ns name (fun values => ?_)
        (evalArgs_knowsNames hcall args hargs hbinds)
      refine .ite (fun _ => .bail ?_) fun hlength => ?_
      · refine not_isNameError (c := 'b') ?_ (by decide)
        repeat apply head?_append
        rfl
      · exact evalLets_knowsNames hcall lets hlets (hbinds.bindAll (not_not.mp hlength))
          fun inner hinner => evalExpr_knowsNames hcall ret hret hinner
  | .binOp left op right, _, _, h, hbinds => by
      simp only [evalExpr]
      refine (evalExpr_knowsNames hcall left h.1 hbinds).bind fun _ => ?_
      refine (evalExpr_knowsNames hcall right h.2 hbinds).bind fun _ => ?_
      exact .ofExcept fun message hmessage => evalBinOp_text hmessage
  | .unaryOp op operand, _, _, h, hbinds => by
      simp only [evalExpr]
      refine (evalExpr_knowsNames hcall operand h hbinds).bind fun _ => ?_
      exact .ofExcept fun message hmessage => evalUnaryOp_text hmessage
  | .hashLit entries, _, _, h, hbinds => by
      simp only [evalExpr]
      exact (evalEntries_knowsNames hcall entries h hbinds).bind fun _ => .ok _
  | .arrayLit items, _, _, h, hbinds => by
      simp only [evalExpr]
      exact (KnowsNames.collect (evalArgs_knowsNames hcall items h hbinds)).bind fun _ => .ok _
  | .propertyAccess base path, _, _, h, hbinds => by
      simp only [evalExpr]
      refine (evalExpr_knowsNames hcall base h hbinds).bind fun _ => ?_
      exact .ofExcept fun message hmessage => accessPath_text hmessage
  | .switchExpr scrutinee arms, _, _, h, hbinds => by
      simp only [evalExpr]
      exact (evalExpr_knowsNames hcall scrutinee h.1 hbinds).bind
        fun target => evalArms_knowsNames hcall target arms h.2 hbinds

theorem evalArgs_knowsNames (hcall : CallsKnowNames callable call) :
    ∀ (args : List Expr) {known : Set String} {scope : LocalScope},
    ResolvesArgs callable known args → Binds scope known →
      ∀ x ∈ evalArgs rt event call scope args, KnowsNames x
  | [], _, _, _, _ => by
      simp only [evalArgs]
      exact fun x hx => absurd hx List.not_mem_nil
  | e :: rest, _, _, h, hbinds => by
      simp only [evalArgs]
      exact List.forall_mem_cons.mpr
        ⟨evalExpr_knowsNames hcall e h.1 hbinds, evalArgs_knowsNames hcall rest h.2 hbinds⟩

theorem evalFragments_knowsNames (hcall : CallsKnowNames callable call) :
    ∀ (fragments : List TemplateFragment) {known : Set String}
    {scope : LocalScope}, ResolvesFragments callable known fragments → Binds scope known →
      KnowsNames (evalFragments rt event call scope fragments)
  | [], _, _, _, _ => by
      simp only [evalFragments]
      exact .ok _
  | .literal _ :: rest, _, _, h, hbinds => by
      simp only [evalFragments]
      exact (evalFragments_knowsNames hcall rest h hbinds).bind fun _ => .ok _
  | .interp e :: rest, _, _, h, hbinds => by
      simp only [evalFragments]
      refine (evalExpr_knowsNames hcall e h.1 hbinds).bind fun value => ?_
      split
      · exact .bail (not_isNameError (c := 'c') rfl (by decide))
      · exact (evalFragments_knowsNames hcall rest h.2 hbinds).bind fun _ => .ok _

theorem evalEntries_knowsNames (hcall : CallsKnowNames callable call) :
    ∀ (entries : List (String × Expr)) {known : Set String}
    {scope : LocalScope}, ResolvesEntries callable known entries → Binds scope known →
      KnowsNames (evalEntries rt event call scope entries)
  | [], _, _, _, _ => by
      simp only [evalEntries]
      exact .ok _
  | (_, e) :: rest, _, _, h, hbinds => by
      simp only [evalEntries]
      refine (evalExpr_knowsNames hcall e h.1 hbinds).bind fun _ => ?_
      exact (evalEntries_knowsNames hcall rest h.2 hbinds).bind fun _ => .ok _

theorem evalArms_knowsNames (hcall : CallsKnowNames callable call) (target : Value) :
    ∀ (arms : List (Option Expr × Expr)) {known : Set String} {scope : LocalScope},
      ResolvesArms callable known arms → Binds scope known →
        KnowsNames (evalArms rt event call scope target arms)
  | [], _, _, _, _ => by
      simp only [evalArms]
      exact .ok _
  | (none, body) :: _, _, _, h, hbinds => by
      simp only [evalArms]
      exact evalExpr_knowsNames hcall body h.1 hbinds
  | (some pattern, body) :: rest, _, _, h, hbinds => by
      obtain ⟨hpattern, hbody, hrest⟩ := h
      simp only [evalArms]
      refine (evalExpr_knowsNames hcall pattern hpattern hbinds).bind fun _ => ?_
      exact .ite (fun _ => evalExpr_knowsNames hcall body hbody hbinds)
        fun _ => evalArms_knowsNames hcall target rest hrest hbinds

/-- `let` bindings, and what follows them in a scope in which they are bound as well. -/
theorem evalLets_knowsNames (hcall : CallsKnowNames callable call) {α : Type}
    {k : LocalScope → Eval World α} :
    ∀ (lets : List (String × Expr)) {known : Set String} {scope : LocalScope},
      ResolvesLets callable known lets → Binds scope known →
        (∀ inner, Binds inner ({name | name ∈ lets.map Prod.fst} ∪ known) → KnowsNames (k inner)) →
          KnowsNames (evalLets rt event call scope lets >>= k)
  | [], known, scope, _, hbinds, hk => by
      simp only [evalLets]
      refine hk scope (hbinds.mono ?_)
      rintro name (hname | hname)
      · exact absurd hname List.not_mem_nil
      · exact hname
  | (name, e) :: rest, known, scope, h, hbinds, hk => by
      simp only [evalLets]
      rw [Eval.bind_assoc]
      refine (evalExpr_knowsNames hcall e h.1 hbinds).bind fun value => ?_
      refine evalLets_knowsNames hcall rest h.2 (hbinds.bind name value) fun inner hinner => ?_
      refine hk inner (hinner.mono ?_)
      rintro other (hother | hother)
      · rcases List.mem_cons.mp hother with rfl | hother
        · exact .inr (.inl rfl)
        · exact .inl hother
      · exact .inr (.inr hother)

end

end Expressions

end Limpid.Check
