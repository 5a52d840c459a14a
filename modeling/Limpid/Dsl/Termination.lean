import Mathlib.Order.Basic
import Limpid.Dsl.Rel

/-!
# When calls return

A call nested too deep has no result; a larger bound on the depth keeps every result there is
(`call_mono`).  So a call `Returns` when it has a result at some depth, and that result is the
one at every greater depth.

A function whose calls cannot go on for ever returns (`returns_of_acc`): along the relation
`CalledBy` each function needs one level more than those it calls, whatever its arguments, the
event and the world are.
-/

namespace Limpid.Dsl.FunctionRegistry

variable {World : Type} {rt : Runtime} {registry : FunctionRegistry World}

/-- `f` is a user function with a call of the user function `g` in its body: inside the block of
another call, or not. -/
def CalledIn (registry : FunctionRegistry World) (inBlock : Bool) (g f : String) : Prop :=
  ∃ fnDef, registry.userDefinitions f = some fnDef ∧
    (inBlock, (none, g)) ∈ fnDef.callSites ∧ (registry.userDefinitions g).isSome

/-- The body of one function calls the other. -/
def CalledBy (registry : FunctionRegistry World) (g f : String) : Prop :=
  registry.CalledIn false g f ∨ registry.CalledIn true g f

/-- A call has a result, the same at every sufficient depth. -/
def Returns (rt : Runtime) (registry : FunctionRegistry World) (name : String)
    (args : List Value) (event : BorrowedEvent) (world : World) : Prop :=
  ∃ depth result, ∀ deeper, depth ≤ deeper →
    call rt registry event deeper none name args world = some result

theorem callBuiltin_terminates (event : BorrowedEvent) (ns : Option String) (name : String)
    (args : List Value) : Terminates (callBuiltin registry event ns name args) := by
  intro world
  unfold callBuiltin
  cases registry.functions (ns, name) with
  | none =>
      cases ns with
      | none => simp [Eval.bail]
      | some ns =>
          dsimp only
          split <;> simp [Eval.bail]
  | some f =>
      cases registry.signatures (ns, name) with
      | none => simp
      | some sig =>
          simp only [Option.map_some]
          cases validateArity ns name sig args.length <;> simp [Eval.bail]

/-- A call of a user function. -/
theorem call_user {fnDef : FunctionDef} {name : String}
    (hname : registry.userDefinitions name = some fnDef) (event : BorrowedEvent) (depth : ℕ)
    (args : List Value) :
    call rt registry event (depth + 1) none name args =
      callUserFunction rt event (call rt registry event depth) fnDef args := by
  rw [call.eq_def]
  simp only [hname]

/-- Any other call is one of a built-in function. -/
theorem call_builtin {ns : Option String} {name : String}
    (hname : ns ≠ none ∨ registry.userDefinitions name = none) (event : BorrowedEvent)
    (depth : ℕ) (args : List Value) :
    call rt registry event depth ns name args = callBuiltin registry event ns name args := by
  rw [call.eq_def]
  rcases hname with hns | hnone
  · obtain ⟨ns, rfl⟩ := Option.ne_none_iff_exists'.mp hns
    rfl
  · simp only [hnone]

/-- A call is of a user function or of a built-in one. -/
theorem user_or_builtin (registry : FunctionRegistry World) (ns : Option String) (name : String) :
    (ns = none ∧ ∃ fnDef, registry.userDefinitions name = some fnDef) ∨
      (ns ≠ none ∨ registry.userDefinitions name = none) := by
  cases ns with
  | some ns => exact Or.inr (Or.inl (by simp))
  | none =>
      cases hname : registry.userDefinitions name with
      | none => exact Or.inr (Or.inr rfl)
      | some fnDef => exact Or.inl ⟨rfl, fnDef, rfl⟩

/-- More depth keeps every result. -/
theorem call_mono (event : BorrowedEvent) {depth deeper : ℕ} (hdepth : depth ≤ deeper)
    (ns : Option String) (name : String) (args : List Value) :
    Le (call rt registry event depth ns name args)
      (call rt registry event deeper ns name args) := by
  induction depth generalizing deeper ns name args with
  | zero =>
      rcases user_or_builtin registry ns name with ⟨rfl, fnDef, hname⟩ | hbuiltin
      · intro world result h
        rw [call.eq_def] at h
        simp only [hname] at h
        exact absurd h (by simp [Eval.diverge])
      · rw [call_builtin hbuiltin, call_builtin hbuiltin]
        exact fun world result h => h
  | succ depth ih =>
      obtain ⟨deeper, rfl⟩ : ∃ n, deeper = n + 1 := ⟨deeper - 1, by omega⟩
      rcases user_or_builtin registry ns name with ⟨rfl, fnDef, hname⟩ | hbuiltin
      · rw [call_user hname, call_user hname]
        exact callUserFunction_rel congruence_le
          (fun site _ args => ih (Nat.le_of_succ_le_succ hdepth) site.2.1 site.2.2 args) args
      · rw [call_builtin hbuiltin, call_builtin hbuiltin]
        exact fun world result h => h

/-- A bound for each element of a list is a bound for all. -/
theorem exists_bound {α : Type} {P : α → ℕ → Prop} (items : List α)
    (h : ∀ a ∈ items, ∃ n, ∀ m, n ≤ m → P a m) : ∃ n, ∀ m, n ≤ m → ∀ a ∈ items, P a m := by
  induction items with
  | nil => exact ⟨0, fun m _ a ha => absurd ha List.not_mem_nil⟩
  | cons a rest ih =>
      obtain ⟨n, hn⟩ := h a List.mem_cons_self
      obtain ⟨k, hk⟩ := ih fun b hb => h b (List.mem_cons_of_mem _ hb)
      refine ⟨max n k, fun m hm b hb => ?_⟩
      rcases List.mem_cons.mp hb with rfl | hb
      · exact hn m (le_trans (le_max_left _ _) hm)
      · exact hk m (le_trans (le_max_right _ _) hm) b hb

variable (rt) in
/-- A function whose calls are well founded terminates at every sufficient depth. -/
theorem terminates_of_acc {name : String} (h : Acc (CalledBy registry) name) :
    ∃ depth, ∀ deeper, depth ≤ deeper → ∀ event args,
      Terminates (call rt registry event deeper none name args) := by
  induction h with
  | intro name _ ih =>
      cases hname : registry.userDefinitions name with
      | none =>
          refine ⟨0, fun deeper _ event args => ?_⟩
          rw [call_builtin (Or.inr hname)]
          exact callBuiltin_terminates event none name args
      | some fnDef =>
          have hsites : ∀ site ∈ fnDef.callSites, ∃ depth, ∀ deeper, depth ≤ deeper →
              ∀ event args, Terminates (call rt registry event deeper site.2.1 site.2.2 args) := by
            rintro ⟨inBlock, ns, callee⟩ hsite
            rcases user_or_builtin registry ns callee with ⟨rfl, calleeDef, hcallee⟩ | hbuiltin
            · have hcalled : registry.CalledIn inBlock callee name :=
                ⟨fnDef, hname, hsite, by rw [hcallee]; rfl⟩
              cases inBlock with
              | false => exact ih callee (Or.inl hcalled)
              | true => exact ih callee (Or.inr hcalled)
            · refine ⟨0, fun deeper _ event args => ?_⟩
              rw [call_builtin hbuiltin]
              exact callBuiltin_terminates event ns callee args
          -- one bound for all call sites of the body
          obtain ⟨depth, hdepth⟩ := exists_bound fnDef.callSites hsites
          refine ⟨depth + 1, fun deeper hdeeper event args => ?_⟩
          obtain ⟨deeper, rfl⟩ : ∃ n, deeper = n + 1 := ⟨deeper - 1, by omega⟩
          rw [call_user hname]
          have hrelated : RelatedAt (fun x _ => Terminates x) (call rt registry event deeper)
              (call rt registry event deeper) fnDef.callSites := fun site hsite args =>
            hdepth deeper (Nat.le_of_succ_le_succ hdeeper) site hsite event args
          exact callUserFunction_rel congruence_terminates hrelated args

variable (rt) in
/-- **Well-founded calls return.** -/
theorem returns_of_acc {name : String} (h : Acc (CalledBy registry) name) (args : List Value)
    (event : BorrowedEvent) (world : World) : Returns rt registry name args event world := by
  obtain ⟨depth, hdepth⟩ := terminates_of_acc rt h
  obtain ⟨result, hresult⟩ :=
    Option.ne_none_iff_exists'.mp (hdepth depth le_rfl event args world)
  exact ⟨depth, result, fun deeper hdeeper =>
    call_mono event hdeeper none name args world result hresult⟩

end Limpid.Dsl.FunctionRegistry
