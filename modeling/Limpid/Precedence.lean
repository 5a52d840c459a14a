import Mathlib.Data.List.Basic
import Mathlib.Data.List.MinMax

/-!
# Operators by precedence

A sequence of operands with operators between them is folded into one term: it is split at the
rightmost operator of the least precedence, and the two sides are folded in turn (`fold`).  What
comes of it is a tree (`Tree`) over the operands, whichever terms a node makes:

* the tree has the operands and the operators of the sequence, in their order;
* no operator left of a node has less precedence, and each one right of it has more (`Ordered`).

In such a tree an operand stands under one of the operators next to it, and under that one of the
two that has more precedence (`Tree.children_subset`, `Tree.exists_child`).
-/

namespace Limpid.Precedence

variable {α β γ : Type}

/-! ## Folding -/

/-- The last place where a predicate holds. -/
def rposition (p : β → Bool) : List β → Option ℕ
  | [] => none
  | operator :: rest =>
    match rposition p rest with
    | some place => some (place + 1)
    | none => if p operator then some 0 else none

/-- The place of the rightmost operator of the least precedence. -/
def splitPlace (prec : β → ℕ) (operators : List β) : Option ℕ := do
  let least ← (operators.map prec).min?
  rposition (prec · = least) operators

theorem rposition_lt {p : β → Bool} {operators : List β} {place : ℕ}
    (h : rposition p operators = some place) : place < operators.length := by
  induction operators generalizing place with
  | nil => exact nomatch h
  | cons operator rest ih =>
      rw [rposition] at h
      cases hrest : rposition p rest with
      | some before =>
          rw [hrest] at h
          obtain rfl := Option.some.inj h
          exact Nat.succ_lt_succ (ih hrest)
      | none =>
          rw [hrest] at h
          dsimp only at h
          split at h
          · obtain rfl := Option.some.inj h
            exact Nat.succ_pos _
          · exact nomatch h

theorem splitPlace_lt {prec : β → ℕ} {operators : List β} {place : ℕ}
    (h : splitPlace prec operators = some place) : place < operators.length := by
  rw [splitPlace, Option.bind_eq_bind, Option.bind_eq_some_iff] at h
  obtain ⟨least, -, h⟩ := h
  exact rposition_lt h

/-- Fold operands by the precedence of the operators between them. -/
def fold (node : α → β → α → α) (prec : β → ℕ) (operands : List α) (operators : List β) :
    Except String α :=
  match operands with
  | [operand] => .ok operand
  | operands =>
    match h : splitPlace prec operators with
    | none => .error s!"malformed expression: no operators for {operands.length} operands"
    | some place =>
      let operator := operators.get ⟨place, splitPlace_lt h⟩
      do
        let left ← fold node prec (operands.take (place + 1)) (operators.take place)
        let right ← fold node prec (operands.drop (place + 1)) (operators.drop (place + 1))
        return node left operator right
termination_by operators.length
decreasing_by
  · have hlt := splitPlace_lt h
    rw [List.length_take]
    omega
  · have hlt := splitPlace_lt h
    rw [List.length_drop]
    omega

/-! ## The split -/

theorem rposition_append {p : β → Bool} {before after : List β} {operator : β}
    (hp : p operator = true) (hafter : ∀ other ∈ after, p other = false) :
    rposition p (before ++ operator :: after) = some before.length := by
  have hnone : ∀ others : List β, (∀ other ∈ others, p other = false) →
      rposition p others = none := by
    intro others h
    induction others with
    | nil => rfl
    | cons first rest ih =>
        obtain ⟨hfirst, hrest⟩ := List.forall_mem_cons.mp h
        rw [rposition, ih hrest, hfirst]
        rfl
  induction before with
  | nil => rw [List.nil_append, rposition, hnone after hafter, hp]; rfl
  | cons first rest ih => rw [List.cons_append, rposition, ih]; rfl

/-- An operator with none of less precedence to its left, and none but of more to its right. -/
theorem splitPlace_append {prec : β → ℕ} {before after : List β} {operator : β}
    (hbefore : ∀ other ∈ before, prec operator ≤ prec other)
    (hafter : ∀ other ∈ after, prec operator < prec other) :
    splitPlace prec (before ++ operator :: after) = some before.length := by
  have hleast : ((before ++ operator :: after).map prec).min? = some (prec operator) := by
    refine List.min?_eq_some_iff.mpr ⟨List.mem_map_of_mem (by simp), ?_⟩
    refine List.forall_mem_map.mpr (List.forall_mem_append.mpr ⟨hbefore, ?_⟩)
    exact List.forall_mem_cons.mpr ⟨Nat.le_refl _, fun other hother =>
      Nat.le_of_lt (hafter other hother)⟩
  rw [splitPlace, hleast]
  refine rposition_append (decide_eq_true rfl) fun other hother => decide_eq_false ?_
  exact ne_of_gt (hafter other hother)

/-- Where a sequence is split. -/
structure Split (prec : β → ℕ) (before : List (β × α)) (operator : β) (after : List (β × α)) :
    Prop where
  before : ∀ other ∈ before, prec operator ≤ prec other.1
  after : ∀ other ∈ after, prec operator < prec other.1

theorem exists_split (prec : β → ℕ) {rest : List (β × α)} (h : rest ≠ []) :
    ∃ before operator operand after, rest = before ++ (operator, operand) :: after ∧
      Split prec before operator after := by
  induction rest with
  | nil => exact absurd rfl h
  | cons first others ih =>
      by_cases hothers : others = []
      · rw [hothers]
        exact ⟨[], first.1, first.2, [], rfl, ⟨by simp, by simp⟩⟩
      · obtain ⟨before, operator, operand, after, rfl, hsplit⟩ := ih hothers
        by_cases hlt : prec first.1 < prec operator
        · refine ⟨[], first.1, first.2, _, rfl, by simp, ?_⟩
          refine List.forall_mem_append.mpr ⟨fun other hother =>
            Nat.lt_of_lt_of_le hlt (hsplit.before other hother), List.forall_mem_cons.mpr
              ⟨hlt, fun other hother => Nat.lt_trans hlt (hsplit.after other hother)⟩⟩
        · exact ⟨first :: before, operator, operand, after, rfl,
            List.forall_mem_cons.mpr ⟨Nat.le_of_not_lt hlt, hsplit.before⟩, hsplit.after⟩

/-- **The sides of a split are folded in turn.** -/
theorem fold_split (node : α → β → α → α) {prec : β → ℕ} (first : α) {before : List (β × α)}
    {operator : β} (operand : α) {after : List (β × α)} (h : Split prec before operator after) :
    fold node prec (first :: (before ++ (operator, operand) :: after).map Prod.snd)
        ((before ++ (operator, operand) :: after).map Prod.fst) = (do
      let left ← fold node prec (first :: before.map Prod.snd) (before.map Prod.fst)
      let right ← fold node prec (operand :: after.map Prod.snd) (after.map Prod.fst)
      return node left operator right) := by
  have hplace : splitPlace prec ((before ++ (operator, operand) :: after).map Prod.fst) =
      some before.length := by
    rw [List.map_append, List.map_cons, splitPlace_append (List.forall_mem_map.mpr h.before)
      (List.forall_mem_map.mpr h.after), List.length_map]
  rw [fold.eq_def]
  split
  · next heq =>
    have hlength := congrArg List.length heq
    simp at hlength
  · split
    · next hnone => exact nomatch hnone.symm.trans hplace
    · next place hsome =>
      obtain rfl : before.length = place := Option.some.inj (hplace.symm.trans hsome)
      have hdrop : (before.map Prod.fst).drop (before.length + 1) = [] :=
        List.drop_eq_nil_of_le (by simp)
      simp [List.drop_append, hdrop]

/-! ## Trees -/

/-- Operands of type `α` under binary operators of type `β`. -/
inductive Tree (α β : Type) where
  | leaf (operand : α)
  | node (left : Tree α β) (operator : β) (right : Tree α β)

namespace Tree

/-- What the tree stands for, when the operands stand for something. -/
def eval (operand : γ → α) (make : α → β → α → α) : Tree γ β → α
  | leaf item => operand item
  | node left operator right => make (left.eval operand make) operator (right.eval operand make)

/-- The leftmost operand. -/
def first : Tree α β → α
  | leaf operand => operand
  | node left _ _ => left.first

/-- The operands after the first, each with the operator before it. -/
def rest : Tree α β → List (β × α)
  | leaf _ => []
  | node left operator right => left.rest ++ (operator, right.first) :: right.rest

/-- The last operand of a sequence. -/
def lastOf (first : α) (rest : List (β × α)) : α := (rest.getLast?.map Prod.snd).getD first

/-- The operands of a side, each with the operator above it. -/
def under (above : β) : Tree α β → List (β × α)
  | leaf operand => [(above, operand)]
  | node left operator right => left.under operator ++ right.under operator

/-- Each operand with the operator that it is a side of. -/
def children : Tree α β → List (β × α)
  | leaf _ => []
  | node left operator right => left.under operator ++ right.under operator

end Tree

/-- Each operator with the operands on both sides of it. -/
def adjacent : α → List (β × α) → List (β × α)
  | _, [] => []
  | first, (operator, operand) :: rest =>
    (operator, first) :: (operator, operand) :: adjacent operand rest

/-- The order of the precedences in a tree. -/
def Ordered (prec : β → ℕ) : Tree α β → Prop
  | .leaf _ => True
  | .node left operator right =>
    Split prec left.rest operator right.rest ∧ Ordered prec left ∧ Ordered prec right

/-- **What is folded.** -/
theorem exists_tree (operand : γ → α) (make : α → β → α → α) (prec : β → ℕ) (first : γ)
    (rest : List (β × γ)) : ∃ tree : Tree γ β,
      fold make prec (operand first :: rest.map fun entry => operand entry.2) (rest.map Prod.fst) =
        .ok (tree.eval operand make) ∧ tree.first = first ∧ tree.rest = rest ∧
          Ordered prec tree := by
  induction hlength : rest.length using Nat.strong_induction_on generalizing first rest with
  | _ n ih =>
      by_cases hrest : rest = []
      · rw [hrest]
        exact ⟨.leaf first, by rw [List.map_nil, fold]; rfl, rfl, rfl, trivial⟩
      · obtain ⟨before, operator, item, after, rfl, hsplit⟩ := exists_split prec hrest
        rw [List.length_append, List.length_cons] at hlength
        obtain ⟨left, hleft, rfl, rfl, hleftOrdered⟩ := ih _ (by omega) first before rfl
        obtain ⟨right, hright, rfl, rfl, hrightOrdered⟩ := ih _ (by omega) item after rfl
        refine ⟨.node left operator right, ?_, rfl, rfl, hsplit, hleftOrdered, hrightOrdered⟩
        have hmapped : Split prec (left.rest.map fun entry => (entry.1, operand entry.2)) operator
            (right.rest.map fun entry => (entry.1, operand entry.2)) :=
          ⟨List.forall_mem_map.mpr hsplit.before, List.forall_mem_map.mpr hsplit.after⟩
        have hfold := fold_split make (operand left.first) (operand right.first) hmapped
        simp only [List.map_append, List.map_cons, List.map_map, Function.comp_def] at hfold
        rw [List.map_append, List.map_append, List.map_cons, List.map_cons]
        exact hfold.trans (by rw [hleft, hright]; rfl)

/-! ## Operands and their operators -/

section Children

variable {prec : β → ℕ}

theorem lastOf_cons (first : α) (entry : β × α) (rest : List (β × α)) :
    Tree.lastOf first (entry :: rest) = Tree.lastOf entry.2 rest := by
  cases rest with
  | nil => rfl
  | cons second others =>
      rw [Tree.lastOf, Tree.lastOf, List.getLast?_cons_cons, List.getLast?_cons]
      rfl

theorem adjacent_append (first : α) (before : List (β × α)) (operator : β) (operand : α)
    (after : List (β × α)) : adjacent first (before ++ (operator, operand) :: after) =
      adjacent first before ++ (operator, Tree.lastOf first before) :: (operator, operand) ::
        adjacent operand after := by
  induction before generalizing first with
  | nil => rfl
  | cons entry rest ih =>
      rw [List.cons_append, adjacent, ih, lastOf_cons]
      rfl

/-- An operand stands under an operator that it is next to. -/
theorem Tree.children_subset {tree : Tree α β} :
    ∀ child ∈ tree.children, child ∈ adjacent tree.first tree.rest := by
  induction tree with
  | leaf operand => exact fun child hchild => absurd hchild List.not_mem_nil
  | node left operator right ihLeft ihRight =>
      intro child hchild
      rw [Tree.first, Tree.rest, adjacent_append]
      rcases List.mem_append.mp hchild with hmem | hmem
      · cases left with
        | leaf operand =>
            rw [List.mem_singleton.mp hmem]
            exact List.mem_append_right _ List.mem_cons_self
        | node => exact List.mem_append_left _ (ihLeft child hmem)
      · refine List.mem_append_right _ (List.mem_cons_of_mem _ ?_)
        cases right with
        | leaf operand =>
            rw [List.mem_singleton.mp hmem]
            exact List.mem_cons_self
        | node => exact List.mem_cons_of_mem _ (ihRight child hmem)

/-- The last operand is next to the last operator. -/
theorem adjacent_last {first : α} {rest : List (β × α)} (h : rest ≠ []) :
    ∃ operator, (operator, Tree.lastOf first rest) ∈ adjacent first rest ∧
      operator ∈ rest.map Prod.fst := by
  induction rest generalizing first with
  | nil => exact absurd rfl h
  | cons entry others ih =>
      by_cases hothers : others = []
      · exact ⟨entry.1, by simp [hothers, adjacent, Tree.lastOf], List.mem_cons_self⟩
      · obtain ⟨operator, hmem, hin⟩ := @ih entry.2 hothers
        rw [lastOf_cons]
        exact ⟨operator, List.mem_cons_of_mem _ (List.mem_cons_of_mem _ hmem),
          List.mem_cons_of_mem _ hin⟩

/-- The first operand is next to the first operator. -/
theorem adjacent_first {first : α} {rest : List (β × α)} (h : rest ≠ []) :
    ∃ operator, (operator, first) ∈ adjacent first rest ∧ operator ∈ rest.map Prod.fst := by
  cases rest with
  | nil => exact absurd rfl h
  | cons entry others => exact ⟨entry.1, List.mem_cons_self, List.mem_cons_self⟩

theorem Tree.rest_ne_nil (left : Tree α β) (operator : β) (right : Tree α β) :
    (Tree.node left operator right).rest ≠ [] := by simp [Tree.rest]

/-- **An operand stands under the stronger one of the operators next to it.** -/
theorem Tree.exists_child {tree : Tree α β} (h : Ordered prec tree) :
    ∀ entry ∈ adjacent tree.first tree.rest, ∃ operator,
      (operator, entry.2) ∈ tree.children ∧ prec entry.1 ≤ prec operator := by
  induction tree with
  | leaf operand => exact fun entry hentry => absurd hentry List.not_mem_nil
  | node left operator right ihLeft ihRight =>
      obtain ⟨hsplit, hleft, hright⟩ := h
      have hleftChild : ∀ child ∈ left.children,
          child ∈ (Tree.node left operator right).children := by
        intro child hchild
        cases left with
        | leaf operand => exact absurd hchild List.not_mem_nil
        | node => exact List.mem_append_left _ hchild
      have hrightChild : ∀ child ∈ right.children,
          child ∈ (Tree.node left operator right).children := by
        intro child hchild
        cases right with
        | leaf operand => exact absurd hchild List.not_mem_nil
        | node => exact List.mem_append_right _ hchild
      intro entry hentry
      rw [Tree.first, Tree.rest, adjacent_append] at hentry
      rcases List.mem_append.mp hentry with hmem | hmem
      · obtain ⟨other, hother, hle⟩ := ihLeft hleft entry hmem
        exact ⟨other, hleftChild _ hother, hle⟩
      · rcases List.mem_cons.mp hmem with rfl | hmem
        · -- the last operand of the left side, next to the operator
          cases hcase : left with
          | leaf operand =>
            exact ⟨operator, by simp [Tree.children, Tree.under, Tree.lastOf, Tree.first,
              Tree.rest], Nat.le_refl _⟩
          | node =>
              have hne : left.rest ≠ [] := hcase ▸ Tree.rest_ne_nil _ _ _
              obtain ⟨near, hnear, hin⟩ := adjacent_last hne
              obtain ⟨other, hother, hle⟩ := ihLeft hleft _ hnear
              obtain ⟨pair, hpair, rfl⟩ := List.mem_map.mp hin
              rw [← hcase]
              exact ⟨other, hleftChild _ hother, Nat.le_trans (hsplit.before pair hpair) hle⟩
        · rcases List.mem_cons.mp hmem with rfl | hmem
          · -- the first operand of the right side
            cases hcase : right with
            | leaf operand =>
              exact ⟨operator, by simp [Tree.children, Tree.under, Tree.first], Nat.le_refl _⟩
            | node =>
                have hne : right.rest ≠ [] := hcase ▸ Tree.rest_ne_nil _ _ _
                obtain ⟨near, hnear, hin⟩ := adjacent_first hne
                obtain ⟨other, hother, hle⟩ := ihRight hright _ hnear
                obtain ⟨pair, hpair, rfl⟩ := List.mem_map.mp hin
                rw [← hcase]
                exact ⟨other, hrightChild _ hother,
                  Nat.le_trans (Nat.le_of_lt (hsplit.after pair hpair)) hle⟩
          · obtain ⟨other, hother, hle⟩ := ihRight hright entry hmem
            exact ⟨other, hrightChild _ hother, hle⟩

end Children

end Limpid.Precedence
