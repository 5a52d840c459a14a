import Mathlib.Order.Lattice
import Mathlib.Order.Nat
import Limpid.Dsl.Eval

/-!
# Computations that come to the same end

A family of computations `X k depth` concludes when from every state of the invariant all members
at sufficient depth end in one and the same way, whatever `k` is, in a state of the invariant.
The index `k` stands for a part of the computation that must not matter: if what is left out there
is what happens at places that should not be reached, a family that concludes does not reach them.
-/

namespace Limpid.Dsl

open Eval

variable {κ : Type*} {S α β : Type}

/-- One result for all `k`, at every sufficient depth. -/
def Concludes (inv : S → Prop) (X : κ → ℕ → Eval S α) : Prop :=
  ∀ s, inv s → ∃ outcome t bound, inv t ∧ ∀ depth, bound ≤ depth → ∀ k,
    X k depth s = some (outcome, t)

namespace Concludes

variable {inv : S → Prop}

theorem ok (a : α) : Concludes inv (fun (_ : κ) _ => Eval.ok a) := fun s hs =>
  ⟨.ok a, s, 0, hs, fun _ _ _ => rfl⟩

theorem bail (message : String) : Concludes inv (fun (_ : κ) _ => (Eval.bail message : Eval S α)) :=
  fun s hs => ⟨.error message, s, 0, hs, fun _ _ _ => rfl⟩

theorem ofExcept (x : Except String α) : Concludes inv (fun (_ : κ) _ => Eval.ofExcept x) := by
  cases x with
  | ok a => exact .ok a
  | error message => exact .bail message

/-- Only what members at sufficient depth do matters. -/
theorem congr {X Y : κ → ℕ → Eval S α} (bound : ℕ)
    (hsame : ∀ s, inv s → ∀ depth, bound ≤ depth → ∀ k, Y k depth s = X k depth s)
    (h : Concludes inv X) : Concludes inv Y := by
  intro s hs
  obtain ⟨outcome, t, least, ht, hX⟩ := h s hs
  refine ⟨outcome, t, max bound least, ht, fun depth hdepth k => ?_⟩
  rw [hsame s hs depth (le_trans (le_max_left _ _) hdepth) k]
  exact hX depth (le_trans (le_max_right _ _) hdepth) k

/-- The members one level down. -/
theorem pred {X : κ → ℕ → Eval S α} (h : Concludes inv X) :
    Concludes inv (fun k depth => X k (depth - 1)) := by
  intro s hs
  obtain ⟨outcome, t, bound, ht, hX⟩ := h s hs
  exact ⟨outcome, t, bound + 1, ht, fun depth hdepth k => hX _ (Nat.le_sub_of_add_le hdepth) k⟩

theorem bind {X : κ → ℕ → Eval S α} {F : κ → ℕ → α → Eval S β} (hX : Concludes inv X)
    (hF : ∀ a, Concludes inv (fun k depth => F k depth a)) :
    Concludes inv (fun k depth => X k depth >>= F k depth) := by
  intro s hs
  obtain ⟨outcome, t, bound, ht, hfirst⟩ := hX s hs
  cases outcome with
  | error message =>
      refine ⟨.error message, t, bound, ht, fun depth hdepth k => ?_⟩
      change Eval.bind _ _ s = _
      rw [Eval.bind, hfirst depth hdepth k]
  | ok a =>
      obtain ⟨outcome, u, least, hu, hrest⟩ := hF a t ht
      refine ⟨outcome, u, max bound least, hu, fun depth hdepth k => ?_⟩
      change Eval.bind _ _ s = _
      rw [Eval.bind, hfirst depth (le_trans (le_max_left _ _) hdepth) k]
      exact hrest depth (le_trans (le_max_right _ _) hdepth) k

end Concludes

end Limpid.Dsl
