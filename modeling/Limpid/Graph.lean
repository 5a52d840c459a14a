import Mathlib.Logic.Relation
import Mathlib.Order.WellFoundedSet

/-!
# Cycles of a relation

A relation has no cycle if none of its non-empty paths comes back to its start.  On finitely many
elements such a relation is well founded; and a cycle of a union of two relations is a cycle of
the first one, or goes through an edge of the second.  `Chain` are the paths with their length.
-/

namespace Limpid

open Relation

variable {α : Type*} {r s : α → α → Prop}

/-- No path of at least one step leads back to where it began. -/
def Acyclic (r : α → α → Prop) : Prop := ∀ a, ¬ TransGen r a a

theorem Acyclic.of_wellFounded (h : WellFounded r) : Acyclic r := fun a ha =>
  have : IsWellFounded α (TransGen r) := ⟨h.transGen⟩
  irrefl_of (TransGen r) a ha

theorem Acyclic.mono (h : Acyclic s) (hrs : ∀ a b, r a b → s a b) : Acyclic r :=
  fun a ha => h a (TransGen.mono hrs _ _ ha)

/-- An acyclic relation between finitely many elements is well founded. -/
theorem Acyclic.wellFounded (h : Acyclic r) {support : Set α} (hfinite : support.Finite)
    (hsupport : ∀ {a b}, r a b → a ∈ support ∧ b ∈ support) : WellFounded r := by
  have : IsStrictOrder α (TransGen r) :=
    { irrefl := h, trans := fun _ _ _ => TransGen.trans }
  have hwf := Set.wellFoundedOn_iff.mp (hfinite.wellFoundedOn (r := TransGen r))
  exact Subrelation.wf (fun hab => ⟨TransGen.single hab, hsupport hab⟩) hwf

/-- A path of a union stays in the first relation or takes an edge of the second one. -/
theorem transGen_or {a b : α} (h : TransGen (fun x y => r x y ∨ s x y) a b) :
    TransGen r a b ∨ ∃ x y, ReflTransGen (fun x y => r x y ∨ s x y) a x ∧ s x y ∧
      ReflTransGen (fun x y => r x y ∨ s x y) y b := by
  induction h with
  | single hab =>
      rcases hab with hr | hs
      · exact Or.inl (TransGen.single hr)
      · exact Or.inr ⟨_, _, ReflTransGen.refl, hs, ReflTransGen.refl⟩
  | tail hpath hbc ih =>
      rcases ih with hr | ⟨x, y, hax, hxy, hyb⟩
      · rcases hbc with hbc | hbc
        · exact Or.inl (hr.tail hbc)
        · exact Or.inr ⟨_, _, hpath.to_reflTransGen, hbc, ReflTransGen.refl⟩
      · exact Or.inr ⟨x, y, hax, hxy, hyb.tail hbc⟩

/-- **Cycles of a union.**  If the first relation is acyclic and no edge of the second one can be
closed to a cycle, the union is acyclic. -/
theorem Acyclic.or (hr : Acyclic r)
    (hs : ∀ x y, s x y → ¬ ReflTransGen (fun x y => r x y ∨ s x y) y x) :
    Acyclic fun x y => r x y ∨ s x y := by
  intro a ha
  rcases transGen_or ha with hra | ⟨x, y, hax, hxy, hya⟩
  · exact hr a hra
  · exact hs x y hxy (hya.trans hax)

/-- No cycle goes through an element from which every path ends. -/
theorem not_transGen_of_acc {a : α} (h : Acc (fun b a => r a b) a) : ¬ TransGen r a a := by
  induction h.transGen with
  | intro a _ ih =>
      intro hcycle
      have hback : TransGen (fun b a => r a b) a a := transGen_swap.mpr hcycle
      exact ih a hback (h.inv_of_transGen hback) hcycle

/-- A path of `n` steps. -/
inductive Chain (r : α → α → Prop) : ℕ → α → α → Prop where
  | refl (a : α) : Chain r 0 a a
  | head {n : ℕ} {a b c : α} : r a b → Chain r n b c → Chain r (n + 1) a c

theorem Chain.reflTransGen {n : ℕ} {a b : α} (h : Chain r n a b) : ReflTransGen r a b := by
  induction h with
  | refl a => exact ReflTransGen.refl
  | head hstep _ ih => exact ReflTransGen.head hstep ih

theorem Chain.transGen {n : ℕ} {a b : α} (h : Chain r (n + 1) a b) : TransGen r a b := by
  cases h with
  | head hstep hrest => exact TransGen.head' hstep hrest.reflTransGen

end Limpid
