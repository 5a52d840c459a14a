import Mathlib.Data.Nat.Notation
import Mathlib.Logic.Basic

/-!
# Runs of a labelled transition system

A system is a step relation `step s m t` between states, labelled with moves.  `Reached` are the
states a run can reach, and the runs may be restricted to moves that satisfy a `guard` on the
state before the step: that is how "every step of the run meets the condition" is said.

* `Reached.invariant` is the one induction on runs: what holds at the start and is kept by every
  guarded step holds in every state reached.
* `Reached.mono` weakens the guard, so a guarded run is a run.
* `acc_of_measure` is how runs end: when every step makes a number smaller.
* `foldlM_ok` is the rule for a loop whose rounds may fail.
-/

namespace Limpid

variable {σ μ : Type*}

/-- The states reached from `init` by steps that satisfy `guard`. -/
inductive Reached (step : σ → μ → σ → Prop) (guard : σ → μ → Prop) (init : σ) : σ → Prop where
  | start : Reached step guard init init
  | next {s t : σ} {m : μ} : Reached step guard init s → guard s m → step s m t →
      Reached step guard init t

namespace Reached

variable {step : σ → μ → σ → Prop} {guard guard' : σ → μ → Prop} {init s t : σ} {m : μ}

/-- **Invariants hold along runs.** -/
theorem invariant (inv : σ → Prop) (hinit : inv init)
    (hstep : ∀ s m t, inv s → guard s m → step s m t → inv t)
    (h : Reached step guard init s) : inv s := by
  induction h with
  | start => exact hinit
  | next _ hguard hmove ih => exact hstep _ _ _ ih hguard hmove

/-- Allowing more moves reaches more states. -/
theorem mono (hguard : ∀ s m, guard s m → guard' s m) (h : Reached step guard init s) :
    Reached step guard' init s := by
  induction h with
  | start => exact start
  | next _ hm hmove ih => exact ih.next (hguard _ _ hm) hmove

/-- Runs compose. -/
theorem trans (h₁ : Reached step guard init s) (h₂ : Reached step guard s t) :
    Reached step guard init t := by
  induction h₂ with
  | start => exact h₁
  | next _ hm hmove ih => exact ih.next hm hmove

/-- The moves of a list, taken one after another by an executable step, are a run. -/
theorem of_moves {move : σ → μ → Option σ} (moves : List μ) :
    ∀ {s : σ}, moves.foldlM move s = some t →
      Reached (fun s m t => move s m = some t) (fun _ _ => True) s t := by
  induction moves with
  | nil =>
      intro s h
      injection h with h
      exact h ▸ start
  | cons m moves ih =>
      intro s h
      rw [List.foldlM_cons] at h
      obtain ⟨next, hnext, hrest⟩ := Option.bind_eq_some_iff.mp h
      exact trans (start.next trivial hnext) (ih hrest)

end Reached

/-- **Runs end when every step makes a measure smaller.** -/
theorem acc_of_measure {step : σ → μ → σ → Prop} (inv : σ → Prop) (measure : σ → ℕ)
    (hstep : ∀ s m t, inv s → step s m t → inv t ∧ measure t < measure s) {s : σ} (hs : inv s) :
    Acc (fun t s => ∃ m, step s m t) s := by
  have hbound : ∀ n s, inv s → measure s < n → Acc (fun t s => ∃ m, step s m t) s := by
    intro n
    induction n with
    | zero => exact fun s _ hlt => absurd hlt (Nat.not_lt_zero _)
    | succ n ih =>
        intro s hs hlt
        refine Acc.intro s fun t ht => ?_
        obtain ⟨m, hm⟩ := ht
        obtain ⟨hinv, hless⟩ := hstep s m t hs hm
        exact ih t hinv (by omega)
  exact hbound _ s hs (Nat.lt_succ_self _)

/-- **Loops that may fail.**  When every round that succeeds is a step of a reflexive and
transitive relation and leaves `post` of its item, so is the loop, and it leaves `post` of every
item. -/
theorem foldlM_ok {ε σ α : Type} {round : σ → α → Except ε σ} (rel : σ → σ → Prop)
    (post : α → σ → Prop) (hrefl : ∀ s, rel s s)
    (htrans : ∀ {s t u}, rel s t → rel t u → rel s u)
    (hmono : ∀ {a s t}, post a s → rel s t → post a t) {items : List α}
    (hround : ∀ a ∈ items, ∀ s t, round s a = .ok t → rel s t ∧ post a t) {s t : σ}
    (h : items.foldlM round s = .ok t) : rel s t ∧ ∀ a ∈ items, post a t := by
  induction items generalizing s with
  | nil =>
      obtain rfl := Except.ok.inj h
      exact ⟨hrefl s, fun a ha => absurd ha List.not_mem_nil⟩
  | cons a items ih =>
      rw [List.foldlM_cons] at h
      cases hfirst : round s a with
      | error e =>
          rw [hfirst] at h
          exact nomatch h
      | ok middle =>
          rw [hfirst] at h
          obtain ⟨hstep, hpost⟩ := hround a (List.mem_cons_self ..) s middle hfirst
          obtain ⟨hrest, hposts⟩ := ih (fun b hb => hround b (List.mem_cons_of_mem a hb)) h
          exact ⟨htrans hstep hrest, List.forall_mem_cons.mpr ⟨hmono hpost hrest, hposts⟩⟩
end Limpid
