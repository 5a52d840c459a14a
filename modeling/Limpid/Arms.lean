import Mathlib.Data.List.Basic

/-!
# Selecting an arm

A loop over the arms of a switch: an arm without a pattern is taken, an arm with one is taken if
the value of the pattern is the target's `same`, and otherwise the next arm is looked at.
Evaluating a pattern may change a state, and no pattern is evaluated after an arm is taken.

`Loop` is such a loop by its equations, so that several loops over arms with bodies of different
kinds can be compared: which arm is picked depends only on `same` and on the values
(`Loop.picks_iff`).
-/

namespace Limpid.Arms

variable {E V S M B R : Type*}

/-- The first arm that is the default or whose value is the same as the target. -/
def select (same : V → V → Bool) (target : V) : List (Option V) → Option ℕ
  | [] => none
  | none :: _ => some 0
  | some value :: rest =>
      if same target value then some 0 else (select same target rest).map (· + 1)

/-- The patterns, evaluated one after the other, have these values. -/
inductive Yields (eval : E → S → Option (Except M V × S)) :
    S → List (Option E) → List (Option V) → Prop
  | nil (s : S) : Yields eval s [] []
  | default {s : S} {patterns : List (Option E)} {values : List (Option V)}
      (h : Yields eval s patterns values) : Yields eval s (none :: patterns) (none :: values)
  | pattern {s next : S} {pattern : E} {value : V} {patterns : List (Option E)}
      {values : List (Option V)} (heval : eval pattern s = some (.ok value, next))
      (h : Yields eval next patterns values) :
      Yields eval s (some pattern :: patterns) (some value :: values)

/-- Arms with these patterns and bodies. -/
def arms (patterns : List (Option E)) (bodies : ℕ → B) : List (Option E × B) :=
  patterns.mapIdx fun i pattern => (pattern, bodies i)

@[simp] theorem arms_nil (bodies : ℕ → B) : arms ([] : List (Option E)) bodies = [] := rfl

@[simp] theorem arms_cons (pattern : Option E) (patterns : List (Option E)) (bodies : ℕ → B) :
    arms (pattern :: patterns) bodies =
      (pattern, bodies 0) :: arms patterns fun i => bodies (i + 1) :=
  List.mapIdx_cons

/-- A loop over arms, by its equations. -/
structure Loop (eval : E → S → Option (Except M V × S)) (same : V → V → Bool) (target : V)
    (B R : Type*) where
  run : List (Option E × B) → S → R
  body : B → S → R
  otherwise : S → R
  run_nil : ∀ s, run [] s = otherwise s
  run_default : ∀ b rest s, run ((none, b) :: rest) s = body b s
  run_pattern : ∀ {pattern b rest s value next}, eval pattern s = some (.ok value, next) →
    run ((some pattern, b) :: rest) s = if same target value then body b next else run rest next

namespace Loop

variable {eval : E → S → Option (Except M V × S)} {same : V → V → Bool} {target : V}
  (loop : Loop eval same target B R)

/-- Whatever the bodies are, the loop is the body of this arm. -/
def Picks (patterns : List (Option E)) (s : S) (i : ℕ) : Prop :=
  ∃ after, ∀ bodies, loop.run (arms patterns bodies) s = loop.body (bodies i) after

theorem run_eq {patterns : List (Option E)} {values : List (Option V)} {s : S}
    (h : Yields eval s patterns values) :
    ∃ after, ∀ bodies, loop.run (arms patterns bodies) s =
      (select same target values).elim (loop.otherwise after) fun i =>
        loop.body (bodies i) after := by
  induction h with
  | nil s => exact ⟨s, fun _ => loop.run_nil s⟩
  | @default s patterns values _ _ =>
      exact ⟨s, fun bodies => (congrArg (loop.run · s) (arms_cons _ _ _)).trans
        (loop.run_default _ _ s)⟩
  | @pattern s next pattern value patterns values heval _ ih =>
      obtain ⟨after, hafter⟩ := ih
      by_cases hsame : same target value = true
      · refine ⟨next, fun bodies => ?_⟩
        rw [arms_cons, loop.run_pattern heval, if_pos hsame, select, if_pos hsame]
        rfl
      · refine ⟨after, fun bodies => ?_⟩
        rw [arms_cons, loop.run_pattern heval, if_neg hsame, select, if_neg hsame, hafter]
        cases select same target values <;> rfl

/-- The arm that is picked is the selected one, if two bodies can be told apart and one of them
from what the loop is without an arm. -/
theorem picks_iff {patterns : List (Option E)} {values : List (Option V)} {s : S}
    (h : Yields eval s patterns values) {b c : B}
    (hdiffer : ∀ s s', loop.body b s ≠ loop.body c s')
    (hotherwise : ∀ s s', loop.body b s ≠ loop.otherwise s') (i : ℕ) :
    loop.Picks patterns s i ↔ select same target values = some i := by
  obtain ⟨after, hafter⟩ := loop.run_eq h
  constructor
  · rintro ⟨stop, hstop⟩
    -- mark the arm that is said to be picked
    have hmarked := (hstop fun k => if k = i then b else c).symm.trans (hafter _)
    cases hselect : select same target values with
    | none =>
        rw [hselect, if_pos rfl] at hmarked
        exact absurd hmarked (hotherwise _ _)
    | some j =>
        rw [hselect, if_pos rfl] at hmarked
        by_cases hij : j = i
        · exact congrArg some hij
        · rw [Option.elim_some, if_neg hij] at hmarked
          exact absurd hmarked (hdiffer _ _)
  · intro hselect
    refine ⟨after, fun bodies => ?_⟩
    rw [hafter, hselect]
    rfl

end Loop

end Limpid.Arms
