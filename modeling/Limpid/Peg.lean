import Mathlib.Tactic.Cases
import Mathlib.Data.List.Basic

/-!
# Parsing expression grammars

Ordered choice, repetition without backtracking and lookahead, with space that is skipped between
the parts of a sequence.  A rule that is atomic skips no space, and says so for the rules it calls.

`Derives` is what a pattern does to an input: it fails, or it takes a part and leaves the rest,
with the pairs of the rules that matched.  `run` computes it, given enough fuel
(`derives_iff_exists_run`), so what a pattern does is unique (`Derives.det`).
-/

namespace Limpid.Peg

/-! ## Grammars -/

/-- Whether space is skipped, and whether rules leave pairs. -/
inductive Atomicity where
  | atomic | compound | nonAtomic
deriving DecidableEq

/-- How a rule treats what it matches. -/
inductive Kind where
  | normal | silent | atomic | compound | nonAtomic
deriving DecidableEq

/-- The atomicity inside a rule that is called with `outer`. -/
def Kind.inner (outer : Atomicity) : Kind → Atomicity
  | normal | silent => outer
  | atomic => .atomic
  | compound => .compound
  | nonAtomic => .nonAtomic

/-- Whether a rule leaves a pair. -/
def Kind.emits (outer : Atomicity) : Kind → Bool
  | normal | atomic => outer ≠ .atomic
  | silent => false
  | compound | nonAtomic => true

/-- A parsing expression. -/
inductive Pattern (Rule : Type) where
  | empty
  | text (s : List Char)
  | one (p : Char → Bool)
  | endOfInput
  /-- The space between two parts. -/
  | skip
  | cat (first second : Pattern Rule)
  | choice (first second : Pattern Rule)
  | star (p : Pattern Rule)
  | absent (p : Pattern Rule)
  | call (r : Rule)

namespace Pattern

variable {Rule : Type}

/-- `first ~ second`. -/
def seq (first second : Pattern Rule) : Pattern Rule := cat first (cat skip second)

/-- `p?`. -/
def opt (p : Pattern Rule) : Pattern Rule := choice p empty

/-- `p*`. -/
def many (p : Pattern Rule) : Pattern Rule := opt (cat p (star (cat skip p)))

/-- `p+`. -/
def many1 (p : Pattern Rule) : Pattern Rule := seq p (many p)

end Pattern

/-- A pattern and a kind for each rule. -/
structure Grammar (Rule : Type) where
  kind : Rule → Kind
  body : Rule → Pattern Rule
  space : Pattern Rule

/-- A rule, the text it took, and the pairs in it. -/
inductive Pair (Rule : Type) where
  | node (rule : Rule) (text : List Char) (children : List (Pair Rule))

/-- Failure, or the pairs and the rest of the input. -/
abbrev Outcome (Rule : Type) : Type := Option (List (Pair Rule) × List Char)

section Matching

variable {Rule : Type} (g : Grammar Rule)

/-- What a rule that matched leaves. -/
def emitted (mode : Atomicity) (r : Rule) (input rest : List Char) (children : List (Pair Rule)) :
    List (Pair Rule) :=
  if (g.kind r).emits mode then [.node r (input.take (input.length - rest.length)) children]
  else children

/-- One more round of a repetition. -/
def afterRound (pairs : List (Pair Rule)) : Outcome Rule → Outcome Rule :=
  Option.map fun more => (pairs ++ more.1, more.2)

/-- What the pattern does to the input; nothing if the fuel does not suffice. -/
def run : ℕ → Atomicity → Pattern Rule → List Char → Option (Outcome Rule)
  | 0, _, _, _ => none
  | fuel + 1, mode, pattern, input =>
    match pattern with
    | .empty => some (some ([], input))
    | .text s => some (if s.isPrefixOf input then some ([], input.drop s.length) else none)
    | .one p =>
      match input with
      | [] => some none
      | c :: rest => some (if p c then some ([], rest) else none)
    | .endOfInput => some (if input.isEmpty then some ([], []) else none)
    | .skip => if mode = .nonAtomic then run fuel .atomic g.space input else some (some ([], input))
    | .cat first second =>
      (run fuel mode first input).bind fun
        | none => some none
        | some (pairs, rest) => (run fuel mode second rest).map (afterRound pairs)
    | .choice first second =>
      (run fuel mode first input).bind fun
        | none => run fuel mode second input
        | some result => some (some result)
    | .star p =>
      (run fuel mode p input).bind fun
        | none => some (some ([], input))
        | some (pairs, rest) => (run fuel mode (.star p) rest).map (afterRound pairs)
    | .absent p =>
      (run fuel mode p input).map fun
        | none => some ([], input)
        | some _ => none
    | .call r =>
      (run fuel ((g.kind r).inner mode) (g.body r) input).map
        (Option.map fun result => (emitted g mode r input result.2 result.1, result.2))

/-- The pattern does this to the input. -/
inductive Derives : Atomicity → Pattern Rule → List Char → Outcome Rule → Prop
  | empty (mode input) : Derives mode .empty input (some ([], input))
  | text (mode) (s rest) : Derives mode (.text s) (s ++ rest) (some ([], rest))
  | textFail (mode) {s input} (h : ¬ s <+: input) : Derives mode (.text s) input none
  | one (mode) {p c} (rest) (h : p c = true) : Derives mode (.one p) (c :: rest) (some ([], rest))
  | oneFail (mode) {p c} (rest) (h : p c = false) : Derives mode (.one p) (c :: rest) none
  | oneEnd (mode p) : Derives mode (.one p) [] none
  | endOfInput (mode) : Derives mode .endOfInput [] (some ([], []))
  | notEnd (mode c rest) : Derives mode .endOfInput (c :: rest) none
  | skip {input result} (h : Derives .atomic g.space input result) :
      Derives .nonAtomic .skip input result
  | noSkip {mode} (input) (h : mode ≠ .nonAtomic) : Derives mode .skip input (some ([], input))
  | cat {mode first second input pairs rest result}
      (h : Derives mode first input (some (pairs, rest))) (h' : Derives mode second rest result) :
      Derives mode (.cat first second) input (afterRound pairs result)
  | catFail {mode first second input} (h : Derives mode first input none) :
      Derives mode (.cat first second) input none
  | choiceFirst {mode first second input result} (h : Derives mode first input (some result)) :
      Derives mode (.choice first second) input (some result)
  | choiceSecond {mode first second input result} (h : Derives mode first input none)
      (h' : Derives mode second input result) : Derives mode (.choice first second) input result
  | starStop {mode p input} (h : Derives mode p input none) :
      Derives mode (.star p) input (some ([], input))
  | star {mode p input pairs rest result} (h : Derives mode p input (some (pairs, rest)))
      (h' : Derives mode (.star p) rest result) :
      Derives mode (.star p) input (afterRound pairs result)
  | absent {mode p input} (h : Derives mode p input none) :
      Derives mode (.absent p) input (some ([], input))
  | present {mode p input result} (h : Derives mode p input (some result)) :
      Derives mode (.absent p) input none
  | call {mode r input result} (h : Derives ((g.kind r).inner mode) (g.body r) input result) :
      Derives mode (.call r) input
        (result.map fun found => (emitted g mode r input found.2 found.1, found.2))

variable {g}

/-! ## Sequences and repetitions -/

theorem afterRound_nil (result : Outcome Rule) : afterRound [] result = result := by
  cases result <;> rfl

theorem Derives.textHead {mode : Atomicity} {c d : Char} {s rest : List Char} (h : c ≠ d) :
    Derives g mode (.text (c :: s)) (d :: rest) none :=
  .textFail mode fun hprefix => h (List.cons_prefix_cons.mp hprefix).1

theorem Derives.textNil {mode : Atomicity} {c : Char} {s : List Char} :
    Derives g mode (.text (c :: s)) [] none :=
  .textFail mode fun hprefix => nomatch List.prefix_nil.mp hprefix

theorem Derives.seq {mode : Atomicity} {first second : Pattern Rule} {input rest mid : List Char}
    {pairs : List (Pair Rule)} {result : Outcome Rule}
    (hfirst : Derives g mode first input (some (pairs, rest)))
    (hskip : Derives g mode .skip rest (some ([], mid)))
    (hsecond : Derives g mode second mid result) :
    Derives g mode (.seq first second) input (afterRound pairs result) := by
  have hrest := Derives.cat hskip hsecond
  rw [afterRound_nil] at hrest
  exact .cat hfirst hrest

theorem Derives.seqFail {mode : Atomicity} {first second : Pattern Rule} {input : List Char}
    (h : Derives g mode first input none) : Derives g mode (.seq first second) input none :=
  .catFail h

theorem Derives.optNone {mode : Atomicity} {p : Pattern Rule} {input : List Char}
    (h : Derives g mode p input none) : Derives g mode (.opt p) input (some ([], input)) :=
  .choiceSecond h (.empty mode input)

theorem Derives.manyNone {mode : Atomicity} {p : Pattern Rule} {input : List Char}
    (h : Derives g mode p input none) : Derives g mode (.many p) input (some ([], input)) :=
  .optNone (.catFail h)

theorem Derives.callFail {mode : Atomicity} {r : Rule} {input : List Char}
    (h : Derives g ((g.kind r).inner mode) (g.body r) input none) :
    Derives g mode (.call r) input none :=
  Derives.call h

/-- A rule with a pair. -/
theorem Derives.callTaken {mode : Atomicity} {r : Rule} {taken rest : List Char}
    {pairs : List (Pair Rule)} (hemits : (g.kind r).emits mode = true)
    (h : Derives g ((g.kind r).inner mode) (g.body r) (taken ++ rest) (some (pairs, rest))) :
    Derives g mode (.call r) (taken ++ rest) (some ([.node r taken pairs], rest)) := by
  have hcall := Derives.call h
  have htext : (taken ++ rest).take ((taken ++ rest).length - rest.length) = taken := by
    rw [List.length_append, Nat.add_sub_cancel, List.take_left]
  rw [Option.map_some, emitted, if_pos hemits, htext] at hcall
  exact hcall

/-- A rule with a pair that takes the whole input. -/
theorem Derives.callWhole {mode : Atomicity} {r : Rule} {input : List Char}
    {pairs : List (Pair Rule)} (hemits : (g.kind r).emits mode = true)
    (h : Derives g ((g.kind r).inner mode) (g.body r) input (some (pairs, []))) :
    Derives g mode (.call r) input (some ([.node r input pairs], [])) := by
  have hcall := @Derives.callTaken _ g mode r input [] pairs hemits
  rw [List.append_nil] at hcall
  exact hcall h

/-- A run of characters of one kind. -/
theorem Derives.manyOne {p : Char → Bool} {chars : List Char} (hchars : ∀ c ∈ chars, p c = true)
    {rest : List Char} (hrest : ∀ c ∈ rest.head?, p c = false) :
    Derives g .atomic (.many (.one p)) (chars ++ rest) (some ([], rest)) := by
  have hfail : Derives g .atomic (.one p) rest none := by
    cases rest with
    | nil => exact .oneEnd .atomic p
    | cons c rest => exact .oneFail .atomic rest (hrest c rfl)
  have hround : ∀ {input : List Char} {result : Outcome Rule},
      Derives g .atomic (.one p) input result →
      Derives g .atomic (.cat .skip (.one p)) input result := by
    intro input result h
    have hcat := Derives.cat (.noSkip input (by decide)) h
    rwa [afterRound_nil] at hcat
  have hstar : ∀ chars : List Char, (∀ c ∈ chars, p c = true) →
      Derives g .atomic (.star (.cat .skip (.one p))) (chars ++ rest) (some ([], rest)) := by
    intro chars
    induction chars with
    | nil => exact fun _ => .starStop (hround hfail)
    | cons c chars ih =>
        intro hchars
        obtain ⟨hc, hchars⟩ := List.forall_mem_cons.mp hchars
        exact .star (hround (.one .atomic _ hc)) (ih hchars)
  cases chars with
  | nil => exact .manyNone hfail
  | cons c chars =>
      obtain ⟨hc, hchars⟩ := List.forall_mem_cons.mp hchars
      exact .choiceFirst (.cat (.one .atomic _ hc) (hstar chars hchars))

/-! ## What is derived is computed -/

theorem run_succ {fuel : ℕ} {mode : Atomicity} {pattern : Pattern Rule} {input : List Char}
    {result : Outcome Rule} (h : run g fuel mode pattern input = some result) :
    run g (fuel + 1) mode pattern input = some result := by
  induction fuel generalizing mode pattern input result with
  | zero => exact nomatch h
  | succ fuel ih =>
      cases pattern with
      | empty | text | endOfInput => exact h
      | one p => cases input <;> exact h
      | skip =>
          by_cases hmode : mode = .nonAtomic
          · rw [run, if_pos hmode] at h ⊢
            exact ih h
          · rw [run, if_neg hmode] at h ⊢
            exact h
      | cat first second =>
          rw [run] at h ⊢
          obtain ⟨out, hfirst, h⟩ := Option.bind_eq_some_iff.mp h
          rw [ih hfirst, Option.bind_some]
          cases out with
          | none => exact h
          | some found =>
              obtain ⟨more, hsecond, rfl⟩ := Option.map_eq_some_iff.mp h
              exact Option.map_eq_some_iff.mpr ⟨more, ih hsecond, rfl⟩
      | choice first second =>
          rw [run] at h ⊢
          obtain ⟨out, hfirst, h⟩ := Option.bind_eq_some_iff.mp h
          rw [ih hfirst, Option.bind_some]
          cases out with
          | none => exact ih h
          | some found => exact h
      | star p =>
          rw [run] at h ⊢
          obtain ⟨out, hround, h⟩ := Option.bind_eq_some_iff.mp h
          rw [ih hround, Option.bind_some]
          cases out with
          | none => exact h
          | some found =>
              obtain ⟨more, hmore, rfl⟩ := Option.map_eq_some_iff.mp h
              exact Option.map_eq_some_iff.mpr ⟨more, ih hmore, rfl⟩
      | absent p =>
          rw [run] at h ⊢
          obtain ⟨out, hp, rfl⟩ := Option.map_eq_some_iff.mp h
          exact Option.map_eq_some_iff.mpr ⟨out, ih hp, rfl⟩
      | call r =>
          rw [run] at h ⊢
          obtain ⟨out, hbody, rfl⟩ := Option.map_eq_some_iff.mp h
          exact Option.map_eq_some_iff.mpr ⟨out, ih hbody, rfl⟩

theorem run_mono {fuel larger : ℕ} (hle : fuel ≤ larger) {mode : Atomicity}
    {pattern : Pattern Rule} {input : List Char} {result : Outcome Rule}
    (h : run g fuel mode pattern input = some result) :
    run g larger mode pattern input = some result := by
  induction hle with
  | refl => exact h
  | step _ ih => exact run_succ ih

theorem Derives.of_run {fuel : ℕ} {mode : Atomicity} {pattern : Pattern Rule} {input : List Char}
    {result : Outcome Rule} (h : run g fuel mode pattern input = some result) :
    Derives g mode pattern input result := by
  induction fuel generalizing mode pattern input result with
  | zero => exact nomatch h
  | succ fuel ih =>
      cases pattern with
      | empty =>
          obtain rfl := Option.some.inj h
          exact .empty mode input
      | text s =>
          rw [run] at h
          obtain rfl := Option.some.inj h
          split
          · next hprefix =>
              obtain ⟨rest, rfl⟩ := List.isPrefixOf_iff_prefix.mp hprefix
              rw [List.drop_left]
              exact .text mode s rest
          · next hnone => exact .textFail mode (mt List.isPrefixOf_iff_prefix.mpr hnone)
      | one p =>
          cases input with
          | nil =>
              obtain rfl := Option.some.inj h
              exact .oneEnd mode p
          | cons c rest =>
              rw [run] at h
              obtain rfl := Option.some.inj h
              split
              · next hp => exact .one mode rest hp
              · next hp => exact .oneFail mode rest (Bool.eq_false_iff.mpr hp)
      | endOfInput =>
          cases input with
          | nil =>
              obtain rfl := Option.some.inj h
              exact .endOfInput mode
          | cons c rest =>
              obtain rfl := Option.some.inj h
              exact .notEnd mode c rest
      | skip =>
          -- nothing is skipped inside of an atomic rule
          rw [run] at h
          split at h
          · next hmode =>
              subst hmode
              exact .skip (ih h)
          · next hmode =>
              obtain rfl := Option.some.inj h
              exact .noSkip input hmode
      | cat first second =>
          rw [run] at h
          obtain ⟨out, hfirst, h⟩ := Option.bind_eq_some_iff.mp h
          cases out with
          | none =>
              obtain rfl := Option.some.inj h
              exact .catFail (ih hfirst)
          | some found =>
              obtain ⟨more, hsecond, rfl⟩ := Option.map_eq_some_iff.mp h
              exact .cat (ih hfirst) (ih hsecond)
      | choice first second =>
          rw [run] at h
          obtain ⟨out, hfirst, h⟩ := Option.bind_eq_some_iff.mp h
          cases out with
          | none => exact .choiceSecond (ih hfirst) (ih h)
          | some found =>
              obtain rfl := Option.some.inj h
              exact .choiceFirst (ih hfirst)
      | star p =>
          -- a round that fails ends the repetition and consumes nothing
          rw [run] at h
          obtain ⟨out, hround, h⟩ := Option.bind_eq_some_iff.mp h
          cases out with
          | none =>
              obtain rfl := Option.some.inj h
              exact .starStop (ih hround)
          | some found =>
              obtain ⟨more, hmore, rfl⟩ := Option.map_eq_some_iff.mp h
              exact .star (ih hround) (ih hmore)
      | absent p =>
          rw [run] at h
          obtain ⟨out, hp, rfl⟩ := Option.map_eq_some_iff.mp h
          cases out with
          | none => exact .absent (ih hp)
          | some found => exact .present (ih hp)
      | call r =>
          rw [run] at h
          obtain ⟨out, hbody, rfl⟩ := Option.map_eq_some_iff.mp h
          exact .call (ih hbody)

theorem Derives.exists_run {mode : Atomicity} {pattern : Pattern Rule} {input : List Char}
    {result : Outcome Rule} (h : Derives g mode pattern input result) :
    ∃ fuel, run g fuel mode pattern input = some result := by
  induction h with
  | empty | endOfInput | notEnd | oneEnd => exact ⟨1, rfl⟩
  | text mode s rest =>
      have hprefix : s.isPrefixOf (s ++ rest) = true :=
        List.isPrefixOf_iff_prefix.mpr ⟨rest, rfl⟩
      exact ⟨1, by rw [run, if_pos hprefix, List.drop_left]⟩
  | textFail mode h =>
      exact ⟨1, by rw [run, if_neg (mt List.isPrefixOf_iff_prefix.mp h)]⟩
  | one mode rest h => exact ⟨1, by rw [run, if_pos h]⟩
  | oneFail mode rest h => exact ⟨1, by rw [run, if_neg (Bool.eq_false_iff.mp h)]⟩
  | skip _ ih =>
      obtain ⟨fuel, hrun⟩ := ih
      exact ⟨fuel + 1, by rw [run, if_pos rfl, hrun]⟩
  | noSkip input h => exact ⟨1, by rw [run, if_neg h]⟩
  | cat _ _ ih ih' =>
      obtain ⟨fuel, hfirst⟩ := ih
      obtain ⟨fuel', hsecond⟩ := ih'
      refine ⟨max fuel fuel' + 1, ?_⟩
      rw [run, run_mono (Nat.le_max_left ..) hfirst, Option.bind_some]
      exact congrArg (Option.map _) (run_mono (Nat.le_max_right ..) hsecond)
  | catFail _ ih =>
      obtain ⟨fuel, hfirst⟩ := ih
      exact ⟨fuel + 1, by rw [run, hfirst]; rfl⟩
  | choiceFirst _ ih =>
      obtain ⟨fuel, hfirst⟩ := ih
      exact ⟨fuel + 1, by rw [run, hfirst]; rfl⟩
  | choiceSecond _ _ ih ih' =>
      obtain ⟨fuel, hfirst⟩ := ih
      obtain ⟨fuel', hsecond⟩ := ih'
      refine ⟨max fuel fuel' + 1, ?_⟩
      rw [run, run_mono (Nat.le_max_left ..) hfirst, Option.bind_some,
        run_mono (Nat.le_max_right ..) hsecond]
  | starStop _ ih =>
      obtain ⟨fuel, hround⟩ := ih
      exact ⟨fuel + 1, by rw [run, hround]; rfl⟩
  | star _ _ ih ih' =>
      -- the larger of the two amounts of fuel is enough for both
      obtain ⟨fuel, hround⟩ := ih
      obtain ⟨fuel', hmore⟩ := ih'
      refine ⟨max fuel fuel' + 1, ?_⟩
      rw [run, run_mono (Nat.le_max_left ..) hround, Option.bind_some]
      exact congrArg (Option.map _) (run_mono (Nat.le_max_right ..) hmore)
  | absent _ ih =>
      obtain ⟨fuel, hp⟩ := ih
      exact ⟨fuel + 1, by rw [run, hp]; rfl⟩
  | present _ ih =>
      obtain ⟨fuel, hp⟩ := ih
      exact ⟨fuel + 1, by rw [run, hp]; rfl⟩
  | call _ ih =>
      obtain ⟨fuel, hbody⟩ := ih
      exact ⟨fuel + 1, by rw [run, hbody]; rfl⟩

/-- **The interpreter computes what is derived.** -/
theorem derives_iff_exists_run {mode : Atomicity} {pattern : Pattern Rule} {input : List Char}
    {result : Outcome Rule} :
    Derives g mode pattern input result ↔ ∃ fuel, run g fuel mode pattern input = some result :=
  ⟨Derives.exists_run, fun ⟨_, h⟩ => .of_run h⟩

/-- **What a pattern does to an input is unique.** -/
theorem Derives.det {mode : Atomicity} {pattern : Pattern Rule} {input : List Char}
    {result other : Outcome Rule} (h : Derives g mode pattern input result)
    (h' : Derives g mode pattern input other) : result = other := by
  obtain ⟨fuel, hrun⟩ := h.exists_run
  obtain ⟨fuel', hrun'⟩ := h'.exists_run
  have hleft := run_mono (Nat.le_max_left fuel fuel') hrun
  rw [run_mono (Nat.le_max_right fuel fuel') hrun'] at hleft
  exact (Option.some.inj hleft).symm

end Matching

end Limpid.Peg
