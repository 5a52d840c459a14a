import Limpid.EditScript
import Mathlib.Data.List.MinMax
import Mathlib.Data.String.Basic
import Mathlib.Data.Prod.Lex

/-!
# The suggestion of a spelling

`nearest` and `levenshtein` of `dsl/schema.rs`.  `levenshtein` keeps two rows of the table of
distances between the beginnings of the longer and of the shorter string.
-/

namespace Limpid.Dsl.Schema

/-- The cells of a row from the second on: `left` is the cell before, `above` the row above from the
cell over `left` on. -/
def fillRow (lc : Char) : ℕ → List ℕ → List Char → List ℕ
  | left, diagonal :: up :: above, sc :: short =>
      let cost := if lc = sc then 0 else 1
      let cell := min (min (up + 1) (left + 1)) (diagonal + cost)
      cell :: fillRow lc cell (up :: above) short
  | _, _, _ => []

/-- The rows of the letters of `long`, each over the one before, from row `i` on. -/
def fillRows (short : List Char) : ℕ → List ℕ → List Char → List ℕ
  | _, prev, [] => prev
  | i, prev, lc :: long => fillRows short (i + 1) ((i + 1) :: fillRow lc (i + 1) prev short) long

/-- `levenshtein`, with two rows. -/
def levenshtein (a b : String) : ℕ :=
  if a = b then 0
  else if a.toList.isEmpty then b.toList.length
  else if b.toList.isEmpty then a.toList.length
  else
    let (short, long) :=
      if a.toList.length ≤ b.toList.length then (a.toList, b.toList) else (b.toList, a.toList)
    (fillRows short 0 (List.range (short.length + 1)) long).getD short.length 0

/-- The length is in bytes. -/
def threshold (needle : String) : ℕ :=
  max (needle.utf8ByteSize / 3) 2

/-- One candidate of the loop of `nearest`. -/
def nearestStep (needle : String) (best : Option (String × ℕ)) (cand : String) :
    Option (String × ℕ) :=
  if cand = needle then best
  else
    let d := levenshtein needle cand
    if d > threshold needle then best
    else
      match best with
      | none => some (cand, d)
      | some (bname, bd) => if d < bd ∨ d = bd ∧ cand < bname then some (cand, d) else best

/-- `nearest`: the candidate to suggest. -/
def nearest (needle : String) (candidates : List String) : Option String :=
  (candidates.foldl (nearestStep needle) none).map Prod.fst

/-! ### The rows -/

/-- The row of the beginning `p` of the long string from the beginning `s` of the short one on; both
are reversed, so that a letter more is one in front. -/
def distanceRow (p s : List Char) : List Char → List ℕ
  | [] => [editDistance p s]
  | sc :: rest => editDistance p s :: distanceRow p (sc :: s) rest

theorem distanceRow_eq_cons (p s rest : List Char) :
    distanceRow p s rest = editDistance p s :: (distanceRow p s rest).tail := by
  cases rest <;> rfl

theorem fillRow_distanceRow (lc : Char) (p s rest : List Char) :
    fillRow lc (editDistance (lc :: p) s) (distanceRow p s rest) rest =
      (distanceRow (lc :: p) s rest).tail := by
  induction rest generalizing s with
  | nil => rfl
  | cons sc rest ih =>
      rw [distanceRow, distanceRow_eq_cons p (sc :: s) rest, fillRow]
      -- the new cell is the recursion of `editDistance` read at the two last letters
      have hcell : min (min (editDistance p (sc :: s) + 1) (editDistance (lc :: p) s + 1))
          (editDistance p s + if lc = sc then 0 else 1) = editDistance (lc :: p) (sc :: s) :=
        (editDistance_cons_cons lc sc p s).symm
      simp only [hcell]
      rw [← distanceRow_eq_cons, ih (sc :: s)]
      exact (distanceRow_eq_cons (lc :: p) (sc :: s) rest).symm

theorem fillRows_distanceRow (short p long : List Char) :
    fillRows short p.length (distanceRow p [] short) long =
      distanceRow (long.reverse ++ p) [] short := by
  induction long generalizing p with
  | nil => rfl
  | cons lc long ih =>
      have hrow : (p.length + 1) :: fillRow lc (p.length + 1) (distanceRow p [] short) short =
          distanceRow (lc :: p) [] short := by
        have h := fillRow_distanceRow lc p [] short
        rw [editDistance_nil_right, List.length_cons] at h
        rw [h, distanceRow_eq_cons (lc :: p) [] short, editDistance_nil_right, List.length_cons]
        rfl
      rw [fillRows, hrow]
      simpa using ih (lc :: p)

theorem distanceRow_nil (s rest : List Char) :
    distanceRow [] s rest = List.range' s.length (rest.length + 1) := by
  induction rest generalizing s with
  | nil => simp [distanceRow]
  | cons sc rest ih =>
      rw [distanceRow, ih, editDistance_nil_left, List.length_cons, List.length_cons]
      rfl

theorem distanceRow_getD (p s rest : List Char) :
    (distanceRow p s rest).getD rest.length 0 = editDistance p (rest.reverse ++ s) := by
  induction rest generalizing s with
  | nil => rfl
  | cons sc rest ih => simpa [distanceRow] using ih (sc :: s)

theorem fillRows_getD (short long : List Char) :
    (fillRows short 0 (List.range (short.length + 1)) long).getD short.length 0 =
      editDistance long short := by
  have hfirst : List.range (short.length + 1) = distanceRow [] [] short := by
    rw [distanceRow_nil, List.range_eq_range', List.length_nil]
  have hrows := fillRows_distanceRow short [] long
  rw [List.length_nil, ← hfirst] at hrows
  rw [hrows, distanceRow_getD, List.append_nil, List.append_nil]
  exact editDistance_reverse long short

/-- The early exits and the exchange of the two strings change nothing. -/
theorem levenshtein_eq (a b : String) : levenshtein a b = editDistance a.toList b.toList := by
  unfold levenshtein
  split
  case isTrue h => rw [h, editDistance_self]
  split
  case isTrue _ h => rw [List.isEmpty_iff.mp h, editDistance_nil_left]
  split
  case isTrue _ _ h => rw [List.isEmpty_iff.mp h, editDistance_nil_right]
  by_cases hle : a.toList.length ≤ b.toList.length
  · simp only [if_pos hle]
    rw [fillRows_getD, editDistance_comm]
  · simp only [if_neg hle]
    exact fillRows_getD b.toList a.toList

example : levenshtein "kitten" "sitting" = 3 := by decide

/-! ### The nearest candidate -/

/-- A candidate that may be suggested. -/
def Suggestible (needle : String) (candidates : List String) (cand : String) : Prop :=
  cand ∈ candidates ∧ cand ≠ needle ∧ levenshtein needle cand ≤ threshold needle

/-- The order of the loop: by distance, then by name. -/
def Closer (needle x y : String) : Prop :=
  levenshtein needle x < levenshtein needle y ∨
    levenshtein needle x = levenshtein needle y ∧ x < y

/-- What the loop holds after some candidates: the closest of those that may be suggested. -/
def Best (needle : String) (candidates : List String) : Option (String × ℕ) → Prop
  | none => ∀ cand, ¬ Suggestible needle candidates cand
  | some (name, d) =>
      d = levenshtein needle name ∧ Suggestible needle candidates name ∧
        ∀ cand, Suggestible needle candidates cand → cand = name ∨ Closer needle name cand

theorem Closer.trans {needle x y z : String} (hxy : Closer needle x y) (hyz : Closer needle y z) :
    Closer needle x z := by
  unfold Closer at *
  rcases hxy with hxy | ⟨hxy, hlt⟩
  · left
    omega
  · rcases hyz with hyz | ⟨hyz, hlt'⟩
    · left
      omega
    · exact .inr ⟨hxy.trans hyz, hlt.trans hlt'⟩

theorem Closer.total {needle x y : String} (h : ¬ Closer needle x y) :
    x = y ∨ Closer needle y x := by
  unfold Closer at *
  push Not at h
  rcases h.1.lt_or_eq with hlt | heq
  · exact .inr (.inl hlt)
  · rcases (h.2 heq.symm).lt_or_eq with hlt | hname
    · exact .inr (.inr ⟨heq, hlt⟩)
    · exact .inl hname.symm

theorem suggestible_append {needle : String} {candidates : List String} {cand x : String} :
    Suggestible needle (candidates ++ [cand]) x ↔
      Suggestible needle candidates x ∨ x = cand ∧ Suggestible needle [x] x := by
  unfold Suggestible
  simp only [List.mem_append, List.mem_singleton]
  tauto

/-- A candidate that may not be suggested leaves what the loop holds. -/
theorem Best.skip {needle : String} {candidates : List String} {cand : String}
    {best : Option (String × ℕ)} (h : Best needle candidates best)
    (hcand : ¬ Suggestible needle [cand] cand) : Best needle (candidates ++ [cand]) best := by
  have hiff : ∀ x, Suggestible needle (candidates ++ [cand]) x ↔ Suggestible needle candidates x := by
    intro x
    rw [suggestible_append]
    apply or_iff_left
    rintro ⟨rfl, hx⟩
    exact hcand hx
  cases best with
  | none => exact fun x hx => h x ((hiff x).mp hx)
  | some found =>
      obtain ⟨hd, hname, hleast⟩ := h
      exact ⟨hd, (hiff _).mpr hname, fun x hx => hleast x ((hiff x).mp hx)⟩

theorem Best.step {needle : String} {candidates : List String} {best : Option (String × ℕ)}
    (h : Best needle candidates best) (cand : String) :
    Best needle (candidates ++ [cand]) (nearestStep needle best cand) := by
  unfold nearestStep
  split
  case isTrue heq =>
    apply h.skip
    intro hcand
    exact hcand.2.1 heq
  case isFalse hne =>
    dsimp only
    split
    case isTrue hfar =>
      apply h.skip
      intro hcand
      exact absurd hcand.2.2 (by omega)
    case isFalse hnear =>
      have hcand : Suggestible needle [cand] cand := ⟨by simp, hne, by omega⟩
      have hlast : Suggestible needle (candidates ++ [cand]) cand :=
        suggestible_append.mpr (.inr ⟨rfl, hcand⟩)
      cases best with
      | none =>
          refine ⟨rfl, hlast, ?_⟩
          intro x hx
          rcases suggestible_append.mp hx with hx | ⟨rfl, -⟩
          · exact absurd hx (h x)
          · exact .inl rfl
      | some found =>
          obtain ⟨name, d⟩ := found
          obtain ⟨rfl, hname, hleast⟩ := h
          dsimp only
          split
          case isTrue hcloser =>
            -- the new candidate is closer than the old one, and so than all before
            refine ⟨rfl, hlast, ?_⟩
            intro x hx
            rcases suggestible_append.mp hx with hx | ⟨rfl, -⟩
            · rcases hleast x hx with rfl | hx
              · exact .inr hcloser
              · exact .inr (Closer.trans hcloser hx)
            · exact .inl rfl
          case isFalse hcloser =>
            refine ⟨rfl, suggestible_append.mpr (.inl hname), ?_⟩
            intro x hx
            rcases suggestible_append.mp hx with hx | ⟨rfl, -⟩
            · exact hleast x hx
            · exact Closer.total hcloser

theorem best_foldl (needle : String) (candidates : List String) :
    Best needle candidates (candidates.foldl (nearestStep needle) none) := by
  induction candidates using List.reverseRecOn with
  | nil => simp [Best, Suggestible]
  | append_singleton candidates cand ih =>
      rw [List.foldl_append]
      exact ih.step cand

theorem nearest_eq_some_iff {needle : String} {candidates : List String} {name : String} :
    nearest needle candidates = some name ↔ Suggestible needle candidates name ∧
      ∀ cand, Suggestible needle candidates cand → cand = name ∨ Closer needle name cand := by
  have hbest := best_foldl needle candidates
  unfold nearest
  cases hfold : candidates.foldl (nearestStep needle) none with
  | none =>
      rw [hfold] at hbest
      simp only [Option.map_none, reduceCtorEq, false_iff, not_and]
      exact fun hname => absurd hname (hbest name)
  | some found =>
      obtain ⟨found, d⟩ := found
      rw [hfold] at hbest
      obtain ⟨-, hfound, hleast⟩ := hbest
      simp only [Option.map_some, Option.some.injEq]
      constructor
      · rintro rfl
        exact ⟨hfound, hleast⟩
      · rintro ⟨hname, hname_least⟩
        -- two closest candidates are closer than each other, unless they are one
        rcases hleast name hname with heq | hlt
        · exact heq.symm
        · rcases hname_least found hfound with heq | hgt
          · exact heq
          · exact absurd (Closer.trans hlt hgt) (by simp [Closer])

theorem nearest_eq_none_iff {needle : String} {candidates : List String} :
    nearest needle candidates = none ↔ ∀ cand, ¬ Suggestible needle candidates cand := by
  have hbest := best_foldl needle candidates
  unfold nearest
  cases hfold : candidates.foldl (nearestStep needle) none with
  | none =>
      rw [hfold] at hbest
      exact iff_of_true rfl hbest
  | some found =>
      rw [hfold] at hbest
      simp only [Option.map_some, reduceCtorEq, false_iff, not_forall, not_not]
      exact ⟨_, hbest.2.1⟩

theorem editChain_levenshtein (a b : String) :
    IsLeast {n | EditChain a.toList b.toList n} (levenshtein a b) := by
  rw [levenshtein_eq]
  exact editDistance_isLeast a.toList b.toList

theorem levenshtein_le_iff {a b : String} {n : ℕ} :
    levenshtein a b ≤ n ↔ ∃ k ≤ n, EditChain a.toList b.toList k := by
  constructor
  · intro h
    exact ⟨levenshtein a b, h, (editChain_levenshtein a b).1⟩
  · rintro ⟨k, hk, hchain⟩
    exact ((editChain_levenshtein a b).2 hchain).trans hk

/-- Something is suggested exactly when a candidate other than the name itself can be written with
few enough edits; then it is the candidate with the fewest, the first in the alphabet of those. -/
theorem nearest_spec (needle : String) (candidates : List String) :
    (nearest needle candidates = none ↔ ∀ cand ∈ candidates, cand ≠ needle →
      ∀ n, EditChain needle.toList cand.toList n → threshold needle < n) ∧
    ∀ name, nearest needle candidates = some name ↔
      ∃ d ≤ threshold needle, EditChain needle.toList name.toList d ∧
        name ∈ candidates ∧ name ≠ needle ∧
        ∀ cand ∈ candidates, cand ≠ needle → ∀ n, EditChain needle.toList cand.toList n →
          d < n ∨ d = n ∧ name ≤ cand := by
  constructor
  · rw [nearest_eq_none_iff]
    constructor
    · intro h cand hcand hne n hchain
      by_contra! hn
      exact h cand ⟨hcand, hne, levenshtein_le_iff.mpr ⟨n, hn, hchain⟩⟩
    · rintro h cand ⟨hcand, hne, hle⟩
      obtain ⟨n, hn, hchain⟩ := levenshtein_le_iff.mp hle
      exact absurd (h cand hcand hne n hchain) (by omega)
  · intro name
    rw [nearest_eq_some_iff]
    constructor
    · rintro ⟨⟨hmem, hne, hle⟩, hleast⟩
      refine ⟨levenshtein needle name, hle, (editChain_levenshtein needle name).1, hmem, hne, ?_⟩
      intro cand hcand hcand_ne n hchain
      have hn := (editChain_levenshtein needle cand).2 hchain
      by_cases hfar : levenshtein needle cand ≤ threshold needle
      · rcases hleast cand ⟨hcand, hcand_ne, hfar⟩ with rfl | hcloser
        · rcases hn.lt_or_eq with hlt | heq
          · exact .inl hlt
          · exact .inr ⟨heq, le_rfl⟩
        · rcases hcloser with hlt | ⟨heq, hlt⟩
          · exact .inl (hlt.trans_le hn)
          · rcases hn.lt_or_eq with hn | hn
            · exact .inl (heq ▸ hn)
            · exact .inr ⟨heq.trans hn, hlt.le⟩
      · left
        omega
    · rintro ⟨d, hd, hchain, hmem, hne, hleast⟩
      -- the `d` edits are the fewest: with fewer, the candidate would beat itself
      have hlev : d = levenshtein needle name := by
        rcases hleast name hmem hne _ (editChain_levenshtein needle name).1 with hlt | ⟨heq, -⟩
        · exact absurd ((editChain_levenshtein needle name).2 hchain) (by omega)
        · exact heq
      refine ⟨⟨hmem, hne, hlev ▸ hd⟩, ?_⟩
      rintro cand ⟨hcand, hcand_ne, -⟩
      rcases hleast cand hcand hcand_ne _ (editChain_levenshtein needle cand).1 with
        hlt | ⟨heq, hle⟩
      · exact .inr (.inl (hlev ▸ hlt))
      · rcases hle.lt_or_eq with hlt | hname
        · exact .inr (.inr ⟨hlev ▸ heq, hlt⟩)
        · exact .inl hname.symm

end Limpid.Dsl.Schema
