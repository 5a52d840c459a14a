import Mathlib.Data.List.Basic
import Mathlib.Order.Bounds.Basic
import Mathlib.Order.MinMax

/-!
# Edit distance

The least number of single edits (a letter removed, inserted or replaced, at any place and in any
order) that turn one word into another.  A sequence of edits can be put in order from left to
right, as an alignment of the two words, and an alignment is cut at its first column; this gives the
recursion `editDistance`.
-/

namespace Limpid

variable {α : Type*}

/-- One edit: a letter of the word is removed, inserted or replaced. -/
inductive Edit : List α → List α → Prop where
  | remove (l : List α) (x : α) (r : List α) : Edit (l ++ x :: r) (l ++ r)
  | insert (l : List α) (x : α) (r : List α) : Edit (l ++ r) (l ++ x :: r)
  | replace (l : List α) (x y : α) (r : List α) : Edit (l ++ x :: r) (l ++ y :: r)

/-- A sequence of `n` edits. -/
inductive EditChain : List α → List α → ℕ → Prop where
  | refl (xs : List α) : EditChain xs xs 0
  | step {xs ys zs : List α} {n : ℕ} :
      Edit xs ys → EditChain ys zs n → EditChain xs zs (n + 1)

/-- Two words written below each other; the columns where they differ cost one. -/
inductive Alignment : List α → List α → ℕ → Prop where
  | nil : Alignment [] [] 0
  | keep (x : α) {xs ys : List α} {n : ℕ} : Alignment xs ys n → Alignment (x :: xs) (x :: ys) n
  | replace (x y : α) {xs ys : List α} {n : ℕ} :
      Alignment xs ys n → Alignment (x :: xs) (y :: ys) (n + 1)
  | remove (x : α) {xs ys : List α} {n : ℕ} : Alignment xs ys n → Alignment (x :: xs) ys (n + 1)
  | insert (y : α) {xs ys : List α} {n : ℕ} : Alignment xs ys n → Alignment xs (y :: ys) (n + 1)

namespace EditChain

theorem trans {xs ys zs : List α} {m n : ℕ} (first : EditChain xs ys m)
    (second : EditChain ys zs n) : EditChain xs zs (m + n) := by
  induction first with
  | refl xs => simpa using second
  | step edit _ ih =>
      have hchain := EditChain.step edit (ih second)
      rwa [Nat.add_right_comm] at hchain

/-- A letter in front takes no part in the edits behind it. -/
theorem cons (x : α) {xs ys : List α} {n : ℕ} (chain : EditChain xs ys n) :
    EditChain (x :: xs) (x :: ys) n := by
  induction chain with
  | refl xs => exact refl _
  | step edit _ ih =>
      apply step _ ih
      cases edit with
      | remove l y r => exact Edit.remove (x :: l) y r
      | insert l y r => exact Edit.insert (x :: l) y r
      | replace l y z r => exact Edit.replace (x :: l) y z r

end EditChain

namespace Alignment

theorem refl : ∀ xs : List α, Alignment xs xs 0
  | [] => nil
  | x :: xs => keep x (refl xs)

theorem symm {xs ys : List α} {n : ℕ} (h : Alignment xs ys n) : Alignment ys xs n := by
  induction h with
  | nil => exact nil
  | keep x _ ih => exact ih.keep x
  | replace x y _ ih => exact ih.replace y x
  | remove x _ ih => exact ih.insert x
  | insert y _ ih => exact ih.remove y

theorem append {xs ys xs' ys' : List α} {m n : ℕ} (first : Alignment xs ys m)
    (second : Alignment xs' ys' n) : Alignment (xs ++ xs') (ys ++ ys') (m + n) := by
  induction first with
  | nil => simpa using second
  | keep x _ ih => exact ih.keep x
  | replace x y _ ih => simpa [Nat.add_right_comm] using ih.replace x y
  | remove x _ ih => simpa [Nat.add_right_comm] using ih.remove x
  | insert y _ ih => simpa [Nat.add_right_comm] using ih.insert y

theorem reverse {xs ys : List α} {n : ℕ} (h : Alignment xs ys n) :
    Alignment xs.reverse ys.reverse n := by
  induction h with
  | nil => exact nil
  | keep x _ ih => simpa using ih.append ((nil).keep x)
  | replace x y _ ih => simpa using ih.append ((nil).replace x y)
  | remove x _ ih => simpa using ih.append ((nil).remove x)
  | insert y _ ih => simpa using ih.append ((nil).insert y)

/-- Two alignments over a common word in the middle give one that costs no more than both. -/
theorem trans {xs ys zs : List α} {m n : ℕ} (first : Alignment xs ys m)
    (second : Alignment ys zs n) : ∃ k ≤ m + n, Alignment xs zs k := by
  induction first generalizing zs n with
  | nil => exact ⟨n, by omega, second⟩
  | remove x _ ih =>
      obtain ⟨k, hk, h⟩ := ih second
      exact ⟨k + 1, by omega, h.remove x⟩
  | keep x first ih =>
      -- the letters that the second alignment inserts before `x` come first
      generalize hword : x :: _ = word at second
      induction second with
      | nil => cases hword
      | keep y second _ =>
          cases hword
          obtain ⟨k, hk, h⟩ := ih second
          exact ⟨k, by omega, h.keep x⟩
      | replace y z second _ =>
          cases hword
          obtain ⟨k, hk, h⟩ := ih second
          exact ⟨k + 1, by omega, h.replace x z⟩
      | remove y second _ =>
          cases hword
          obtain ⟨k, hk, h⟩ := ih second
          exact ⟨k + 1, by omega, h.remove x⟩
      | insert z _ ihInsert =>
          obtain ⟨k, hk, h⟩ := ihInsert hword
          exact ⟨k + 1, by omega, h.insert z⟩
  | replace x w first ih =>
      generalize hword : w :: _ = word at second
      induction second with
      | nil => cases hword
      | keep y second _ =>
          cases hword
          obtain ⟨k, hk, h⟩ := ih second
          exact ⟨k + 1, by omega, h.replace x w⟩
      | replace y z second _ =>
          cases hword
          obtain ⟨k, hk, h⟩ := ih second
          exact ⟨k + 1, by omega, h.replace x z⟩
      | remove y second _ =>
          cases hword
          obtain ⟨k, hk, h⟩ := ih second
          exact ⟨k + 1, by omega, h.remove x⟩
      | insert z _ ihInsert =>
          obtain ⟨k, hk, h⟩ := ihInsert hword
          exact ⟨k + 1, by omega, h.insert z⟩
  | insert w first ih =>
      generalize hword : w :: _ = word at second
      induction second with
      | nil => cases hword
      | keep y second _ =>
          cases hword
          obtain ⟨k, hk, h⟩ := ih second
          exact ⟨k + 1, by omega, h.insert w⟩
      | replace y z second _ =>
          cases hword
          obtain ⟨k, hk, h⟩ := ih second
          exact ⟨k + 1, by omega, h.insert z⟩
      | remove y second _ =>
          cases hword
          obtain ⟨k, hk, h⟩ := ih second
          exact ⟨k, by omega, h⟩
      | insert z _ ihInsert =>
          obtain ⟨k, hk, h⟩ := ihInsert hword
          exact ⟨k + 1, by omega, h.insert z⟩

/-- An alignment is read as a chain, from left to right. -/
theorem chain {xs ys : List α} {n : ℕ} (h : Alignment xs ys n) : EditChain xs ys n := by
  induction h with
  | nil => exact EditChain.refl []
  | keep x _ ih => exact ih.cons x
  | replace x y _ ih => exact (ih.cons x).trans (.step (.replace [] x y _) (.refl _))
  | remove x _ ih => exact .step (.remove [] x _) ih
  | insert y _ ih => exact ih.trans (.step (.insert [] y _) (.refl _))

end Alignment

theorem Edit.alignment {xs ys : List α} (edit : Edit xs ys) : Alignment xs ys 1 := by
  cases edit with
  | remove l x r => simpa using (Alignment.refl l).append ((Alignment.refl r).remove x)
  | insert l x r => simpa using (Alignment.refl l).append ((Alignment.refl r).insert x)
  | replace l x y r => simpa using (Alignment.refl l).append ((Alignment.refl r).replace x y)

/-- Edits in any order can be put in order from left to right, with no more of them. -/
theorem EditChain.alignment {xs ys : List α} {n : ℕ} (chain : EditChain xs ys n) :
    ∃ k ≤ n, Alignment xs ys k := by
  induction chain with
  | refl xs => exact ⟨0, le_rfl, Alignment.refl xs⟩
  | step edit _ ih =>
      obtain ⟨k, hk, h⟩ := ih
      obtain ⟨l, hl, h⟩ := edit.alignment.trans h
      exact ⟨l, by omega, h⟩

section Distance

variable [DecidableEq α]

/-- The recursion on the first column of a cheapest alignment. -/
def editDistance : List α → List α → ℕ
  | [], ys => ys.length
  | x :: xs, [] => (x :: xs).length
  | x :: xs, y :: ys =>
      min (min (editDistance xs (y :: ys) + 1) (editDistance (x :: xs) ys + 1))
        (editDistance xs ys + if x = y then 0 else 1)

@[simp] theorem editDistance_nil_left (ys : List α) : editDistance [] ys = ys.length := by
  cases ys <;> rw [editDistance]

@[simp] theorem editDistance_nil_right (xs : List α) : editDistance xs [] = xs.length := by
  cases xs <;> rw [editDistance]

theorem editDistance_cons_cons (x y : α) (xs ys : List α) :
    editDistance (x :: xs) (y :: ys) =
      min (min (editDistance xs (y :: ys) + 1) (editDistance (x :: xs) ys + 1))
        (editDistance xs ys + if x = y then 0 else 1) := by
  rw [editDistance]

theorem editDistance_remove_le (x : α) (xs ys : List α) :
    editDistance (x :: xs) ys ≤ editDistance xs ys + 1 := by
  cases ys with
  | nil => simp
  | cons y ys => rw [editDistance_cons_cons]; omega

theorem editDistance_insert_le (y : α) (xs ys : List α) :
    editDistance xs (y :: ys) ≤ editDistance xs ys + 1 := by
  cases xs with
  | nil => simp
  | cons x xs => rw [editDistance_cons_cons]; omega

theorem Alignment.editDistance_le {xs ys : List α} {n : ℕ} (h : Alignment xs ys n) :
    editDistance xs ys ≤ n := by
  induction h with
  | nil => simp
  | @keep x xs ys n _ ih =>
      rw [editDistance_cons_cons, if_pos rfl]
      omega
  | @replace x y xs ys n _ ih =>
      rw [editDistance_cons_cons]
      split <;> omega
  | @remove x xs ys n _ ih =>
      have := editDistance_remove_le x xs ys
      omega
  | @insert y xs ys n _ ih =>
      have := editDistance_insert_le y xs ys
      omega

theorem alignment_editDistance (xs ys : List α) : Alignment xs ys (editDistance xs ys) := by
  induction xs, ys using editDistance.induct with
  | case1 ys =>
      induction ys with
      | nil => simpa using Alignment.nil
      | cons y ys ih => simpa using ih.insert y
  | case2 x xs =>
      induction xs generalizing x with
      | nil => simpa using Alignment.nil.remove x
      | cons x' xs ih => simpa using (ih x').remove x
  | case3 x xs y ys ihRemove ihInsert ihBoth =>
      rw [editDistance_cons_cons]
      -- the least of the three is one of them
      rcases min_choice (min (editDistance xs (y :: ys) + 1) (editDistance (x :: xs) ys + 1))
        (editDistance xs ys + if x = y then 0 else 1) with h | h <;> rw [h]
      · rcases min_choice (editDistance xs (y :: ys) + 1) (editDistance (x :: xs) ys + 1) with
          h | h <;> rw [h]
        · exact ihRemove.remove x
        · exact ihInsert.insert y
      · split
        case isTrue heq =>
          subst heq
          exact ihBoth.keep x
        case isFalse => exact ihBoth.replace x y

/-- `editDistance` is the least number of edits from one word to the other. -/
theorem editDistance_isLeast (xs ys : List α) :
    IsLeast {n | EditChain xs ys n} (editDistance xs ys) := by
  refine ⟨(alignment_editDistance xs ys).chain, ?_⟩
  intro n hn
  obtain ⟨k, hk, h⟩ := EditChain.alignment hn
  exact h.editDistance_le.trans hk

theorem editDistance_comm (xs ys : List α) : editDistance xs ys = editDistance ys xs :=
  le_antisymm (alignment_editDistance ys xs).symm.editDistance_le
    (alignment_editDistance xs ys).symm.editDistance_le

/-- Read from the other end, an alignment costs the same. -/
theorem editDistance_reverse (xs ys : List α) :
    editDistance xs.reverse ys.reverse = editDistance xs ys := by
  apply le_antisymm (alignment_editDistance xs ys).reverse.editDistance_le
  simpa using (alignment_editDistance xs.reverse ys.reverse).reverse.editDistance_le

theorem editDistance_self (xs : List α) : editDistance xs xs = 0 :=
  Nat.le_zero.mp (Alignment.refl xs).editDistance_le

end Distance

end Limpid
