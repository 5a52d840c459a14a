import Mathlib.Data.List.Forall2
import Mathlib.Data.List.Induction
import Mathlib.Data.List.Perm.Basic

/-!
# First-match grouping

A list is grouped in one pass.  An element joins the first group that it is found the same as, and
begins a group of its own when there is none.  A group is of the type of the elements, and it
changes as it takes elements in, so nothing is asked of `same`.

`Collected` says what a group is made of.  The elements of a group are a sublist of the list, and
together the groups have all of them (`exists_parts_group`).  `pairwise_group` is the rule for what
holds between any two groups.
-/

namespace Limpid.Grouping

variable {α : Type*} (same : α → α → Bool) (absorb : α → α → α)

/-- The first group that is the same takes the element in. -/
def groupInto (out : List α) (a : α) : List α :=
  match out.findIdx? (same · a) with
  | some idx => out.modify idx (absorb · a)
  | none => out ++ [a]

/-- The groups of a list. -/
def group (l : List α) : List α := l.foldl (groupInto same absorb) []

/-- A group, and what it has taken in. -/
inductive Collected : α → List α → Prop
  | single (a : α) : Collected a [a]
  | absorb {g a : α} {part : List α} :
      Collected g part → same g a → Collected (absorb g a) (part ++ [a])

variable {same absorb}

@[simp] theorem groupInto_nil (a : α) : groupInto same absorb [] a = [a] := rfl

theorem groupInto_cons_of_same {g a : α} (h : same g a) (out : List α) :
    groupInto same absorb (g :: out) a = absorb g a :: out := by
  simp [groupInto, List.findIdx?_cons, h]

theorem groupInto_cons_of_not {g a : α} (h : ¬ same g a) (out : List α) :
    groupInto same absorb (g :: out) a = g :: groupInto same absorb out a := by
  rw [groupInto, groupInto, List.findIdx?_cons, if_neg h]
  cases out.findIdx? (same · a) with
  | none => rfl
  | some idx => rfl

@[simp] theorem group_nil : group same absorb [] = [] := rfl

theorem group_concat (l : List α) (a : α) :
    group same absorb (l ++ [a]) = groupInto same absorb (group same absorb l) a :=
  List.foldl_concat ..

/-- **What is in the groups.**  `val` is what is grouped of an element. -/
theorem exists_parts_groupInto {τ : Type*} {val : τ → α} {out : List α} {parts : List (List τ)}
    (h : List.Forall₂ (fun g part => Collected same absorb g (part.map val)) out parts) (t : τ) :
    ∃ parts', List.Forall₂ (fun g part => Collected same absorb g (part.map val))
        (groupInto same absorb out (val t)) parts' ∧
      parts'.flatten.Perm (parts.flatten ++ [t]) ∧
      ∀ part' ∈ parts', part' ∈ parts ∨ ∃ part ∈ [] :: parts, part' = part ++ [t] := by
  induction h with
  | nil => exact ⟨[[t]], .cons (.single _) .nil, by simp, by simp⟩
  | @cons g part out parts hpart hrest ih =>
      by_cases hsame : same g (val t)
      · rw [groupInto_cons_of_same hsame]
        have hcollected : Collected same absorb (absorb g (val t)) ((part ++ [t]).map val) := by
          rw [List.map_append]
          exact hpart.absorb hsame
        refine ⟨(part ++ [t]) :: parts, .cons hcollected hrest, ?_, fun part' hpart' => ?_⟩
        · simp only [List.flatten_cons, List.append_assoc]
          exact List.perm_append_comm.append_left part
        · rcases List.mem_cons.mp hpart' with rfl | hmem
          · exact .inr ⟨part, by simp, rfl⟩
          · exact .inl (List.mem_cons_of_mem _ hmem)
      · rw [groupInto_cons_of_not hsame]
        obtain ⟨parts', hparts', hperm, hmem⟩ := ih
        refine ⟨part :: parts', .cons hpart hparts', ?_, fun part' hpart' => ?_⟩
        · simp only [List.flatten_cons, List.append_assoc]
          exact hperm.append_left part
        · rcases List.mem_cons.mp hpart' with rfl | hrest'
          · exact .inl List.mem_cons_self
          · rcases hmem part' hrest' with hold | ⟨grown, hgrown, rfl⟩
            · exact .inl (List.mem_cons_of_mem _ hold)
            · refine .inr ⟨grown, ?_, rfl⟩
              simp only [List.mem_cons] at hgrown ⊢
              exact hgrown.imp_right .inr

theorem forall₂_and_right {β : Type*} {R : α → β → Prop} {p : β → Prop} {l : List α} {u : List β}
    (h : List.Forall₂ R l u) (hp : ∀ b ∈ u, p b) : List.Forall₂ (fun a b => R a b ∧ p b) l u := by
  induction h with
  | nil => exact .nil
  | cons hR _ ih =>
      obtain ⟨hb, hu⟩ := List.forall_mem_cons.mp hp
      exact .cons ⟨hR, hb⟩ (ih hu)

theorem forall_mem_of_forall₂ {β : Type*} {R : α → β → Prop} {p : β → Prop} {l : List α}
    {u : List β} (h : List.Forall₂ R l u) (hp : ∀ a b, R a b → p b) : ∀ b ∈ u, p b := by
  induction h with
  | nil => simp
  | cons hR _ ih => exact List.forall_mem_cons.mpr ⟨hp _ _ hR, ih⟩

/-- **The groups of a list are made of its sublists, and of all of it.** -/
theorem exists_parts_group {τ : Type*} (val : τ → α) (l : List τ) :
    ∃ parts, List.Forall₂ (fun g part => Collected same absorb g (part.map val) ∧ part.Sublist l)
        (group same absorb (l.map val)) parts ∧ parts.flatten.Perm l := by
  have hparts : ∃ parts, List.Forall₂ (fun g part => Collected same absorb g (part.map val))
      (group same absorb (l.map val)) parts ∧ parts.flatten.Perm l ∧
        ∀ part ∈ parts, part.Sublist l := by
    induction l using List.reverseRecOn with
    | nil => exact ⟨[], .nil, .nil, by simp⟩
    | append_singleton l t ih =>
        obtain ⟨parts, hparts, hperm, hsublist⟩ := ih
        obtain ⟨parts', hparts', hperm', hmem⟩ := exists_parts_groupInto hparts t
        rw [List.map_append, List.map_singleton, group_concat]
        refine ⟨parts', hparts', hperm'.trans (hperm.append_right [t]), fun part' hpart' => ?_⟩
        rcases hmem part' hpart' with hold | ⟨part, hpart, rfl⟩
        · exact (hsublist part' hold).trans (List.sublist_append_left l [t])
        · refine List.Sublist.append_right ?_ [t]
          rcases List.mem_cons.mp hpart with rfl | hpart
          · exact List.nil_sublist l
          · exact hsublist part hpart
  obtain ⟨parts, hparts, hperm, hsublist⟩ := hparts
  exact ⟨parts, forall₂_and_right hparts hsublist, hperm⟩

theorem mem_groupInto {out : List α} {a g : α} (h : g ∈ groupInto same absorb out a) :
    g ∈ out ∨ g = a ∨ ∃ old ∈ out, g = absorb old a := by
  induction out with
  | nil => exact .inr (.inl (List.mem_singleton.mp h))
  | cons first out ih =>
      by_cases hsame : same first a
      · rw [groupInto_cons_of_same hsame] at h
        rcases List.mem_cons.mp h with rfl | hmem
        · exact .inr (.inr ⟨first, List.mem_cons_self, rfl⟩)
        · exact .inl (List.mem_cons_of_mem _ hmem)
      · rw [groupInto_cons_of_not hsame] at h
        rcases List.mem_cons.mp h with rfl | hmem
        · exact .inl List.mem_cons_self
        · rcases ih hmem with hold | rfl | ⟨old, hold, rfl⟩
          · exact .inl (List.mem_cons_of_mem _ hold)
          · exact .inr (.inl rfl)
          · exact .inr (.inr ⟨old, List.mem_cons_of_mem _ hold, rfl⟩)

section Pairwise

variable {R : α → α → Prop} (hnew : ∀ g a, ¬ same g a → R g a)
  (hleft : ∀ g a other, R g other → R (absorb g a) other)
  (hright : ∀ g a other, R other g → R other (absorb g a))

include hnew hleft hright

theorem pairwise_groupInto {out : List α} (h : out.Pairwise R) (a : α) :
    (groupInto same absorb out a).Pairwise R := by
  induction out with
  | nil => exact List.pairwise_singleton R a
  | cons g out ih =>
      obtain ⟨hfirst, hrest⟩ := List.pairwise_cons.mp h
      by_cases hsame : same g a
      · rw [groupInto_cons_of_same hsame]
        exact List.pairwise_cons.mpr ⟨fun other hother => hleft g a other (hfirst other hother),
          hrest⟩
      · rw [groupInto_cons_of_not hsame]
        refine List.pairwise_cons.mpr ⟨fun other hother => ?_, ih hrest⟩
        rcases mem_groupInto hother with hold | rfl | ⟨old, hold, rfl⟩
        · exact hfirst other hold
        · exact hnew g other hsame
        · exact hright old a g (hfirst old hold)

/-- **What holds between any two groups**: it holds of a new group and the groups that it was found
not to be the same as, and a group that takes an element in keeps it. -/
theorem pairwise_group (l : List α) : (group same absorb l).Pairwise R := by
  induction l using List.reverseRecOn with
  | nil => exact .nil
  | append_singleton l a ih =>
      rw [group_concat]
      exact pairwise_groupInto hnew hleft hright ih a

end Pairwise

end Limpid.Grouping
