/-
# Stable sorting

Sorting by a key keeps the elements of one key in their order, so the sorted list only depends on
what the list has under each key (`sortBy_congr`).  Elements with different keys may come in any
order (`flatMap_eq_of_perm`).
-/
import Mathlib.Algebra.Order.Ring.Nat
import Mathlib.Data.List.Sort

namespace P2pVpn.Lib

variable {α κ : Type} [LinearOrder κ] (key : α → κ)

/-- A list sorted by a key, elements of one key in their order. -/
def sortBy (l : List α) : List α := l.insertionSort fun a b => key a ≤ key b

variable {key}

lemma perm_sortBy (l : List α) : (sortBy key l).Perm l := List.perm_insertionSort _ l

lemma pairwise_sortBy (l : List α) : (sortBy key l).Pairwise fun a b => key a ≤ key b := by
  have : IsTrans α fun a b => key a ≤ key b := ⟨fun _ _ _ h h' => le_trans h h'⟩
  have : Std.Total fun a b : α => key a ≤ key b := ⟨fun a b => le_total (key a) (key b)⟩
  exact List.pairwise_insertionSort _ l

/-- Sorting is stable. -/
lemma filter_sortBy (l : List α) (k : κ) :
    (sortBy key l).filter (key · = k) = l.filter (key · = k) := by
  have : IsTrans α fun a b => key a ≤ key b := ⟨fun _ _ _ h h' => le_trans h h'⟩
  have : Std.Total fun a b : α => key a ≤ key b := ⟨fun a b => le_total (key a) (key b)⟩
  have hsame : (l.filter (key · = k)).Pairwise fun a b => key a ≤ key b := by
    refine List.pairwise_of_forall_mem_list fun a ha b hb => ?_
    rw [of_decide_eq_true (List.mem_filter.mp ha).2, of_decide_eq_true (List.mem_filter.mp hb).2]
  have hsub : (l.filter (key · = k)).Sublist (sortBy key l) :=
    List.sublist_insertionSort hsame List.filter_sublist
  have hfilter := hsub.filter (key · = k)
  simp only [List.filter_filter, Bool.and_self] at hfilter
  exact (hfilter.eq_of_length ((perm_sortBy l).filter _).length_eq.symm).symm

/-- Lists sorted by a key are equal if they have the same elements under each key, in order. -/
lemma eq_of_pairwise_of_filter_eq {l l' : List α} (hl : l.Pairwise fun a b => key a ≤ key b)
    (hl' : l'.Pairwise fun a b => key a ≤ key b)
    (h : ∀ k, l.filter (key · = k) = l'.filter (key · = k)) : l = l' := by
  have hmem : ∀ a, a ∈ l ↔ a ∈ l' := by
    intro a
    have hkey := congrArg (a ∈ ·) (h (key a))
    simpa using hkey
  induction l generalizing l' with
  | nil =>
    symm
    exact List.eq_nil_iff_forall_not_mem.mpr fun a ha => absurd ((hmem a).mpr ha) (by simp)
  | cons a t ih =>
    cases l' with
    | nil => exact absurd ((hmem a).mp List.mem_cons_self) (by simp)
    | cons b t' =>
      -- both heads have the least key, and are the first elements with it
      have hle : ∀ c ∈ a :: t, key a ≤ key c :=
        List.forall_mem_cons.mpr ⟨le_rfl, (List.pairwise_cons.mp hl).1⟩
      have hle' : ∀ c ∈ b :: t', key b ≤ key c :=
        List.forall_mem_cons.mpr ⟨le_rfl, (List.pairwise_cons.mp hl').1⟩
      have hkey : key b = key a := le_antisymm (hle' a ((hmem a).mp List.mem_cons_self))
        (hle b ((hmem b).mpr List.mem_cons_self))
      have hhead := h (key a)
      rw [List.filter_cons_of_pos (by simp), List.filter_cons_of_pos (by simp [hkey])] at hhead
      obtain ⟨rfl, htail⟩ := List.cons.inj hhead
      have hrest : ∀ k, t.filter (key · = k) = t'.filter (key · = k) := by
        intro k
        by_cases hk : key a = k
        · rw [← hk]
          exact htail
        · have hother := h k
          rwa [List.filter_cons_of_neg (by simpa using hk),
            List.filter_cons_of_neg (by simpa using hk)] at hother
      rw [ih (List.pairwise_cons.mp hl).2 (List.pairwise_cons.mp hl').2 hrest]
      intro c
      have hc := congrArg (c ∈ ·) (hrest (key c))
      simpa using hc

/-- The sorted list only depends on what the list has under each key. -/
lemma sortBy_congr {l l' : List α} (h : ∀ k, l.filter (key · = k) = l'.filter (key · = k)) :
    sortBy key l = sortBy key l' := by
  refine eq_of_pairwise_of_filter_eq (pairwise_sortBy l) (pairwise_sortBy l') fun k => ?_
  rw [filter_sortBy, filter_sortBy, h]

/-- Sorting again after an element was appended. -/
lemma sortBy_sortBy_append (l : List α) (a : α) :
    sortBy key (sortBy key l ++ [a]) = sortBy key (l ++ [a]) := by
  refine sortBy_congr fun k => ?_
  rw [List.filter_append, List.filter_append, filter_sortBy]

/-- Elements that are told apart by their keys are sorted into one list, whatever their order. -/
lemma sortBy_eq_of_perm {l l' : List α} (hperm : l.Perm l')
    (hkey : ∀ a ∈ l, ∀ b ∈ l, key a = key b → a = b) : sortBy key l = sortBy key l' := by
  have hsorted : (sortBy key l).Perm (sortBy key l') :=
    (perm_sortBy l).trans (hperm.trans (perm_sortBy l').symm)
  refine hsorted.eq_of_pairwise (fun a b ha hb hle hle' => ?_) (pairwise_sortBy l) (pairwise_sortBy l')
  exact hkey a ((perm_sortBy l).mem_iff.mp ha) b
    (hperm.mem_iff.mpr ((perm_sortBy l').mem_iff.mp hb)) (le_antisymm hle hle')

/-- What elements with different keys contribute under one key does not depend on their order. -/
lemma flatMap_eq_of_perm {β : Type} {f : α → List β} {k : κ} {l l' : List α} (hperm : l.Perm l')
    (hkeys : l.Pairwise fun a b => key a ≠ key b) (hf : ∀ a, key a ≠ k → f a = []) :
    l.flatMap f = l'.flatMap f := by
  induction hperm with
  | nil => rfl
  | cons a hperm ih => rw [List.flatMap_cons, List.flatMap_cons, ih (List.pairwise_cons.mp hkeys).2]
  | swap a b l =>
    have hne : key b ≠ key a := (List.pairwise_cons.mp hkeys).1 a List.mem_cons_self
    simp only [List.flatMap_cons]
    by_cases ha : key a = k
    · rw [hf b (by rwa [← ha]), List.nil_append, List.nil_append]
    · rw [hf a ha, List.nil_append, List.nil_append]
  | trans h₁ h₂ ih₁ ih₂ =>
    rw [ih₁ hkeys, ih₂ ((h₁.pairwise_iff fun h => h.symm).mp hkeys)]

end P2pVpn.Lib
