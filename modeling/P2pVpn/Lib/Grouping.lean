/-
# Cutting sorted lists

Splitting a list into runs commutes with renaming its elements, sorting commutes with selecting,
and a list sorted by its keys is cut in two by any bound on the keys.
-/
import Mathlib.Algebra.Order.Ring.Nat
import Mathlib.Data.List.Sort
import Mathlib.Data.List.SplitBy

namespace P2pVpn.Lib

variable {α β κ : Type}

lemma splitBy_map (f : α → β) {r : α → α → Bool} {s : β → β → Bool}
    (h : ∀ x y, s (f x) (f y) = r x y) (l : List α) :
    (l.map f).splitBy s = (l.splitBy r).map (List.map f) := by
  rw [List.splitBy_eq_iff]
  refine ⟨?_, ?_, ?_, ?_⟩
  · rw [← List.map_flatten, List.flatten_splitBy]
  · intro hmem
    obtain ⟨g, hg, hnil⟩ := List.mem_map.mp hmem
    exact List.ne_nil_of_mem_splitBy hg (List.map_eq_nil_iff.mp hnil)
  · intro g hg
    obtain ⟨g', hg', rfl⟩ := List.mem_map.mp hg
    rw [List.isChain_map]
    exact (List.isChain_of_mem_splitBy hg').imp fun x y hxy => by rw [h]; exact hxy
  · rw [List.isChain_map]
    refine (List.isChain_getLast_head_splitBy r l).imp ?_
    rintro a b ⟨ha, hb, hab⟩
    refine ⟨by simpa using ha, by simpa using hb, ?_⟩
    rw [List.getLast_map, List.head_map, h, hab]

/-! ## Sorting and selecting -/

section Selecting

variable {r : α → α → Prop} [DecidableRel r] [IsTrans α r] (p : α → Bool)

lemma filter_orderedInsert {l : List α} (hsorted : l.Pairwise r) (a : α) :
    (l.orderedInsert r a).filter p
      = if p a then (l.filter p).orderedInsert r a else l.filter p := by
  induction l with
  | nil => cases h : p a <;> simp [h]
  | cons b l ih =>
    obtain ⟨hb, hl⟩ := List.pairwise_cons.mp hsorted
    by_cases hab : r a b
    · -- The new element comes first, also among the selected ones.
      have hfirst : ((b :: l).filter p).orderedInsert r a = a :: (b :: l).filter p := by
        cases hfilter : (b :: l).filter p with
        | nil => rfl
        | cons c m =>
          have hc : c ∈ b :: l :=
            List.mem_of_mem_filter (by rw [hfilter]; exact List.mem_cons_self)
          refine List.orderedInsert_cons_of_le r m ?_
          rcases List.mem_cons.mp hc with rfl | hc
          · exact hab
          · exact trans_of r hab (hb c hc)
      rw [List.orderedInsert_cons_of_le r l hab, List.filter_cons, hfirst]
    · rw [List.orderedInsert_of_not_le r l hab, List.filter_cons, ih hl, List.filter_cons]
      cases p a <;> cases p b <;> simp [hab]

/-- Selecting from a sorted list is sorting the selection. -/
lemma filter_insertionSort [Std.Total r] (l : List α) :
    (l.insertionSort r).filter p = (l.filter p).insertionSort r := by
  induction l with
  | nil => rfl
  | cons a l ih =>
    rw [List.insertionSort_cons, filter_orderedInsert p (List.pairwise_insertionSort r l), ih,
      List.filter_cons]
    cases p a <;> rfl

end Selecting

variable [LinearOrder κ] {key : α → κ}

/-- A list sorted by its keys is cut in two by any bound. -/
lemma filter_lt_append_filter_le {l : List α} (h : l.Pairwise fun a b => key a ≤ key b) (t : κ) :
    l.filter (fun a => key a < t) ++ l.filter (fun a => t ≤ key a) = l := by
  induction l with
  | nil => rfl
  | cons a l ih =>
    rw [List.pairwise_cons] at h
    by_cases ha : key a < t
    · have hna : ¬ t ≤ key a := not_le.mpr ha
      simp only [List.filter_cons, ha, hna, decide_true, decide_false, if_true, Bool.false_eq_true,
        if_false, List.cons_append, ih h.2]
    · -- From the first key at or above the bound on, all are.
      have hta : t ≤ key a := not_lt.mp ha
      have hnone : l.filter (fun b => decide (key b < t)) = [] := by
        rw [List.filter_eq_nil_iff]
        intro b hb
        simpa using hta.trans (h.1 b hb)
      have hall : l.filter (fun b => decide (t ≤ key b)) = l := by
        rw [List.filter_eq_self]
        intro b hb
        simpa using hta.trans (h.1 b hb)
      simp only [List.filter_cons, ha, hta, decide_true, decide_false, if_true, Bool.false_eq_true,
        if_false, hnone, hall, List.nil_append]

end P2pVpn.Lib
