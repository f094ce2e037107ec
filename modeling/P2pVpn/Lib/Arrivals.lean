/-
# Arrivals in time windows

A sequence of arrival times, the number of them in a half-open window, and what it means that
no window of a fixed length sees more than a given number.  A bound for one window length
carries over to longer windows by cutting them up (`Conforms.arrivals_le`), and it is enough to
look at the windows that start at an arrival (`conforms_of_starts`).
-/
import Mathlib.Algebra.Order.Ring.Nat
import Mathlib.Data.Finset.Max
import Mathlib.Tactic.Ring

namespace P2pVpn.Lib

/-- The number of arrivals in the half-open window `[start, start + span)`. -/
def arrivals (times : List ℕ) (start span : ℕ) : ℕ :=
  times.countP fun t => decide (start ≤ t ∧ t < start + span)

/-- No half-open window of length `span` sees more than `most` arrivals. -/
def Conforms (most span : ℕ) (times : List ℕ) : Prop :=
  ∀ start, arrivals times start span ≤ most

lemma arrivals_append (times more : List ℕ) (start span : ℕ) :
    arrivals (times ++ more) start span = arrivals times start span + arrivals more start span :=
  List.countP_append ..

/-- A window cut in two. -/
lemma arrivals_add (times : List ℕ) (start span rest : ℕ) :
    arrivals times start (span + rest) =
      arrivals times start span + arrivals times (start + span) rest := by
  induction times with
  | nil => rfl
  | cons t times ih =>
    unfold arrivals at ih ⊢
    rw [List.countP_cons, List.countP_cons, List.countP_cons, ih]
    simp only [decide_eq_true_eq]
    split_ifs <;> omega

lemma arrivals_mono {times : List ℕ} {start span span' : ℕ} (h : span ≤ span') :
    arrivals times start span ≤ arrivals times start span' := by
  obtain ⟨rest, rfl⟩ := Nat.exists_eq_add_of_le h
  rw [arrivals_add]
  exact Nat.le_add_right _ _

namespace Conforms

variable {most span : ℕ} {times : List ℕ}

lemma of_sublist {times' : List ℕ} (h : Conforms most span times) (hsub : times'.Sublist times) :
    Conforms most span times' :=
  fun start => hsub.countP_le.trans (h start)

lemma arrivals_mul_le (h : Conforms most span times) (start windows : ℕ) :
    arrivals times start (windows * span) ≤ windows * most := by
  induction windows generalizing start with
  | zero => simp [arrivals]
  | succ windows ih =>
    have hfirst := h start
    have hrest := ih (start + span)
    have hcut : (windows + 1) * span = span + windows * span := by ring
    rw [hcut, arrivals_add, Nat.succ_mul]
    omega

/-- A long window sees at most what its pieces of length `span` see, the last one cut short. -/
lemma arrivals_le (h : Conforms most span times) (hspan : 0 < span) (start length : ℕ) :
    arrivals times start (length + 1) ≤ (length / span + 1) * most := by
  refine (arrivals_mono ?_).trans (h.arrivals_mul_le start _)
  have hmod := Nat.mod_lt length hspan
  have hsplit := Nat.div_add_mod length span
  rw [Nat.add_mul, one_mul, mul_comm]
  omega

end Conforms

/-- Arrivals that lie a whole window apart never meet in one. -/
lemma conforms_one_of_spaced {span : ℕ} {times : List ℕ}
    (h : times.Pairwise fun t u => t + span ≤ u) : Conforms 1 span times := by
  intro start
  induction times with
  | nil => exact Nat.zero_le _
  | cons t times ih =>
    obtain ⟨hfar, hrest⟩ := List.pairwise_cons.mp h
    have hih := ih hrest
    unfold arrivals at hih ⊢
    rw [List.countP_cons]
    split_ifs with hin
    · have hnone : times.countP (fun u => decide (start ≤ u ∧ u < start + span)) = 0 := by
        refine List.countP_eq_zero.mpr fun u hu hwindow => ?_
        have := hfar u hu
        simp only [decide_eq_true_eq] at hin hwindow
        omega
      omega
    · omega

/-- Only the windows that start at an arrival have to be looked at. -/
lemma conforms_of_starts {most span : ℕ} {times : List ℕ}
    (h : ∀ t ∈ times, arrivals times t span ≤ most) : Conforms most span times := by
  intro start
  rcases (times.filter fun t => start ≤ t).toFinset.eq_empty_or_nonempty with hempty | hsome
  · have hnone : arrivals times start span = 0 := by
      refine List.countP_eq_zero.mpr fun t ht htrue => ?_
      have hmem : t ∈ (times.filter fun t => start ≤ t).toFinset := by
        simpa [ht] using (decide_eq_true_eq.mp htrue).1
      simp [hempty] at hmem
    omega
  · -- the first arrival at or after `start` opens a window that sees all the others
    obtain ⟨first, hfirst, hleast⟩ := Finset.exists_min_image _ id hsome
    obtain ⟨hmem, hstart⟩ : first ∈ times ∧ start ≤ first := by simpa using hfirst
    refine le_trans (List.countP_mono_left fun t ht htrue => ?_) (h first hmem)
    obtain ⟨hlow, hhigh⟩ := decide_eq_true_eq.mp htrue
    have hfirst_le : first ≤ t := hleast t (by simp [ht, hlow])
    exact decide_eq_true (by omega)

end P2pVpn.Lib
