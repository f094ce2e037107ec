/-
# Sliding windows

A set of numbers of which only the largest and the `w` below it are remembered: the largest as a
number, and which of the others are in the set as bits, the bit `offset` for the number that is
`offset` below the largest.
-/
import Mathlib.Algebra.Order.Ring.Nat
import Mathlib.Data.List.Basic

namespace P2pVpn.Lib

variable {w : ℕ} {highest n : ℕ} {seen : BitVec w} {accepted : List ℕ}

/-- The window remembers the numbers. -/
structure Remembers (highest : ℕ) (seen : BitVec w) (accepted : List ℕ) : Prop where
  mem : highest ∈ accepted
  le : ∀ n ∈ accepted, n ≤ highest
  bits : ∀ offset < w, seen.getLsbD offset = true ↔ offset ≤ highest ∧ highest - offset ∈ accepted

/-- A window with one number. -/
lemma remembers_singleton (n : ℕ) : Remembers n (1 : BitVec w) [n] where
  mem := List.mem_singleton_self n
  le := by simp
  bits offset hoffset := by
    rw [show (1 : BitVec w) = 1#w from rfl, BitVec.getLsbD_one]
    simp only [List.mem_singleton, Bool.and_eq_true, decide_eq_true_eq]
    omega

namespace Remembers

/-- Which of the numbers that the window covers are in it. -/
lemma and_shiftLeft_ne_zero (h : Remembers highest seen accepted) (hle : n ≤ highest)
    (hcovers : highest - n < w) :
    seen &&& (1 : BitVec w) <<< (highest - n) ≠ 0 ↔ n ∈ accepted := by
  have hbit := h.bits (highest - n) hcovers
  rw [Nat.sub_sub_self hle] at hbit
  have hand : seen &&& (1 : BitVec w) <<< (highest - n) ≠ 0 ↔ seen.getLsbD (highest - n) = true := by
    rw [show (1 : BitVec w) <<< (highest - n) = BitVec.twoPow w (highest - n) from
      (BitVec.twoPow_eq ..).symm, BitVec.and_twoPow]
    split_ifs with hset
    · refine iff_of_true (fun hzero => ?_) hset
      have := congrArg (fun x => x.getLsbD (highest - n)) hzero
      simp [hcovers] at this
    · exact iff_of_false (fun hne => hne rfl) hset
  rw [hand, hbit]
  exact and_iff_right (Nat.sub_le ..)

/-- A number above all others. -/
lemma advance (h : Remembers highest seen accepted) (hlt : highest < n) :
    Remembers n (if n - highest ≥ w then 1 else seen <<< (n - highest) ||| 1) (n :: accepted) where
  mem := List.mem_cons_self
  le := by
    intro m hm
    rcases List.mem_cons.mp hm with rfl | hm
    · exact Nat.le_refl m
    · exact Nat.le_trans (h.le m hm) (Nat.le_of_lt hlt)
  bits offset hoffset := by
    have hold : n - offset ∈ accepted → n - highest ≤ offset := by
      intro hmem
      have := h.le _ hmem
      omega
    split_ifs with hfar
    · -- all that was remembered has left the window
      rw [show (1 : BitVec w) = 1#w from rfl, BitVec.getLsbD_one]
      simp only [Bool.and_eq_true, decide_eq_true_eq, List.mem_cons]
      constructor
      · omega
      · rintro ⟨hle, heq | hmem⟩
        · omega
        · have := hold hmem
          omega
    · rw [show (1 : BitVec w) = 1#w from rfl, BitVec.getLsbD_or, BitVec.getLsbD_one,
        BitVec.getLsbD_shiftLeft]
      simp only [Bool.or_eq_true, Bool.and_eq_true, Bool.not_eq_true', decide_eq_true_eq,
        decide_eq_false_iff_not, List.mem_cons]
      have hbits := h.bits (offset - (n - highest)) (by omega)
      rw [hbits]
      constructor
      · rintro (⟨⟨-, hge⟩, hle, hmem⟩ | ⟨-, rfl⟩)
        · rw [show highest - (offset - (n - highest)) = n - offset by omega] at hmem
          exact ⟨by omega, Or.inr hmem⟩
        · exact ⟨Nat.zero_le n, Or.inl rfl⟩
      · rintro ⟨hle, heq | hmem⟩
        · exact Or.inr ⟨by omega, by omega⟩
        · have hge := hold hmem
          rw [show n - offset = highest - (offset - (n - highest)) by omega] at hmem
          exact Or.inl ⟨⟨hoffset, by omega⟩, by omega, hmem⟩

/-- A number that the window covers. -/
lemma mark (h : Remembers highest seen accepted) (hle : n ≤ highest) (hcovers : highest - n < w) :
    Remembers highest (seen ||| (1 : BitVec w) <<< (highest - n)) (n :: accepted) where
  mem := List.mem_cons_of_mem n h.mem
  le := by
    intro m hm
    rcases List.mem_cons.mp hm with rfl | hm
    · exact hle
    · exact h.le m hm
  bits offset hoffset := by
    rw [BitVec.getLsbD_or, show (1 : BitVec w) <<< (highest - n) = BitVec.twoPow w (highest - n) from
      (BitVec.twoPow_eq ..).symm, BitVec.getLsbD_twoPow]
    simp only [Bool.or_eq_true, Bool.and_eq_true, decide_eq_true_eq, List.mem_cons,
      h.bits offset hoffset]
    constructor
    · rintro (⟨hoff, hmem⟩ | ⟨-, rfl⟩)
      · exact ⟨hoff, Or.inr hmem⟩
      · exact ⟨by omega, Or.inl (by omega)⟩
    · rintro ⟨hoff, heq | hmem⟩
      · exact Or.inr ⟨hcovers, by omega⟩
      · exact Or.inl ⟨hoff, hmem⟩

end Remembers

end P2pVpn.Lib
