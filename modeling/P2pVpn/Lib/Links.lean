/-
# Following links

Every node may link to one other node.  `follow` collects the nodes from a start on, the last one
first, and reports the first node that it meets twice.  When the links lead down in some rank, it
meets none twice and comes to an end (`follow_eq_ok`).
-/
import Mathlib.Algebra.Order.Ring.Nat
import Mathlib.Data.List.Chain

namespace P2pVpn.Lib

variable {ι : Type} [DecidableEq ι]

/-- Follow links, at most `fuel` of them; a node that is met twice is an error. -/
def follow (next : ι → Option ι) : ℕ → List ι → Option ι → Except ι (List ι)
  | _, path, none => .ok path
  | 0, _, some i => .error i
  | fuel + 1, path, some i =>
      if i ∈ path then .error i else follow next fuel (i :: path) (next i)

/-- **Links that lead down end.**  What is found are the nodes from one without a link to the start,
each linking to the one before it. -/
lemma follow_eq_ok {next : ι → Option ι} (P : ι → Prop) (rank : ι → ℕ)
    (hnext : ∀ i, P i → ∀ j, next i = some j → P j ∧ rank j < rank i) {fuel : ℕ} {path : List ι}
    {i : ι} (hi : P i) (hfuel : rank i < fuel) (hpath : ∀ j ∈ path, rank i < rank j) :
    ∃ before, follow next fuel path (some i) = .ok (before ++ i :: path) ∧
      (∀ j ∈ before ++ [i], P j) ∧
      (before ++ [i]).IsChain (fun a b => next b = some a) ∧
      ∃ first, (before ++ [i]).head? = some first ∧ next first = none := by
  induction fuel generalizing path i with
  | zero => exact absurd hfuel (Nat.not_lt_zero _)
  | succ fuel ih =>
    have hnew : i ∉ path := fun hmem => absurd (hpath i hmem) (lt_irrefl _)
    rw [follow, if_neg hnew]
    cases hlink : next i with
    | none =>
      refine ⟨[], by rw [follow]; rfl, ?_, List.isChain_singleton i, i, rfl, hlink⟩
      intro j hj
      rwa [List.mem_singleton.mp hj]
    | some j =>
      obtain ⟨hj, hdown⟩ := hnext i hi j hlink
      have hpath' : ∀ k ∈ i :: path, rank j < rank k := by
        intro k hk
        rcases List.mem_cons.mp hk with rfl | hk
        · exact hdown
        · exact hdown.trans (hpath k hk)
      obtain ⟨before, hfollow, hall, hchain, first, hfirst, hend⟩ :=
        ih hj (by omega) hpath'
      refine ⟨before ++ [j], ?_, ?_, ?_, first, ?_, hend⟩
      · rw [hfollow, List.append_assoc, List.singleton_append]
      · intro k hk
        rcases List.mem_append.mp hk with hk | hk
        · exact hall k hk
        · rwa [List.mem_singleton.mp hk]
      · refine List.isChain_append.mpr ⟨hchain, List.isChain_singleton i, ?_⟩
        intro a ha b hb
        obtain rfl : j = a := by simpa using ha
        obtain rfl : i = b := by simpa using hb
        exact hlink
      · rw [List.head?_append, hfirst]
        rfl

end P2pVpn.Lib
