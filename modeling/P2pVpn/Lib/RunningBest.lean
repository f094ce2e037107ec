/-
# Collecting values under a running best source

Sources arrive one after another.  Each has a rank, names some keys, and carries values for keys
that it names.  A collector keeps the best source so far and a table of values: at every arrival
it updates the best source, drops the values of keys that the best source does not name, and takes
over greater values from the new source.

The best source in the end has the greatest rank (`rank_le_rank_best`), whatever the order.  The
table does depend on the order.  `coe_le_table_iff` says which values survive: those of a source
since whose arrival every best source has named the key.  `table_eq_greatest_iff` says for which collections
of sources every order yields the greatest value of every key.
-/
import Mathlib.Algebra.Order.Ring.Nat
import Mathlib.Data.List.Induction
import Mathlib.Data.List.Sort
import Mathlib.Order.WithBot

namespace P2pVpn.Lib

section Definitions

variable {σ ρ κ ν : Type} [LinearOrder ρ] [LinearOrder ν] (rank : σ → ρ) (names : σ → κ → Bool)
  (value : σ → κ → WithBot ν)

/-- The better of two sources; the first one if neither is better. -/
def better (best s : σ) : σ := if rank best < rank s then s else best

/-- The best source after some arrivals. -/
def best (start : σ) (arrivals : List σ) : σ := arrivals.foldl (better rank) start

/-- The collector's table after some arrivals. -/
def table (start : σ) : List σ → κ → WithBot ν :=
  fun arrivals => (arrivals.foldl (fun (state : σ × (κ → WithBot ν)) s =>
    (better rank state.1 s, fun k =>
      if names (better rank state.1 s) k then state.2 k ⊔ value s k else ⊥))
    (start, value start)).2

/-- Some source carries at least `v` for a key, and all best sources since its arrival name the
key. -/
def Carried (start : σ) (arrivals : List σ) (k : κ) (v : ν) : Prop :=
  (↑v ≤ value start k ∧ ∀ later, later <+: arrivals → names (best rank start later) k = true) ∨
  ∃ before s after, arrivals = before ++ s :: after ∧ ↑v ≤ value s k ∧
    ∀ later, later <+: after → names (best rank start (before ++ s :: later)) k = true

/-- The greatest value that any source carries for a key. -/
def greatest (start : σ) (arrivals : List σ) (k : κ) : WithBot ν :=
  arrivals.foldl (fun v s => v ⊔ value s k) (value start k)

end Definitions

variable {σ ρ κ ν : Type} [LinearOrder ρ] [LinearOrder ν] {rank : σ → ρ} {names : σ → κ → Bool}
  {value : σ → κ → WithBot ν} {start : σ} {arrivals arrivals' : List σ}

/-! ## The best source -/

lemma best_concat (s : σ) :
    best rank start (arrivals ++ [s]) = better rank (best rank start arrivals) s := by
  simp [best]

lemma rank_better (b s : σ) : rank (better rank b s) = rank b ⊔ rank s := by
  unfold better
  split
  · rename_i h
    exact (max_eq_right h.le).symm
  · rename_i h
    exact (max_eq_left (not_lt.mp h)).symm

/-- The best source is one of the sources. -/
lemma best_mem : best rank start arrivals ∈ start :: arrivals := by
  induction arrivals using List.reverseRecOn with
  | nil => simp [best]
  | append_singleton arrivals s ih =>
    rw [best_concat, better]
    split
    · simp
    · rw [← List.cons_append]
      exact List.mem_append_left _ ih

/-- The best source has the greatest rank. -/
lemma rank_le_rank_best : ∀ s ∈ start :: arrivals, rank s ≤ rank (best rank start arrivals) := by
  induction arrivals using List.reverseRecOn with
  | nil => simp [best]
  | append_singleton arrivals s ih =>
    intro t ht
    rw [best_concat, @rank_better _ _ _ rank]
    rw [← List.cons_append, List.mem_append, List.mem_singleton] at ht
    rcases ht with ht | rfl
    · exact (ih t ht).trans (le_max_left _ _)
    · exact le_max_right _ _

/-! ## The table -/

lemma foldl_fst_eq_best :
    (arrivals.foldl (fun (state : σ × (κ → WithBot ν)) s =>
      (better rank state.1 s, fun k =>
        if names (better rank state.1 s) k then state.2 k ⊔ value s k else ⊥))
      (start, value start)).1 = best rank start arrivals := by
  induction arrivals using List.reverseRecOn with
  | nil => rfl
  | append_singleton arrivals s ih => rw [List.foldl_append, best_concat, ← ih]; rfl

@[simp] lemma table_nil (k : κ) : table rank names value start [] k = value start k := rfl

lemma table_concat (s : σ) (k : κ) :
    table rank names value start (arrivals ++ [s]) k
      = if names (best rank start (arrivals ++ [s])) k then
          table rank names value start arrivals k ⊔ value s k
        else ⊥ := by
  rw [best_concat, ← @foldl_fst_eq_best σ ρ κ ν _ _ rank names value start arrivals, table,
    List.foldl_append]
  rfl

lemma carried_concat {s : σ} {k : κ} {v : ν} :
    Carried rank names value start (arrivals ++ [s]) k v ↔
      names (best rank start (arrivals ++ [s])) k = true ∧
        (Carried rank names value start arrivals k v ∨ ↑v ≤ value s k) := by
  constructor
  · rintro (⟨hv, hnames⟩ | ⟨before, x, after, hsplit, hv, hnames⟩)
    · exact ⟨hnames _ List.prefix_rfl, Or.inl (Or.inl ⟨hv, fun later hlater =>
        hnames later (hlater.trans (List.prefix_append _ _))⟩)⟩
    · rcases List.eq_nil_or_concat after with rfl | ⟨after, y, rfl⟩
      · obtain ⟨rfl, hx⟩ := List.append_inj' hsplit rfl
        obtain rfl : s = x := by simpa using hx
        exact ⟨hnames [] List.prefix_rfl, Or.inr hv⟩
      · rw [List.concat_eq_append, ← List.cons_append, ← List.append_assoc] at hsplit
        obtain ⟨rfl, hy⟩ := List.append_inj' hsplit rfl
        obtain rfl : s = y := by simpa using hy
        refine ⟨by simpa using hnames _ List.prefix_rfl, Or.inl (Or.inr ⟨before, x, after, rfl, hv,
          fun later hlater => hnames later (hlater.trans (List.prefix_concat _ _))⟩)⟩
  · rintro ⟨hbest, (⟨hv, hnames⟩ | ⟨before, x, after, rfl, hv, hnames⟩) | hv⟩
    · refine Or.inl ⟨hv, fun later hlater => ?_⟩
      rcases List.prefix_concat_iff.mp hlater with rfl | hlater
      · exact hbest
      · exact hnames later hlater
    · refine Or.inr ⟨before, x, after ++ [s], by simp, hv, fun later hlater => ?_⟩
      rcases List.prefix_concat_iff.mp hlater with rfl | hlater
      · simpa using hbest
      · exact hnames later hlater
    · refine Or.inr ⟨arrivals, s, [], rfl, hv, fun later hlater => ?_⟩
      obtain rfl := List.prefix_nil.mp hlater
      exact hbest

/-- **Which values survive.**  Provided that sources carry values only for keys they name, the table
has at least `v` for a key exactly when such a value was carried to the end. -/
theorem coe_le_table_iff (hnamed : ∀ k, value start k ≠ ⊥ → names start k = true) {k : κ} {v : ν} :
    ↑v ≤ table rank names value start arrivals k ↔
      Carried rank names value start arrivals k v := by
  induction arrivals using List.reverseRecOn with
  | nil =>
    rw [table_nil]
    constructor
    · intro hv
      refine Or.inl ⟨hv, fun later hlater => ?_⟩
      obtain rfl := List.prefix_nil.mp hlater
      exact hnamed k fun hbot => by simp [hbot] at hv
    · rintro (⟨hv, -⟩ | ⟨before, s, after, hsplit, -⟩)
      · exact hv
      · simp at hsplit
  | append_singleton arrivals s ih =>
    rw [table_concat, carried_concat]
    split
    · rename_i hbest
      rw [le_sup_iff, ih]
      exact ⟨fun h => ⟨hbest, h⟩, fun h => h.2⟩
    · rename_i hbest
      refine ⟨fun h => ?_, fun h => absurd h.1 hbest⟩
      simp at h

/-! ## When the order does not matter -/

lemma le_greatest {s : σ} (hs : s ∈ start :: arrivals) (k : κ) :
    value s k ≤ greatest value start arrivals k := by
  induction arrivals using List.reverseRecOn with
  | nil =>
    obtain rfl : s = start := by simpa using hs
    exact le_rfl
  | append_singleton arrivals t ih =>
    rw [greatest, List.foldl_append]
    rw [← List.cons_append, List.mem_append, List.mem_singleton] at hs
    rcases hs with hs | rfl
    · exact (ih hs).trans le_sup_left
    · exact le_sup_right

/-- The greatest value is the value of some source. -/
lemma exists_eq_greatest (k : κ) :
    ∃ s ∈ start :: arrivals, value s k = greatest value start arrivals k := by
  induction arrivals using List.reverseRecOn with
  | nil => exact ⟨start, List.mem_cons_self, rfl⟩
  | append_singleton arrivals t ih =>
    obtain ⟨s, hs, heq⟩ := ih
    rw [greatest, List.foldl_append]
    rcases le_total (greatest value start arrivals k) (value t k) with h | h
    · exact ⟨t, by simp, (sup_eq_right.mpr h).symm⟩
    · exact ⟨s, List.mem_append_left _ hs, heq.trans (sup_eq_left.mpr h).symm⟩

lemma greatest_perm (h : arrivals.Perm arrivals') (k : κ) :
    greatest value start arrivals k = greatest value start arrivals' k := by
  have hle : ∀ {l l' : List σ}, l.Perm l' →
      greatest value start l k ≤ greatest value start l' k := by
    intro l l' hperm
    obtain ⟨s, hs, heq⟩ := @exists_eq_greatest σ κ ν _ value start l k
    rw [← heq]
    exact le_greatest ((hperm.cons start).mem_iff.mp hs) k
  exact le_antisymm (hle h) (hle h.symm)

/-- What the table holds was the value of some source. -/
lemma table_le_greatest (hnamed : ∀ k, value start k ≠ ⊥ → names start k = true) (k : κ) :
    table rank names value start arrivals k ≤ greatest value start arrivals k := by
  cases htable : table rank names value start arrivals k with
  | bot => exact bot_le
  | coe v =>
    rcases (coe_le_table_iff hnamed).mp htable.ge with ⟨hv, -⟩ | ⟨before, s, after, rfl, hv, -⟩
    · exact hv.trans (le_greatest List.mem_cons_self k)
    · exact hv.trans (le_greatest (by simp) k)

/-- A value is carried to the end if every source of higher rank names its key. -/
lemma carried_of_higher_named (hrank : ∀ s ∈ start :: arrivals, ∀ t ∈ start :: arrivals,
      rank s = rank t → names s = names t) {s : σ} (hs : s ∈ start :: arrivals) {k : κ} {v : ν}
    (hv : ↑v ≤ value s k) (hself : names s k = true)
    (hhigher : ∀ t ∈ start :: arrivals, rank s < rank t → names t k = true) :
    Carried rank names value start arrivals k v := by
  have hbest : ∀ later, later <+: arrivals → s ∈ start :: later →
      names (best rank start later) k = true := by
    intro later hlater hmem
    have hsub : start :: later ⊆ start :: arrivals := List.cons_subset_cons _ hlater.subset
    have hle : rank s ≤ rank (best rank start later) := rank_le_rank_best s hmem
    rcases hle.lt_or_eq with hlt | heq
    · exact hhigher _ (hsub best_mem) hlt
    · rw [← hrank s hs _ (hsub best_mem) heq]
      exact hself
  rcases List.mem_cons.mp hs with rfl | hs
  · exact Or.inl ⟨hv, fun later hlater => hbest later hlater List.mem_cons_self⟩
  · obtain ⟨before, after, rfl⟩ := List.append_of_mem hs
    refine Or.inr ⟨before, s, after, rfl, hv, fun later hlater => hbest _ ?_ (by simp)⟩
    exact (List.prefix_append_right_inj before).mpr (List.cons_prefix_cons.mpr ⟨rfl, hlater⟩)

section Ascending

variable (hascending : arrivals.Pairwise fun s t => rank s ≤ rank t)
  (hstart : ∀ s ∈ arrivals, rank start ≤ rank s)
  (hrank : ∀ s ∈ start :: arrivals, ∀ t ∈ start :: arrivals, rank s = rank t → names s = names t)
include hascending hstart hrank

/-- When the sources arrive in ascending order, each is as good as the best one at its arrival, so
the two name the same keys. -/
lemma names_best_of_ascending {before : List σ} {t : σ} (hpre : before ++ [t] <+: arrivals) :
    names (best rank start (before ++ [t])) = names t := by
  have ht : t ∈ arrivals := hpre.subset (by simp)
  have hbest : best rank start (before ++ [t]) ∈ start :: arrivals :=
    List.cons_subset_cons _ hpre.subset best_mem
  refine hrank _ hbest t (List.mem_cons_of_mem _ ht) (le_antisymm ?_ ?_)
  · have hpair := hascending.sublist hpre.sublist
    rw [List.pairwise_append] at hpair
    have hmem := @best_mem σ ρ _ rank start (before ++ [t])
    rw [List.mem_cons, List.mem_append, List.mem_singleton] at hmem
    rcases hmem with h | h | h
    · exact h.symm ▸ hstart t ht
    · exact hpair.2.2 _ h t List.mem_cons_self
    · exact h.symm ▸ le_rfl
  · exact rank_le_rank_best t (by simp)

/-- Sources in ascending order drop what they can: a value that is still carried to the end has a
carrier all of whose superiors name the key. -/
lemma exists_carrier_of_ascending {k : κ} {v : ν}
    (hcarried : Carried rank names value start arrivals k v) :
    ∃ s ∈ start :: arrivals, ↑v ≤ value s k ∧
      ∀ t ∈ start :: arrivals, rank s < rank t → names t k = true := by
  rcases hcarried with ⟨hv, hall⟩ | ⟨before, s, after, rfl, hv, hall⟩
  · refine ⟨start, List.mem_cons_self, hv, fun t ht hlt => ?_⟩
    rcases List.mem_cons.mp ht with rfl | ht
    · exact absurd hlt (lt_irrefl _)
    · obtain ⟨before, after, rfl⟩ := List.append_of_mem ht
      have hpre : before ++ [t] <+: before ++ t :: after := ⟨after, by simp⟩
      rw [← names_best_of_ascending hascending hstart hrank hpre]
      exact hall _ hpre
  · refine ⟨s, by simp, hv, fun t ht hlt => ?_⟩
    -- a superior can only arrive after the carrier
    have hafter : t ∈ after := by
      rw [List.mem_cons, List.mem_append, List.mem_cons] at ht
      rw [List.pairwise_append] at hascending
      rcases ht with rfl | ht | rfl | ht
      · exact absurd hlt (not_lt.mpr (hstart s (by simp)))
      · exact absurd hlt (not_lt.mpr (hascending.2.2 t ht s List.mem_cons_self))
      · exact absurd hlt (lt_irrefl _)
      · exact ht
    obtain ⟨mid, rest, rfl⟩ := List.append_of_mem hafter
    have hpre : (before ++ s :: mid) ++ [t] <+: before ++ s :: (mid ++ t :: rest) :=
      ⟨rest, by simp⟩
    rw [← names_best_of_ascending hascending hstart hrank hpre]
    simpa using hall (mid ++ [t]) ⟨rest, by simp⟩

end Ascending

/-- **Independence of the order.**  Suppose that sources of equal rank name the same keys, that
sources carry values only for keys they name, and that no source is below the first one.  Then
every order of arrival yields the greatest value of every key of a top source exactly when each
such value is carried by a source all of whose superiors name the key. -/
theorem table_eq_greatest_iff
    (hrank : ∀ s ∈ start :: arrivals, ∀ t ∈ start :: arrivals, rank s = rank t →
      names s = names t)
    (hnamed : ∀ s ∈ start :: arrivals, ∀ k, value s k ≠ ⊥ → names s k = true)
    (hstart : ∀ s ∈ arrivals, rank start ≤ rank s) :
    (∀ arrivals', arrivals'.Perm arrivals → ∀ k, names (best rank start arrivals) k = true →
      table rank names value start arrivals' k = greatest value start arrivals k) ↔
    ∀ k, names (best rank start arrivals) k = true → greatest value start arrivals k ≠ ⊥ →
      ∃ s ∈ start :: arrivals, value s k = greatest value start arrivals k ∧
        ∀ t ∈ start :: arrivals, rank s < rank t → names t k = true := by
  have hnamed₀ := hnamed start List.mem_cons_self
  constructor
  · intro h k hk hbot
    obtain ⟨v, hv⟩ := WithBot.ne_bot_iff_exists.mp hbot
    -- the order in which the table drops most
    obtain ⟨sorted, hperm, hascending⟩ : ∃ sorted : List σ, sorted.Perm arrivals ∧
        sorted.Pairwise fun s t => rank s ≤ rank t :=
      ⟨arrivals.insertionSort fun s t => rank s ≤ rank t, List.perm_insertionSort _ _,
        List.pairwise_insertionSort _ _⟩
    have hmem : ∀ s, s ∈ start :: sorted ↔ s ∈ start :: arrivals := fun s =>
      (hperm.cons start).mem_iff
    have hcarried : Carried rank names value start sorted k v := by
      rw [← coe_le_table_iff hnamed₀, h sorted hperm k hk, hv]
    obtain ⟨s, hs, hle, hhigher⟩ := exists_carrier_of_ascending hascending
      (fun s hs => hstart s (hperm.subset hs))
      (fun s hs t ht => hrank s ((hmem s).mp hs) t ((hmem t).mp ht)) hcarried
    have hs' := (hmem s).mp hs
    exact ⟨s, hs', le_antisymm (le_greatest hs' k) (hv ▸ hle),
      fun t ht => hhigher t ((hmem t).mpr ht)⟩
  · intro h arrivals' hperm k hk
    refine le_antisymm ?_ ?_
    · rw [← greatest_perm hperm]
      exact table_le_greatest hnamed₀ k
    · by_cases hbot : greatest value start arrivals k = ⊥
      · rw [hbot]
        exact bot_le
      · obtain ⟨v, hv⟩ := WithBot.ne_bot_iff_exists.mp hbot
        obtain ⟨s, hs, heq, hhigher⟩ := h k hk hbot
        have hmem : ∀ s, s ∈ start :: arrivals' ↔ s ∈ start :: arrivals := fun s =>
          (hperm.cons start).mem_iff
        rw [← hv, coe_le_table_iff hnamed₀]
        refine carried_of_higher_named
          (fun s hs t ht => hrank s ((hmem s).mp hs) t ((hmem t).mp ht)) ((hmem s).mpr hs)
          (by rw [heq, hv]) (hnamed s hs k (heq ▸ hbot))
          fun t ht => hhigher t ((hmem t).mp ht)

end P2pVpn.Lib
