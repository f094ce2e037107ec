/-
# Repeated retain passes

A worklist that is swept again and again: each sweep offers every pending item to a guard, and
an item that passes it is consumed and moves the state on.  Sweeps go on as long as the last
one consumed something.  This file has the sweep (`retainPass`), its iteration (`settle`), and
the items it consumes in their order (`settleLog`).  The iteration is the run of its log
(`settle_eq_foldl`), every item of the log was enabled in its turn (`settleLog_enabled`), the
log and the rest are the worklist again (`settleLog_perm`), and as many rounds as there are
items always suffice (`settle_stable`).  So the log has every item that another run of the list
consumes, if what that run enables is enabled in the end (`settleLog_subset`).
-/
import Mathlib.Algebra.Order.Ring.Nat
import Mathlib.Data.List.Basic
import Mathlib.Data.List.Induction
import Mathlib.Data.List.Perm.Basic

namespace P2pVpn.Lib

variable {σ ι : Type}

section Definitions

variable (enabled : σ → ι → Bool) (accept : σ → ι → σ)

/-- One sweep over the pending items: the state after it and the items still pending. -/
def retainPass : σ → List ι → σ × List ι
  | s, [] => (s, [])
  | s, i :: rest =>
      if enabled s i then retainPass (accept s i) rest
      else ((retainPass s rest).1, i :: (retainPass s rest).2)

/-- Sweep until nothing is pending or a sweep consumes nothing, at most `fuel` times. -/
def settle : ℕ → σ → List ι → σ × List ι
  | 0, s, pending => (s, pending)
  | fuel + 1, s, pending =>
      if pending.isEmpty then (s, pending)
      else if (retainPass enabled accept s pending).2.length < pending.length then
        settle fuel (retainPass enabled accept s pending).1 (retainPass enabled accept s pending).2
      else retainPass enabled accept s pending

/-- The items one sweep consumes. -/
def retainLog : σ → List ι → List ι
  | _, [] => []
  | s, i :: rest =>
      if enabled s i then i :: retainLog (accept s i) rest else retainLog s rest

/-- The items the whole iteration consumes, in the order in which it does. -/
def settleLog : ℕ → σ → List ι → List ι
  | 0, _, _ => []
  | fuel + 1, s, pending =>
      if pending.isEmpty then []
      else if (retainPass enabled accept s pending).2.length < pending.length then
        retainLog enabled accept s pending ++
          settleLog fuel (retainPass enabled accept s pending).1
            (retainPass enabled accept s pending).2
      else retainLog enabled accept s pending

/-- Every item of the list is enabled in the state that the items before it lead to. -/
def EnabledRun : σ → List ι → Prop
  | _, [] => True
  | s, i :: rest => enabled s i ∧ EnabledRun (accept s i) rest

end Definitions

variable {enabled : σ → ι → Bool} {accept : σ → ι → σ}

/-! ## One sweep -/

lemma retainPass_eq_foldl (s : σ) (l : List ι) :
    (retainPass enabled accept s l).1 = (retainLog enabled accept s l).foldl accept s := by
  induction l generalizing s with
  | nil => rfl
  | cons i rest ih =>
    simp only [retainPass, retainLog]
    split
    · exact ih (accept s i)
    · exact ih s

lemma retainLog_perm (s : σ) (l : List ι) :
    (retainLog enabled accept s l ++ (retainPass enabled accept s l).2).Perm l := by
  induction l generalizing s with
  | nil => exact List.Perm.refl _
  | cons i rest ih =>
    simp only [retainPass, retainLog]
    split
    · exact (ih (accept s i)).cons i
    · exact List.perm_middle.trans ((ih s).cons i)

variable {l : List ι} {s : σ}

lemma EnabledRun.append {l' : List ι} (h : EnabledRun enabled accept s l)
    (h' : EnabledRun enabled accept (l.foldl accept s) l') :
    EnabledRun enabled accept s (l ++ l') := by
  induction l generalizing s with
  | nil => exact h'
  | cons i rest ih => exact ⟨h.1, ih h.2 h'⟩

/-- An item of such a list is enabled in its turn. -/
lemma EnabledRun.enabled_of_append {l' : List ι} {i : ι}
    (h : EnabledRun enabled accept s (l ++ i :: l')) : enabled (l.foldl accept s) i = true := by
  induction l generalizing s with
  | nil => exact h.1
  | cons j rest ih => exact ih h.2

/-- Every item of such a list was enabled in some state. -/
lemma EnabledRun.exists_enabled (h : EnabledRun enabled accept s l) {i : ι} (hi : i ∈ l) :
    ∃ s, enabled s i = true := by
  obtain ⟨before, after, rfl⟩ := List.append_of_mem hi
  exact ⟨_, h.enabled_of_append⟩

lemma retainLog_enabled (s : σ) (l : List ι) :
    EnabledRun enabled accept s (retainLog enabled accept s l) := by
  induction l generalizing s with
  | nil => trivial
  | cons i rest ih =>
    simp only [retainLog]
    split
    · rename_i hi
      exact ⟨hi, ih (accept s i)⟩
    · exact ih s

/-! ## The whole iteration -/

lemma settle_eq_foldl (fuel : ℕ) (s : σ) (l : List ι) :
    (settle enabled accept fuel s l).1 = (settleLog enabled accept fuel s l).foldl accept s := by
  induction fuel generalizing s l with
  | zero => rfl
  | succ fuel ih =>
    unfold settle settleLog
    split
    · rfl
    · split
      · rw [ih, List.foldl_append, retainPass_eq_foldl]
      · exact retainPass_eq_foldl s l

lemma settleLog_enabled (fuel : ℕ) (s : σ) (l : List ι) :
    EnabledRun enabled accept s (settleLog enabled accept fuel s l) := by
  induction fuel generalizing s l with
  | zero => trivial
  | succ fuel ih =>
    unfold settleLog
    split
    · trivial
    · split
      · refine (retainLog_enabled s l).append ?_
        rw [← retainPass_eq_foldl]
        exact ih _ _
      · exact retainLog_enabled s l

lemma settleLog_perm (fuel : ℕ) (s : σ) (l : List ι) :
    (settleLog enabled accept fuel s l ++ (settle enabled accept fuel s l).2).Perm l := by
  induction fuel generalizing s l with
  | zero => exact List.Perm.refl _
  | succ fuel ih =>
    unfold settle settleLog
    split
    · exact List.Perm.refl _
    · split
      · rw [List.append_assoc]
        exact ((ih _ _).append_left _).trans (retainLog_perm s l)
      · exact retainLog_perm s l

/-- A sweep that leaves every item leaves the state, too, and finds no item enabled. -/
lemma retainPass_of_length (h : l.length ≤ (retainPass enabled accept s l).2.length) :
    retainPass enabled accept s l = (s, l) ∧ ∀ i ∈ l, enabled s i = false := by
  induction l generalizing s with
  | nil => exact ⟨rfl, by simp⟩
  | cons i rest ih =>
    have hle : ∀ s : σ, (retainPass enabled accept s rest).2.length ≤ rest.length := fun s => by
      have hlength := (@retainLog_perm σ ι enabled accept s rest).length_eq
      rw [List.length_append] at hlength
      omega
    simp only [retainPass] at h ⊢
    split at h
    · have hrest := hle (accept s i)
      rw [List.length_cons] at h
      omega
    · rename_i hi
      obtain ⟨heq, hnone⟩ := ih (Nat.le_of_succ_le_succ h)
      rw [if_neg hi, heq]
      exact ⟨rfl, List.forall_mem_cons.mpr ⟨Bool.eq_false_iff.mpr hi, hnone⟩⟩

/-- With as many rounds as there are items, nothing that is left is enabled. -/
lemma settle_stable {fuel : ℕ} (hfuel : l.length ≤ fuel) :
    ∀ i ∈ (settle enabled accept fuel s l).2,
      enabled (settle enabled accept fuel s l).1 i = false := by
  induction fuel generalizing s l with
  | zero =>
    rw [List.length_eq_zero_iff.mp (Nat.le_zero.mp hfuel)]
    exact fun i hi => absurd hi List.not_mem_nil
  | succ fuel ih =>
    unfold settle
    split
    · rename_i hempty
      rw [List.isEmpty_iff.mp hempty]
      exact fun i hi => absurd hi List.not_mem_nil
    · split
      · exact ih (by omega)
      · rename_i hlength
        obtain ⟨heq, hnone⟩ := retainPass_of_length (not_lt.mp hlength)
        rw [heq]
        exact hnone

/-- **What one run consumes, another does.**  If every item that the first run enables after items of
the second one's log is in that log or enabled when the second run has ended, the log of the second
has all items of the first. -/
lemma settleLog_subset {σ' : Type} {enabled' : σ' → ι → Bool} {accept' : σ' → ι → σ'} {s' : σ'}
    {log : List ι} (hlog : settleLog enabled' accept' l.length s' l = log)
    (h : ∀ before, before ⊆ log → ∀ i ∈ l, enabled (before.foldl accept s) i = true →
      i ∈ log ∨ enabled' (log.foldl accept' s') i = true) (fuel : ℕ) :
    settleLog enabled accept fuel s l ⊆ log := by
  have hrun := @settleLog_enabled σ ι enabled accept fuel s l
  have hitems : ∀ i ∈ settleLog enabled accept fuel s l, i ∈ l := fun i hi =>
    (settleLog_perm fuel s l).subset (List.mem_append_left _ hi)
  -- by induction on how much of the first log has been consumed
  have hprefix : ∀ before after, settleLog enabled accept fuel s l = before ++ after →
      before ⊆ log := by
    intro before
    induction before using List.reverseRecOn with
    | nil => exact fun _ _ => List.nil_subset _
    | append_singleton before i ih =>
      intro after hsplit
      rw [List.append_assoc] at hsplit
      have hbefore := ih _ hsplit
      have hi : i ∈ l := hitems i (by rw [hsplit]; simp)
      refine List.append_subset.mpr ⟨hbefore, List.cons_subset.mpr ⟨?_, List.nil_subset _⟩⟩
      rw [hsplit] at hrun
      refine (h before hbefore i hi hrun.enabled_of_append).elim id fun henabled => ?_
      have hperm := @settleLog_perm σ' ι enabled' accept' l.length s' l
      rcases List.mem_append.mp (hperm.symm.subset hi) with hmem | hrest
      · exact hlog ▸ hmem
      · have hdone := settle_stable le_rfl i hrest
        rw [settle_eq_foldl, hlog, henabled] at hdone
        cases hdone
  exact hprefix _ [] (List.append_nil _).symm

/-! ## Simulation -/

section Simulation

variable {σ' ι' : Type} {enabled' : σ' → ι' → Bool} {accept' : σ' → ι' → σ'}
  {R : σ → σ' → Prop} {f : ι → ι'}

/-- A relation that fixes which items are enabled and that survives consuming one. -/
structure Simulation (enabled : σ → ι → Bool) (accept : σ → ι → σ) (enabled' : σ' → ι' → Bool)
    (accept' : σ' → ι' → σ') (R : σ → σ' → Prop) (f : ι → ι') (l : List ι) : Prop where
  enabled_eq : ∀ s s', R s s' → ∀ i ∈ l, enabled s i = enabled' s' (f i)
  accept : ∀ s s', R s s' → ∀ i ∈ l, enabled s i = true → R (accept s i) (accept' s' (f i))

lemma Simulation.mono {l' : List ι} (h : Simulation enabled accept enabled' accept' R f l)
    (hsub : l' ⊆ l) :
    Simulation enabled accept enabled' accept' R f l' :=
  ⟨fun s s' hR i hi => h.enabled_eq s s' hR i (hsub hi),
    fun s s' hR i hi => h.accept s s' hR i (hsub hi)⟩

lemma Simulation.retainPass (h : Simulation enabled accept enabled' accept' R f l) {s' : σ'}
    (hR : R s s') :
    R (retainPass enabled accept s l).1 (retainPass enabled' accept' s' (l.map f)).1 ∧
      (Lib.retainPass enabled' accept' s' (l.map f)).2
        = (Lib.retainPass enabled accept s l).2.map f := by
  induction l generalizing s s' with
  | nil => exact ⟨hR, rfl⟩
  | cons i rest ih =>
    have hrest := h.mono (List.subset_cons_self i rest)
    have hi := h.enabled_eq s s' hR i List.mem_cons_self
    simp only [Lib.retainPass, List.map_cons, ← hi]
    split
    · rename_i hen
      exact ih hrest (h.accept s s' hR i List.mem_cons_self hen)
    · obtain ⟨h1, h2⟩ := ih hrest hR
      exact ⟨h1, by rw [h2, List.map_cons]⟩

/-- Related worklists stay related to the end. -/
lemma Simulation.settle (h : Simulation enabled accept enabled' accept' R f l) (fuel : ℕ) {s' : σ'}
    (hR : R s s') :
    R (settle enabled accept fuel s l).1 (settle enabled' accept' fuel s' (l.map f)).1 := by
  induction fuel generalizing s s' l with
  | zero => exact hR
  | succ fuel ih =>
    obtain ⟨h1, h2⟩ := h.retainPass hR
    have hsub : (Lib.retainPass enabled accept s l).2 ⊆ l := fun i hi =>
      (retainLog_perm s l).subset (List.mem_append_right _ hi)
    simp only [Lib.settle, List.isEmpty_iff, List.map_eq_nil_iff, h2, List.length_map]
    split
    · exact hR
    · split
      · exact ih (h.mono hsub) h1
      · exact h1

end Simulation

end P2pVpn.Lib
