/-
# Merging as a transaction

The merge works on a copy of the caller's records and assigns the copy as its last statement.
`mergeInto` has the caller's records as a state that a failure does not undo, and
`merge_transactional` says what a caller can rely on: a failed merge leaves the records alone, a
successful one only appends, and repeating it does nothing.
-/
import Mathlib
import P2pVpn.Membership.History

namespace P2pVpn.Membership

open Lib

variable {T K : Type} [DecidableEq T] (env : Platform T K)

/-- `merge_membership_records_at` on the caller's records; a failure keeps what is assigned before
it. -/
def mergeInto (incoming : List SignedMembershipRecord) (networkName : String) (nowUnixSeconds : ℕ)
    (trustedIssuers : Finset String) (maxRecords : ℕ) :
    ExceptT MembershipRecordError (StateM (List SignedMembershipRecord)) MembershipRecordMergeStats := do
  let records ← get
  let (merged, stats) ← ExceptT.mk (pure (mergeMembershipRecordsAt env records incoming networkName
    nowUnixSeconds trustedIssuers maxRecords))
  set merged
  pure stats

variable {env}
  {incoming records : List SignedMembershipRecord} {maxRecords : ℕ} {networkName : String}
  {trustedIssuers : Finset String}

lemma run_mergeInto_of_error {now : ℕ} {error : MembershipRecordError}
    (h : mergeMembershipRecordsAt env records incoming networkName now trustedIssuers maxRecords
      = .error error) :
    (mergeInto env incoming networkName now trustedIssuers maxRecords).run records
      = (.error error, records) := by
  simp only [mergeInto, ExceptT.run, bind, ExceptT.bind, ExceptT.mk, StateT.bind, ExceptT.bindCont,
    get, getThe, MonadStateOf.get, liftM, monadLift, MonadLift.monadLift, ExceptT.lift,
    Functor.map, StateT.map, StateT.get, pure, StateT.pure, h]

lemma run_mergeInto_of_ok {merged : List SignedMembershipRecord} {now : ℕ}
    {stats : MembershipRecordMergeStats}
    (h : mergeMembershipRecordsAt env records incoming networkName now trustedIssuers maxRecords
      = .ok (merged, stats)) :
    (mergeInto env incoming networkName now trustedIssuers maxRecords).run records
      = (.ok stats, merged) := by
  simp only [mergeInto, ExceptT.run, bind, ExceptT.bind, ExceptT.mk, StateT.bind, ExceptT.bindCont,
    get, getThe, MonadStateOf.get, liftM, monadLift, MonadLift.monadLift, ExceptT.lift,
    Functor.map, StateT.map, StateT.get, pure, StateT.pure, h]
  rfl

/-! ## Counting -/

/-- Every turn of the merge loop counts its record once, and an accepted one is appended. -/
lemma stats_of_foldlM_mergeRecord {now : ℕ} {start progress : MergeProgress}
    (h : incoming.foldlM (mergeRecord now maxRecords) start = .ok progress) :
    progress.stats.accepted + progress.stats.ignoredStaleOrEqual =
        start.stats.accepted + start.stats.ignoredStaleOrEqual + incoming.length ∧
      progress.merged.length + start.stats.accepted =
        start.merged.length + progress.stats.accepted := by
  induction incoming generalizing start with
  | nil =>
    cases h
    exact ⟨rfl, rfl⟩
  | cons r incoming ih =>
    obtain ⟨next, hnext, hrest⟩ := foldlM_cons_eq_ok.mp h
    obtain ⟨hcount, hlength⟩ := ih hrest
    rcases mergeRecord_cases hnext with ⟨-, rfl⟩ | ⟨-, -, rfl⟩
    · simp only [MergeProgress.ignoreRecord] at hcount hlength
      rw [List.length_cons]
      omega
    · simp only [MergeProgress.push, List.length_append, List.length_singleton] at hcount hlength
      rw [List.length_cons]
      omega

lemma stats_of_merge {merged : List SignedMembershipRecord} {now : ℕ}
    {stats : MembershipRecordMergeStats}
    (h : mergeMembershipRecordsAt env records incoming networkName now trustedIssuers maxRecords
      = .ok (merged, stats)) :
    stats.accepted + stats.ignoredStaleOrEqual = incoming.length ∧
      merged.length = records.length + stats.accepted := by
  simp only [mergeMembershipRecordsAt, bind_eq_ok] at h
  obtain ⟨_, -, _, -, _, -, progress, hfold, _, -, _, -, _, -, hresult⟩ := h
  obtain ⟨hcount, hlength⟩ := stats_of_foldlM_mergeRecord hfold
  cases hresult
  simp only [Nat.zero_add, Nat.add_zero] at hcount hlength
  exact ⟨hcount, hlength⟩

/-- **Merging is a transaction.**  A merge fails and leaves the records as they are, or it appends
records, after which every incoming record is there, their number is bounded, no version has become
ambiguous and every incoming record has been counted once; the same merge again accepts nothing and
changes nothing. -/
theorem merge_transactional (env : Platform T K) (records incoming : List SignedMembershipRecord)
    (networkName : String) (now : ℕ) (trustedIssuers : Finset String) (maxRecords : ℕ) :
    (∃ error, (mergeInto env incoming networkName now trustedIssuers maxRecords).run records
        = (.error error, records)) ∨
      ∃ stats merged, (mergeInto env incoming networkName now trustedIssuers maxRecords).run records
          = (.ok stats, merged) ∧
        records <+: merged ∧ incoming ⊆ merged ∧ merged.length ≤ maxRecords ∧
        (ConflictFree records → ConflictFree merged) ∧
        stats.accepted + stats.ignoredStaleOrEqual = incoming.length ∧
        merged.length = records.length + stats.accepted ∧
        (mergeInto env incoming networkName now trustedIssuers maxRecords).run merged
          = (.ok ⟨0, incoming.length⟩, merged) := by
  cases hmerge : mergeMembershipRecordsAt env records incoming networkName now trustedIssuers
      maxRecords with
  | error error => exact Or.inl ⟨error, run_mergeInto_of_error hmerge⟩
  | ok result =>
    obtain ⟨merged, stats⟩ := result
    obtain ⟨added, rfl, outcome⟩ := mergeOutcome_of_merge hmerge
    obtain ⟨hcount, hlength⟩ := stats_of_merge hmerge
    refine Or.inr ⟨stats, records ++ added, run_mergeInto_of_ok hmerge, List.prefix_append _ _,
      outcome.incoming_subset, outcome.length_le, outcome.conflictFree, hcount, hlength, ?_⟩
    -- the replay of the merged records has checked their versions
    have hlatest : ∃ indices, latestMembershipRecordIndices (records ++ added) = .ok indices := by
      obtain ⟨_, hevaluation, -⟩ := outcome.accepted
      obtain ⟨indices, hindices, -⟩ := bind_eq_ok.mp hevaluation
      exact ⟨indices, hindices⟩
    have hvalid : ∀ r ∈ records ++ added, validateRecord env networkName r = .ok () := by
      intro r hr
      rcases List.mem_append.mp hr with hr | hr
      · exact outcome.records_valid r hr
      · exact outcome.incoming_valid r (outcome.added_sublist.subset hr)
    exact run_mergeInto_of_ok (merge_of_subset outcome.length_le hvalid hlatest
      outcome.incoming_subset now trustedIssuers)

end P2pVpn.Membership
