/-
# Forwarders and their windows

However a forwarder came about, its authority is what its records or its checkpoint gave at the
beginning of its refresh window (`coherent_of_reachable`).  Inside the window nothing changes, so the
shortcuts that skip the work there do what the work would have done (`refresh_window_exact`).
-/
import P2pVpn.Checkpoint.Sample
import P2pVpn.Forward.Window

namespace P2pVpn.Forward

open Lib Net P2pVpn.Membership P2pVpn.Checkpoint

variable {T K : Type} [DecidableEq T] {env : SigningPlatform T K}

/-! ## Derived authority -/

/-- What a forwarder or an update of it has derived, and what it was derived from. -/
structure Standing (T : Type) where
  config : Config
  memberRecords : List SignedMembershipRecord
  authorization : ForwardingAuthorization T
  effectiveMembership : EffectiveMembership T
  checkpoint : Option (CheckpointProjection T)
  membershipRefreshWindow : MembershipRefreshWindow

def Forwarder.standing (forwarder : Forwarder T) : Standing T where
  config := forwarder.config
  memberRecords := forwarder.memberRecords
  authorization := forwarder.authorization
  effectiveMembership := forwarder.effectiveMembership
  checkpoint := forwarder.checkpoint
  membershipRefreshWindow := forwarder.membershipRefreshWindow

def ForwarderUpdate.standing (update : ForwarderUpdate T) : Standing T where
  config := update.config
  memberRecords := update.memberRecords
  authorization := update.authorization
  effectiveMembership := update.effectiveMembership
  checkpoint := update.checkpoint
  membershipRefreshWindow := update.membershipRefreshWindow

/-- The authority was derived at the beginning of the window, from records or from a checkpoint. -/
inductive Coherent (env : SigningPlatform T K) (localPeer : PeerId) : Standing T → Prop
  | ofRecords {config : Config} {records : List SignedMembershipRecord}
      {authorization : ForwardingAuthorization T} {membership : EffectiveMembership T} {now : ℕ}
      {order : Iteration} (hlocal : config.localPeerId env = .ok localPeer)
      (hderived : ForwardingAuthorization.fromRecords env config records now order
        = .ok (authorization, membership)) :
      Coherent env localPeer ⟨config, records, authorization, membership, none,
        .fromRecords records now⟩
  | ofCheckpoint {config : Config} {projection : CheckpointProjection T}
      {authorization : ForwardingAuthorization T} {now : ℕ} {order : Iteration}
      (hlocal : config.localPeerId env = .ok localPeer)
      (hfiled : Addressed env.toPlatform projection.members.members)
      (hconfig : projection.sanitizeConfig env config now = .ok config)
      (hderived : ForwardingAuthorization.fromCheckpoint env config
        (projection.membershipAt localPeer now) order.members = .ok authorization) :
      Coherent env localPeer ⟨config, [], authorization, projection.membershipAt localPeer now,
        some projection, projection.refreshWindow order.members now⟩

/-- An update that was prepared for a forwarder. -/
def Prepared (env : SigningPlatform T K) (base : Forwarder T) (update : ForwarderUpdate T) : Prop :=
  (∃ config now order, base.prepareReconfigure env config now order = .ok update) ∨
  (∃ config state anchor now order,
    base.prepareCheckpointReconfigure env config state anchor now order = .ok update) ∨
  ∃ records now order stats,
    base.preparePairingMembershipMerge env records now order = .ok (update, stats)

/-- The forwarders that the operations on membership lead to.  An update may have been prepared for
an earlier state of the forwarder, which has the same local peer. -/
inductive Reachable (env : SigningPlatform T K) : Forwarder T → Prop
  | fromConfig {config : Config} {now : ℕ} {order : Iteration} {forwarder : Forwarder T}
      (h : Forwarder.fromConfig env config now order = .ok forwarder) : Reachable env forwarder
  | fromCheckpointConfig {config : Config} {state : CooperativeMembershipState}
      {anchor : NetworkAnchor} {now : ℕ} {order : Iteration} {forwarder : Forwarder T}
      (h : Forwarder.fromCheckpointConfig env config state anchor now order = .ok forwarder) :
      Reachable env forwarder
  | merge {forwarder next : Forwarder T} {records : List SignedMembershipRecord} {now : ℕ}
      {order : Iteration} {stats : MembershipRecordMergeStats} (hreach : Reachable env forwarder)
      (h : forwarder.mergeMembershipRecords env records now order = .ok (next, stats)) :
      Reachable env next
  | restore {forwarder next : Forwarder T} {records : List SignedMembershipRecord} {now : ℕ}
      {order : Iteration} {stats : MembershipRecordMergeStats} (hreach : Reachable env forwarder)
      (h : forwarder.restorePersistedMembershipRecords env records now order = .ok (next, stats)) :
      Reachable env next
  | refresh {forwarder next : Forwarder T} {now : ℕ} {order : Iteration}
      {stats : MembershipRecordMergeStats} {changed : Bool} (hreach : Reachable env forwarder)
      (h : forwarder.refreshMembershipRecords env now order = .ok (next, stats, changed)) :
      Reachable env next
  | commit {forwarder base next : Forwarder T} {update : ForwarderUpdate T}
      (hreach : Reachable env forwarder) (hbase : base.localPeer = forwarder.localPeer)
      (hprepared : Prepared env base update) (hreachBase : Reachable env base)
      (h : forwarder.tryCommitReconfigure env update = .ok next ∨
        forwarder.commitCheckpointUpdate env update = .ok next ∨
        forwarder.commitPairingMembershipMerge env update = next) :
      Reachable env next

/-! ## What the operations do -/

variable {now : ℕ} {projection : CheckpointProjection T} {order : Iteration}
  {update : ForwarderUpdate T} {base forwarder next : Forwarder T}
  {records : List SignedMembershipRecord} {stats : MembershipRecordMergeStats}

/-- What an update to a checkpoint leads to. -/
lemma prepareCheckpointProjection_eq_ok {config : Config}
    (h : base.prepareCheckpointProjection env config projection now order = .ok update) :
    config.localPeerId env = .ok base.localPeer ∧
      projection.sanitizeConfig env config now = .ok update.config ∧
      ForwardingAuthorization.fromCheckpoint env update.config
        (projection.membershipAt base.localPeer now) order.members = .ok update.authorization ∧
      update.standing = ⟨update.config, [], update.authorization,
        projection.membershipAt base.localPeer now, some projection,
        projection.refreshWindow order.members now⟩ := by
  simp only [Forwarder.prepareCheckpointProjection, bind_eq_ok, mapError_eq_ok_iff, refuseIf_eq_ok,
    not_not, pure_eq_ok] at h
  obtain ⟨localPeer, hlocal, _, rfl, sanitized, hsanitized, authorization, hderived, rfl⟩ := h
  exact ⟨hlocal, hsanitized, hderived, rfl⟩

lemma prepareCheckpointProjection_coherent {config : Config}
    (hfiled : Addressed env.toPlatform projection.members.members)
    (h : base.prepareCheckpointProjection env config projection now order = .ok update) :
    Coherent env base.localPeer update.standing := by
  obtain ⟨hlocal, hsanitized, hderived, hstanding⟩ := prepareCheckpointProjection_eq_ok h
  rw [hstanding]
  exact .ofCheckpoint ((localPeerId_of_sanitizeConfig hsanitized).trans hlocal) hfiled
    (sanitizeConfig_sanitized hsanitized) hderived

lemma prepareCheckpointReconfigure_coherent {config : Config} {state : CooperativeMembershipState}
    {anchor : NetworkAnchor}
    (h : base.prepareCheckpointReconfigure env config state anchor now order = .ok update) :
    Coherent env base.localPeer update.standing := by
  rw [Forwarder.prepareCheckpointReconfigure, bind_eq_ok] at h
  obtain ⟨projection, hprojection, h⟩ := h
  obtain ⟨_, -, hprepare⟩ := bind_eq_ok.mp h
  exact prepareCheckpointProjection_coherent (addressed_of_fromState hprojection) hprepare

/-- What a merge of records that goes through leads to. -/
lemma merge_eq_ok {trustedIssuers : Finset String}
    (h : forwarder.mergeMembershipRecordsWithTrustedIssuers env records now trustedIssuers order
      = .ok (next, stats)) :
    ∃ merged derived, forwarder.checkpoint = none ∧
      mergeMembershipRecordsAt env.toPlatform forwarder.memberRecords records
        forwarder.config.network.name now trustedIssuers maxMembershipRecords
        = .ok (merged, stats) ∧
      ForwardingAuthorization.fromRecords env forwarder.config merged now order = .ok derived ∧
      next.localPeer = forwarder.localPeer ∧
      next.standing = ⟨forwarder.config, merged, derived.1, derived.2, none,
        .fromRecords merged now⟩ := by
  simp only [Forwarder.mergeMembershipRecordsWithTrustedIssuers, bind_eq_ok, mapError_eq_ok_iff,
    refuseIf_eq_ok, pure_eq_ok, Prod.mk.injEq] at h
  obtain ⟨_, hnone, ⟨merged, stats'⟩, hmerge, ⟨authorization, membership⟩, hderived, rfl, rfl⟩ := h
  have hcheckpoint : forwarder.checkpoint = none := by simpa using hnone
  refine ⟨merged, _, hcheckpoint, hmerge, hderived, rfl, ?_⟩
  simp only [Forwarder.standing, hcheckpoint]

/-- What a forwarder is derived from is what counts. -/
def Holds (env : SigningPlatform T K) (forwarder : Forwarder T) : Prop :=
  Coherent env forwarder.localPeer forwarder.standing

lemma merge_holds {trustedIssuers : Finset String}
    (hlocal : forwarder.config.localPeerId env = .ok forwarder.localPeer)
    (h : forwarder.mergeMembershipRecordsWithTrustedIssuers env records now trustedIssuers order
      = .ok (next, stats)) : Holds env next := by
  obtain ⟨merged, derived, -, -, hderived, hpeer, hstanding⟩ := merge_eq_ok h
  rw [Holds, hstanding, hpeer]
  exact .ofRecords hlocal hderived

lemma Coherent.localPeer {localPeer : PeerId} {standing : Standing T}
    (h : Coherent env localPeer standing) : standing.config.localPeerId env = .ok localPeer := by
  cases h with
  | ofRecords hlocal => exact hlocal
  | ofCheckpoint hlocal => exact hlocal

lemma Coherent.addressed {localPeer : PeerId} {standing : Standing T}
    (h : Coherent env localPeer standing) (hprojection : standing.checkpoint = some projection) :
    Addressed env.toPlatform projection.members.members := by
  cases h with
  | ofRecords => cases hprojection
  | ofCheckpoint _ hfiled =>
    obtain rfl := Option.some.inj hprojection
    exact hfiled

/-- What a forwarder without a checkpoint has derived. -/
lemma Holds.ofNone (h : Holds env forwarder) (hnone : forwarder.checkpoint = none) :
    ∃ now order, forwarder.membershipRefreshWindow = .fromRecords forwarder.memberRecords now ∧
      ForwardingAuthorization.fromRecords env forwarder.config forwarder.memberRecords now order
        = .ok (forwarder.authorization, forwarder.effectiveMembership) := by
  rw [Holds] at h
  generalize hstanding : forwarder.standing = standing at h
  cases h with
  | ofRecords _ hderived =>
    obtain ⟨rfl, rfl, rfl, rfl, -, hwindow⟩ := Standing.mk.inj hstanding
    exact ⟨_, _, hwindow, hderived⟩
  | ofCheckpoint => cases hnone.symm.trans (congrArg Standing.checkpoint hstanding)

/-- What a forwarder with a checkpoint has derived. -/
lemma Holds.ofSome (h : Holds env forwarder) (hsome : forwarder.checkpoint = some projection) :
    ∃ now order, forwarder.membershipRefreshWindow = projection.refreshWindow order now ∧
      forwarder.memberRecords = [] ∧
      projection.sanitizeConfig env forwarder.config now = .ok forwarder.config ∧
      forwarder.effectiveMembership = projection.membershipAt forwarder.localPeer now ∧
      ForwardingAuthorization.fromCheckpoint env forwarder.config
        (projection.membershipAt forwarder.localPeer now) order = .ok forwarder.authorization := by
  rw [Holds] at h
  generalize hstanding : forwarder.standing = standing at h
  cases h with
  | ofRecords => cases hsome.symm.trans (congrArg Standing.checkpoint hstanding)
  | ofCheckpoint _ _ hconfig hderived =>
    obtain ⟨rfl, hrecords, rfl, hmembership, hprojection, hwindow⟩ := Standing.mk.inj hstanding
    obtain rfl := Option.some.inj (hsome.symm.trans hprojection)
    exact ⟨_, _, hwindow, hrecords, hconfig, hmembership, hderived⟩

lemma prepared_coherent (hbase : Holds env base) (h : Prepared env base update) :
    Coherent env base.localPeer update.standing := by
  rcases h with ⟨config, now, order, h⟩ | ⟨config, state, anchor, now, order, h⟩ |
    ⟨records, now, order, stats, h⟩
  · simp only [Forwarder.prepareReconfigure, bind_eq_ok, mapError_eq_ok_iff, refuseIf_eq_ok,
      not_not] at h
    obtain ⟨localPeer, hlocal, _, rfl, h⟩ := h
    split at h
    · rename_i projection hprojection
      exact prepareCheckpointProjection_coherent (hbase.addressed hprojection) h
    · obtain ⟨derived, hderived, hupdate⟩ := bind_eq_ok.mp h
      obtain rfl := Except.ok.inj hupdate
      exact .ofRecords hlocal (mapError_eq_ok_iff.mp hderived)
  · exact prepareCheckpointReconfigure_coherent h
  · simp only [Forwarder.preparePairingMembershipMerge, bind_eq_ok, mapError_eq_ok_iff,
      pure_eq_ok, Prod.mk.injEq] at h
    obtain ⟨_, -, _, -, ⟨merged, stats'⟩, -, derived, hderived, rfl, -⟩ := h
    exact .ofRecords hbase.localPeer hderived

lemma tryCommitReconfigure_eq_ok (h : forwarder.tryCommitReconfigure env update = .ok next) :
    next.localPeer = forwarder.localPeer ∧ next.standing = update.standing := by
  obtain ⟨_, -, hnext⟩ := bind_eq_ok.mp h
  obtain rfl := Except.ok.inj hnext
  exact ⟨rfl, rfl⟩

lemma commitCheckpointUpdate_eq_ok (h : forwarder.commitCheckpointUpdate env update = .ok next) :
    next.localPeer = forwarder.localPeer ∧ next.standing = update.standing := by
  obtain ⟨_, -, h⟩ := bind_eq_ok.mp h
  obtain ⟨committed, hcommitted, hnext⟩ := bind_eq_ok.mp h
  obtain rfl := Except.ok.inj hnext
  obtain ⟨hlocal, hstanding⟩ := tryCommitReconfigure_eq_ok hcommitted
  exact ⟨hlocal, hstanding⟩

lemma commitPairingMembershipMerge_standing (forwarder : Forwarder T) (update : ForwarderUpdate T) :
    (forwarder.commitPairingMembershipMerge env update).localPeer = forwarder.localPeer ∧
      ((forwarder.commitPairingMembershipMerge env update).standing = update.standing ∨
        (forwarder.commitPairingMembershipMerge env update).standing = forwarder.standing) := by
  unfold Forwarder.commitPairingMembershipMerge Forwarder.commitReconfigure
  split
  · exact ⟨rfl, Or.inr rfl⟩
  · cases hcommit : forwarder.tryCommitReconfigure env update with
    | error error => exact ⟨rfl, Or.inr rfl⟩
    | ok committed =>
      obtain ⟨hlocal, hstanding⟩ := tryCommitReconfigure_eq_ok hcommit
      exact ⟨hlocal, Or.inl hstanding⟩

lemma projectAgain_holds (hfiled : Addressed env.toPlatform projection.members.members)
    (h : forwarder.projectAgain env projection now order = .ok next) : Holds env next := by
  obtain ⟨update, hprepare, hcommit⟩ := bind_eq_ok.mp h
  obtain ⟨hlocal, hstanding⟩ := commitCheckpointUpdate_eq_ok hcommit
  rw [Holds, hlocal, hstanding]
  exact prepareCheckpointProjection_coherent hfiled hprepare

lemma mergeMembershipRecords_holds (hholds : Holds env forwarder)
    (h : forwarder.mergeMembershipRecords env records now order = .ok (next, stats)) :
    Holds env next := by
  unfold Forwarder.mergeMembershipRecords at h
  split at h
  · rename_i projection hprojection
    obtain ⟨_, -, h⟩ := bind_eq_ok.mp h
    obtain ⟨refreshed, hrefreshed, hnext⟩ := bind_eq_ok.mp h
    obtain ⟨rfl, -⟩ := Prod.mk.inj (Except.ok.inj hnext)
    unfold Forwarder.refreshCheckpointProjection at hrefreshed
    split at hrefreshed
    · obtain rfl := Except.ok.inj hrefreshed
      exact hholds
    · exact projectAgain_holds (hholds.addressed hprojection) hrefreshed
  · split at h
    · obtain ⟨rfl, -⟩ := Prod.mk.inj (Except.ok.inj h)
      exact hholds
    · obtain ⟨trustedIssuers, -, hmerge⟩ := bind_eq_ok.mp h
      exact merge_holds hholds.localPeer hmerge

lemma refreshMembershipRecords_holds {changed : Bool} (hholds : Holds env forwarder)
    (h : forwarder.refreshMembershipRecords env now order = .ok (next, stats, changed)) :
    Holds env next := by
  obtain ⟨⟨pruned, stats'⟩, hpruned, hnext⟩ := bind_eq_ok.mp h
  obtain ⟨rfl, -⟩ := Prod.mk.inj (Except.ok.inj hnext)
  unfold Forwarder.pruneOutsideWindow at hpruned
  split at hpruned
  · obtain ⟨rfl, -⟩ := Prod.mk.inj (Except.ok.inj hpruned)
    exact hholds
  · have hprunedHolds : Holds env pruned := mergeMembershipRecords_holds hholds hpruned
    exact hprunedHolds

/-- **However a forwarder came about**, its authority was derived at the beginning of its window. -/
theorem coherent_of_reachable (h : Reachable env forwarder) :
    Coherent env forwarder.localPeer forwarder.standing := by
  induction h with
  | fromConfig h =>
    simp only [Forwarder.fromConfig, bind_eq_ok, mapError_eq_ok_iff, pure_eq_ok] at h
    obtain ⟨localPeer, hlocal, ⟨authorization, membership⟩, hderived, rfl⟩ := h
    exact .ofRecords hlocal hderived
  | fromCheckpointConfig h =>
    simp only [Forwarder.fromCheckpointConfig, bind_eq_ok, mapError_eq_ok_iff, pure_eq_ok] at h
    obtain ⟨localPeer, hlocal, projection, hprojection, sanitized, hsanitized, authorization,
      hderived, rfl⟩ := h
    exact .ofCheckpoint ((localPeerId_of_sanitizeConfig hsanitized).trans hlocal)
      (addressed_of_fromState hprojection) (sanitizeConfig_sanitized hsanitized) hderived
  | merge _ h ih => exact mergeMembershipRecords_holds ih h
  | restore _ h ih =>
    simp only [Forwarder.restorePersistedMembershipRecords, bind_eq_ok] at h
    obtain ⟨_, -, anchors, -, h⟩ := h
    split at h
    · obtain ⟨_, -, hmerge⟩ := bind_eq_ok.mp h
      exact merge_holds ih.localPeer hmerge
    · exact merge_holds ih.localPeer h
  | refresh _ h ih => exact refreshMembershipRecords_holds ih h
  | @commit forwarder base next update _ hbase hprepared _ h ih ihBase =>
    have hupdate := prepared_coherent ihBase hprepared
    rw [hbase] at hupdate
    rcases h with h | h | rfl
    · obtain ⟨hlocal, hstanding⟩ := tryCommitReconfigure_eq_ok h
      rwa [hlocal, hstanding]
    · obtain ⟨hlocal, hstanding⟩ := commitCheckpointUpdate_eq_ok h
      rwa [hlocal, hstanding]
    · obtain ⟨hlocal, hstanding | hstanding⟩ :=
        @commitPairingMembershipMerge_standing _ _ _ env forwarder update
      · rwa [hlocal, hstanding]
      · rwa [hlocal, hstanding]

/-! ## Shortcuts -/

/-- `merge_membership_records` without its shortcuts. -/
def Forwarder.mergeInFull (env : SigningPlatform T K) (forwarder : Forwarder T)
    (records : List SignedMembershipRecord) (now : ℕ) (order : Iteration) :
    Except ForwardError (Forwarder T × MembershipRecordMergeStats) :=
  match forwarder.checkpoint with
  | some checkpoint => do
      refuseIf (records ≠ []) .legacyAuthorityDisabled
      let projected ← forwarder.projectAgain env checkpoint now order
      pure (projected, ⟨0, 0⟩)
  | none => forwarder.mergeLiveRecords env records now order

/-- `refresh_membership_records` without its shortcuts. -/
def Forwarder.refreshInFull (env : SigningPlatform T K) (forwarder : Forwarder T) (now : ℕ)
    (order : Iteration) : Except ForwardError (Forwarder T × MembershipRecordMergeStats × Bool) := do
  let (pruned, stats) ← forwarder.mergeInFull env [] now order
  pure ({ pruned with membershipEffectiveRefreshPending := false }, stats,
    pruned.membershipEffectiveRefreshPending)

/-- Two forwarders that authorize the same, with the same history of changes. -/
structure SameAuthority (a b : Forwarder T) : Prop where
  localPeer : a.localPeer = b.localPeer
  config : a.config = b.config
  memberRecords : a.memberRecords = b.memberRecords
  authorization : a.authorization = b.authorization
  effectiveMembership : a.effectiveMembership = b.effectiveMembership
  checkpoint : a.checkpoint = b.checkpoint
  membershipRevision : a.membershipRevision = b.membershipRevision
  authorizationRevision : a.authorizationRevision = b.authorizationRevision
  pending : a.membershipEffectiveRefreshPending = b.membershipEffectiveRefreshPending

omit [DecidableEq T] in
/-- The checks on an update to a checkpoint. -/
lemma checkUpdate_eq_ok {new : CheckpointProjection T} (hnew : update.checkpoint = some new) :
    forwarder.checkUpdate env update = .ok () ↔
      update.config.localPeerId env = .ok forwarder.localPeer ∧
      update.sourceNetworkName = forwarder.config.network.name ∧
      (∀ old, forwarder.checkpoint = some old → old.anchor = new.anchor) ∧
      update.baseMembershipRevision = forwarder.membershipRevision ∧
      update.baseAuthorizationRevision = forwarder.authorizationRevision ∧
      update.baseCommitGeneration = forwarder.commitGeneration := by
  have hagree : Forwarder.anchorsAgree forwarder.checkpoint (some new) = true ↔
      ∀ old, forwarder.checkpoint = some old → old.anchor = new.anchor := by
    cases forwarder.checkpoint <;> simp [Forwarder.anchorsAgree]
  simp only [Forwarder.checkUpdate, hnew, bind_eq_ok, exists_unit_iff, refuseIf_eq_ok,
    Option.isNone_some, Option.isSome_some, or_true, if_true, Forwarder.checkCheckpointUpdate,
    mapError_eq_ok_iff, hagree, not_not, not_or]
  constructor
  · rintro ⟨-, localPeer, hlocal, rfl, hname, hanchors, hrevisions⟩
    exact ⟨hlocal, hname, hanchors, hrevisions⟩
  · rintro ⟨hlocal, hname, hanchors, hrevisions⟩
    exact ⟨by simp, _, hlocal, rfl, hname, hanchors, hrevisions⟩

/-- A forwarder with a valid history trusts somebody. -/
lemma Holds.exists_liveMembershipTrustAnchors (hholds : Holds env forwarder)
    (hvalid : validateMembershipRecordHistory env.toPlatform forwarder.memberRecords
      forwarder.config.network.name = .ok ()) :
    ∃ trusted, forwarder.liveMembershipTrustAnchors env = .ok trusted := by
  have hanchors := membershipTrustAnchors_eq_ok.mpr ⟨hvalid, rfl⟩
  obtain ⟨localPeer, hlocal, -⟩ := bind_eq_ok.mp hholds.localPeer
  have hlocal : forwarder.config.localPeer env = .ok localPeer := hlocal
  by_cases hempty : trustRoots forwarder.memberRecords = ∅ ∧
      ¬ forwarder.memberRecords.any (·.selfIssued) = true
  · refine ⟨{localPeer}, bind_eq_ok.mpr ⟨_, mapError_eq_ok_iff.mpr hanchors, ?_⟩⟩
    rw [if_pos hempty, hlocal]
    rfl
  · refine ⟨trustRoots forwarder.memberRecords,
      bind_eq_ok.mpr ⟨_, mapError_eq_ok_iff.mpr hanchors, ?_⟩⟩
    rw [if_neg hempty]
    rfl

/-- In its window, a forwarder that rests on records merges nothing new. -/
lemma mergeLiveRecords_of_contains (hholds : Holds env forwarder)
    (hnone : forwarder.checkpoint = none)
    (haddresses : DistinctAddresses env.toPlatform forwarder.memberRecords)
    (hwindow : forwarder.membershipRefreshWindow.contains now = true)
    (hrecords : records ⊆ forwarder.memberRecords) (order : Iteration) :
    ∃ full, forwarder.mergeLiveRecords env records now order = .ok (full, ⟨0, records.length⟩) ∧
      SameAuthority full forwarder := by
  obtain ⟨t, order₀, hstart, hderived⟩ := hholds.ofNone hnone
  have hfresh : ForwardingAuthorization.fromRecords env forwarder.config forwarder.memberRecords now
      order = .ok (forwarder.authorization, forwarder.effectiveMembership) := by
    refine (fromRecords_of_contains haddresses ?_).mp hderived
    rwa [← hstart]
  obtain ⟨membership, -, -, hmembership, -⟩ := fromRecords_eq_ok.mp hfresh
  have hvalid := valid_of_effectiveMembershipAt hmembership
  obtain ⟨trusted, htrusted⟩ := hholds.exists_liveMembershipTrustAnchors hvalid
  have hmerge := mergeMembershipRecordsAt_retained hvalid hrecords now trusted
  refine ⟨{ forwarder with membershipRefreshWindow := .fromRecords forwarder.memberRecords now },
    bind_eq_ok.mpr ⟨trusted, htrusted, ?_⟩, by constructor <;> rfl⟩
  simp [Forwarder.mergeMembershipRecordsWithTrustedIssuers, hnone, hmerge, hfresh, refuseIf,
    Except.mapError, bind, Except.bind, pure, Except.pure]

/-- In its window, a forwarder that rests on a checkpoint projects the same. -/
lemma projectAgain_of_contains (hholds : Holds env forwarder)
    (hsome : forwarder.checkpoint = some projection)
    (hwindow : forwarder.membershipRefreshWindow.contains now = true) (order : Iteration) :
    ∃ full, forwarder.projectAgain env projection now order = .ok full ∧
      SameAuthority full forwarder := by
  obtain ⟨t, order₀, hstart, hrecords, hconfig, hmembership, hderived⟩ := hholds.ofSome hsome
  have hactive : ∀ peer, projection.activeAt peer now = projection.activeAt peer t := by
    have hcontains : (projection.refreshWindow order₀ t).contains now = true := by rwa [← hstart]
    exact activeAt_of_contains hcontains
  have hsanitized : projection.sanitizeConfig env forwarder.config now = .ok forwarder.config :=
    (sanitizeConfig_congr hactive _).trans hconfig
  have hfresh : ForwardingAuthorization.fromCheckpoint env forwarder.config
      (projection.membershipAt forwarder.localPeer now) order.members = .ok forwarder.authorization := by
    rw [membershipAt_congr hactive]
    exact fromCheckpoint_order (addressed_membershipAt (hholds.addressed hsome) _ _).wellFiled hderived
  have hsame : projection.membershipAt forwarder.localPeer now = forwarder.effectiveMembership :=
    (membershipAt_congr hactive _).trans hmembership.symm
  have hprepare : ∃ update, forwarder.prepareCheckpointProjection env forwarder.config projection now
      order = .ok update ∧ update.standing = ⟨forwarder.config, [], forwarder.authorization,
        forwarder.effectiveMembership, some projection, projection.refreshWindow order.members now⟩ ∧
      forwarder.checkUpdate env update = .ok () := by
    refine ⟨_, bind_eq_ok.mpr ⟨_, mapError_eq_ok_iff.mpr hholds.localPeer, bind_eq_ok.mpr
      ⟨(), refuseIf_eq_ok.mpr (not_not.mpr rfl), bind_eq_ok.mpr ⟨_, hsanitized, bind_eq_ok.mpr
        ⟨_, mapError_eq_ok_iff.mpr hfresh, rfl⟩⟩⟩⟩, ?_, ?_⟩
    · rw [← hsame]
      rfl
    · refine (checkUpdate_eq_ok rfl).mpr ⟨hholds.localPeer, rfl, fun old hold => ?_, rfl, rfl, rfl⟩
      rw [Option.some.inj (hold.symm.trans hsome)]
  obtain ⟨update, hupdate, hstanding, hcheck⟩ := hprepare
  have hcheckpoint : update.checkpoint = forwarder.checkpoint :=
    (congrArg Standing.checkpoint hstanding).trans hsome.symm
  have hmemberRecords : update.memberRecords = forwarder.memberRecords :=
    (congrArg Standing.memberRecords hstanding).trans hrecords.symm
  have hauthorization : update.authorization = forwarder.authorization :=
    congrArg Standing.authorization hstanding
  have heffective : update.effectiveMembership = forwarder.effectiveMembership :=
    congrArg Standing.effectiveMembership hstanding
  have hincarnations : Forwarder.incarnationsChanged forwarder.checkpoint forwarder.checkpoint
      = false := by
    cases forwarder.checkpoint <;> simp [Forwarder.incarnationsChanged]
  refine ⟨_, bind_eq_ok.mpr ⟨update, hupdate, bind_eq_ok.mpr ⟨(), refuseIf_eq_ok.mpr ?_,
    bind_eq_ok.mpr ⟨_, bind_eq_ok.mpr ⟨(), hcheck, rfl⟩, rfl⟩⟩⟩, ?_⟩
  · simp [hcheckpoint, hsome]
  · refine ⟨rfl, congrArg Standing.config hstanding, hmemberRecords, hauthorization, heffective,
      hcheckpoint, ?_, ?_, ?_⟩ <;>
    simp [hcheckpoint, hmemberRecords, hauthorization, heffective, hincarnations]

/-- In its window, a forwarder does in full what the shortcut does. -/
lemma mergeInFull_of_contains (hholds : Holds env forwarder)
    (haddresses : DistinctAddresses env.toPlatform forwarder.memberRecords)
    (hwindow : forwarder.membershipRefreshWindow.contains now = true)
    (hrecords : records ⊆ forwarder.memberRecords) (order order' : Iteration) :
    ∃ full, forwarder.mergeMembershipRecords env records now order
        = .ok (forwarder, ⟨0, records.length⟩) ∧
      forwarder.mergeInFull env records now order' = .ok (full, ⟨0, records.length⟩) ∧
      SameAuthority full forwarder := by
  unfold Forwarder.mergeMembershipRecords Forwarder.mergeInFull
  cases hcheckpoint : forwarder.checkpoint with
  | none =>
    obtain ⟨full, hfull, hsame⟩ :=
      mergeLiveRecords_of_contains hholds hcheckpoint haddresses hwindow hrecords order'
    refine ⟨full, ?_, hfull, hsame⟩
    exact if_pos ⟨hwindow, List.all_eq_true.mpr fun r hr => decide_eq_true (hrecords hr)⟩
  | some projection =>
    obtain ⟨t, order₀, -, hempty, -⟩ := hholds.ofSome hcheckpoint
    obtain rfl : records = [] := List.subset_nil.mp (hempty ▸ hrecords)
    obtain ⟨full, hfull, hsame⟩ := projectAgain_of_contains hholds hcheckpoint hwindow order'
    refine ⟨full, ?_, ?_, hsame⟩
    · exact bind_eq_ok.mpr ⟨(), refuseIf_eq_ok.mpr (by simp), bind_eq_ok.mpr ⟨forwarder,
        if_pos hwindow, rfl⟩⟩
    · exact bind_eq_ok.mpr ⟨(), refuseIf_eq_ok.mpr (by simp), bind_eq_ok.mpr ⟨full, hfull, rfl⟩⟩

/-- **Refresh windows are exact.**  Whatever is derived at the beginning of a window is derived
anywhere in it, from records and from checkpoints, whatever the orders of iteration.  So the
shortcuts of merging and refreshing leave a forwarder as the work that they skip would have left it.
The hypothesis on the records says that SHA-256 has no collision among their members. -/
theorem refresh_window_exact (env : SigningPlatform T K) :
    (∀ (config : Config) (records : List SignedMembershipRecord) (t now : ℕ)
      (order order' : Iteration),
      validateMembershipRecordHistory env.toPlatform records config.network.name = .ok () →
      DistinctAddresses env.toPlatform records →
      (MembershipRefreshWindow.fromRecords records t).contains now = true →
      effectiveMembershipAt env.toPlatform order.states records config.network.name t
        = effectiveMembershipAt env.toPlatform order'.states records config.network.name now ∧
      ∀ result, ForwardingAuthorization.fromRecords env config records t order = .ok result ↔
        ForwardingAuthorization.fromRecords env config records now order' = .ok result) ∧
    (∀ (state : CooperativeMembershipState) (localPeer : PeerId) (anchor : NetworkAnchor)
      (projection : CheckpointProjection T) (t now : ℕ) (order order' : Iteration),
      CheckpointProjection.fromState env state localPeer anchor = .ok projection →
      (projection.refreshWindow order.members t).contains now = true →
      projection.membershipAt localPeer t = projection.membershipAt localPeer now ∧
      ∀ config, projection.sanitizeConfig env config t = projection.sanitizeConfig env config now ∧
        ∀ authorization,
          ForwardingAuthorization.fromCheckpoint env config (projection.membershipAt localPeer t)
            order.members = .ok authorization ↔
          ForwardingAuthorization.fromCheckpoint env config (projection.membershipAt localPeer now)
            order'.members = .ok authorization) ∧
    ∀ (forwarder : Forwarder T) (now : ℕ) (order order' : Iteration), Reachable env forwarder →
      DistinctAddresses env.toPlatform forwarder.memberRecords →
      forwarder.membershipRefreshWindow.contains now = true →
      (∀ records, records ⊆ forwarder.memberRecords →
        ∃ full, forwarder.mergeMembershipRecords env records now order
            = .ok (forwarder, ⟨0, records.length⟩) ∧
          forwarder.mergeInFull env records now order' = .ok (full, ⟨0, records.length⟩) ∧
          SameAuthority full forwarder) ∧
      ∃ kept full,
        forwarder.refreshMembershipRecords env now order
          = .ok (kept, ⟨0, 0⟩, forwarder.membershipEffectiveRefreshPending) ∧
        forwarder.refreshInFull env now order'
          = .ok (full, ⟨0, 0⟩, forwarder.membershipEffectiveRefreshPending) ∧
        kept = { forwarder with membershipEffectiveRefreshPending := false } ∧
        SameAuthority full kept := by
  refine ⟨?_, ?_, ?_⟩
  · intro config records t now order order' hvalid haddresses hwindow
    exact ⟨(effectiveMembershipAt_of_contains hvalid haddresses hwindow _ _).symm,
      fun result => fromRecords_of_contains haddresses hwindow⟩
  · intro state localPeer anchor projection t now order order' hprojection hwindow
    have hactive := activeAt_of_contains hwindow
    have hfiled := (addressed_membershipAt (addressed_of_fromState hprojection) localPeer t).wellFiled
    refine ⟨(membershipAt_congr hactive localPeer).symm, fun config =>
      ⟨(sanitizeConfig_congr hactive config).symm, fun authorization => ?_⟩⟩
    rw [membershipAt_congr hactive]
    exact ⟨fromCheckpoint_order hfiled, fromCheckpoint_order hfiled⟩
  · intro forwarder now order order' hreach haddresses hwindow
    have hholds := coherent_of_reachable hreach
    refine ⟨fun records hrecords =>
      mergeInFull_of_contains hholds haddresses hwindow hrecords order order', ?_⟩
    obtain ⟨full, -, hfull, hsame⟩ := mergeInFull_of_contains hholds haddresses hwindow
      (List.nil_subset _) order order'
    refine ⟨_, { full with membershipEffectiveRefreshPending := false },
      bind_eq_ok.mpr ⟨(forwarder, ⟨0, 0⟩), if_pos hwindow, rfl⟩, bind_eq_ok.mpr ⟨_, hfull, ?_⟩, rfl,
      { hsame with pending := rfl }⟩
    rw [← hsame.pending]
    rfl

/-- `A` has admitted `B` until 100. -/
def sampleConfig : Config where
  network :=
    { name := "lab"
      localPeer := SamplePeer.text .A
      privateKey := none
      memberRecords := [sampleGrant .A .A 1 1 1 none "A1", sampleGrant .A .B 1 1 10 (some 100) "A2"]
      vpnIp := none
      routes := [] }
  peers := []

def sampleOrder : Iteration := ⟨.sorted, .sorted⟩

/-- The node of `A` derives the same at 20 and at 99, and its forwarder skips the work. -/
theorem sample_refresh_window :
    (∃ result,
      ForwardingAuthorization.fromRecords sampleSigning sampleConfig
        sampleConfig.network.memberRecords 20 sampleOrder = .ok result ∧
      ForwardingAuthorization.fromRecords sampleSigning sampleConfig
        sampleConfig.network.memberRecords 99 sampleOrder = .ok result) ∧
    (∃ projection, CheckpointProjection.fromState sampleSigning sampleState
        (fromLibp2p sampleSigning.toPlatform .A) sampleAnchor = .ok projection ∧
      projection.membershipAt (fromLibp2p sampleSigning.toPlatform .A) 20
        = projection.membershipAt (fromLibp2p sampleSigning.toPlatform .A) 99) ∧
    ∃ forwarder kept full,
      Forwarder.fromConfig sampleSigning sampleConfig 20 sampleOrder = .ok forwarder ∧
      forwarder.refreshMembershipRecords sampleSigning 99 sampleOrder = .ok (kept, ⟨0, 0⟩, false) ∧
      forwarder.refreshInFull sampleSigning 99 sampleOrder = .ok (full, ⟨0, 0⟩, false) ∧
      SameAuthority full kept := by
  obtain ⟨records, checkpoint, forwarders⟩ := refresh_window_exact sampleSigning
  have haddresses : DistinctAddresses sampleSigning.toPlatform sampleConfig.network.memberRecords := by
    unfold DistinctAddresses
    decide +kernel
  refine ⟨?_, ?_, ?_⟩
  · obtain ⟨result, hresult, -⟩ := exists_ok_of_any (p := fun _ => true)
      (x := ForwardingAuthorization.fromRecords sampleSigning sampleConfig
        sampleConfig.network.memberRecords 20 sampleOrder) (by decide +kernel)
    refine ⟨result, hresult, ((records sampleConfig sampleConfig.network.memberRecords 20 99
      sampleOrder sampleOrder (by decide +kernel) haddresses (by decide)).2 result).mp hresult⟩
  · obtain ⟨projection, hprojection, hwindow⟩ := exists_ok_of_any
      (p := fun projection => (projection.refreshWindow .sorted 20).contains 99)
      (x := CheckpointProjection.fromState sampleSigning sampleState
        (fromLibp2p sampleSigning.toPlatform .A) sampleAnchor) (by decide +kernel)
    exact ⟨projection, hprojection, (checkpoint sampleState _ sampleAnchor projection 20 99
      sampleOrder sampleOrder hprojection hwindow).1⟩
  · obtain ⟨forwarder, hforwarder, hsample⟩ := exists_ok_of_any
      (p := fun forwarder => forwarder.membershipRefreshWindow.contains 99 &&
        (forwarder.memberRecords == sampleConfig.network.memberRecords &&
          !forwarder.membershipEffectiveRefreshPending))
      (x := Forwarder.fromConfig sampleSigning sampleConfig 20 sampleOrder) (by decide +kernel)
    simp only [Bool.and_eq_true, beq_iff_eq, Bool.not_eq_true'] at hsample
    obtain ⟨hwindow, hrecords, hpending⟩ := hsample
    obtain ⟨-, kept, full, hkept, hfull, -, hsame⟩ := forwarders forwarder 99 sampleOrder sampleOrder
      (.fromConfig hforwarder) (hrecords ▸ haddresses) hwindow
    rw [hpending] at hkept hfull
    exact ⟨forwarder, kept, full, hforwarder, hkept, hfull, hsame⟩

end P2pVpn.Forward
