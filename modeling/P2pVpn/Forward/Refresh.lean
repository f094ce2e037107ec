/-
# Refreshing as time passes

A merge looks at the routes that are authorized at its own time, but it may retain grants that take
effect up to a minute later.  If such a grant overlaps the routes of another member, every refresh
after it fails and the forwarder keeps the authority it has, also that of members that have run out
since (`overlapping_future_grant_blocks_refresh`).

Between issue times a membership can only lose members, which cannot make routes conflict.  So a
forwarder can always be refreshed exactly if the routes are compatible at every issue time that is
still to come (`refresh_never_stuck_iff`).
-/
import P2pVpn.Forward.Coherence

namespace P2pVpn.Forward

open Lib Net P2pVpn.Membership P2pVpn.Checkpoint

/-! ## Runs without a checkpoint -/

section Runs

variable {T K : Type} [DecidableEq T] {env : SigningPlatform T K}

/-- Successful operations on a forwarder that rests on records, at non-decreasing times, up to the
given one. -/
inductive LegacyRun (env : SigningPlatform T K) : Forwarder T → ℕ → Prop
  | construct {config : Config} {now : ℕ} {order : Iteration} {forwarder : Forwarder T}
      (h : Forwarder.fromConfig env config now order = .ok forwarder) : LegacyRun env forwarder now
  | merge {forwarder next : Forwarder T} {t now : ℕ} {records : List SignedMembershipRecord}
      {order : Iteration} {stats : MembershipRecordMergeStats} (hrun : LegacyRun env forwarder t)
      (hle : t ≤ now)
      (h : forwarder.mergeMembershipRecords env records now order = .ok (next, stats)) :
      LegacyRun env next now
  | restore {forwarder next : Forwarder T} {t now : ℕ} {records : List SignedMembershipRecord}
      {order : Iteration} {stats : MembershipRecordMergeStats} (hrun : LegacyRun env forwarder t)
      (hle : t ≤ now)
      (h : forwarder.restorePersistedMembershipRecords env records now order = .ok (next, stats)) :
      LegacyRun env next now
  | refresh {forwarder next : Forwarder T} {t now : ℕ} {order : Iteration}
      {stats : MembershipRecordMergeStats} {changed : Bool} (hrun : LegacyRun env forwarder t)
      (hle : t ≤ now)
      (h : forwarder.refreshMembershipRecords env now order = .ok (next, stats, changed)) :
      LegacyRun env next now

/-- A forwarder without a checkpoint, in its window. -/
structure LegacyAt (env : SigningPlatform T K) (forwarder : Forwarder T) (t : ℕ) : Prop where
  holds : Holds env forwarder
  none : forwarder.checkpoint = none
  window : forwarder.membershipRefreshWindow.contains t = true

lemma contains_fromRecords_self (records : List SignedMembershipRecord) (now : ℕ) :
    (MembershipRefreshWindow.fromRecords records now).contains now = true :=
  contains_fromRecords.mpr ⟨le_rfl, fun _ _ _ _ h => h⟩

variable {forwarder next : Forwarder T} {stats : MembershipRecordMergeStats}

lemma legacyAt_of_merge {records : List SignedMembershipRecord} {now : ℕ}
    {trustedIssuers : Finset String} {order : Iteration} (hholds : Holds env forwarder)
    (h : forwarder.mergeMembershipRecordsWithTrustedIssuers env records now trustedIssuers order
      = .ok (next, stats)) : LegacyAt env next now := by
  obtain ⟨merged, derived, -, -, -, -, hstanding⟩ := merge_eq_ok h
  refine ⟨merge_holds hholds.localPeer h, congrArg Standing.checkpoint hstanding, ?_⟩
  have hwindow : next.membershipRefreshWindow = .fromRecords merged now :=
    congrArg Standing.membershipRefreshWindow hstanding
  rw [hwindow]
  exact contains_fromRecords_self merged now

lemma legacyAt_of_mergeMembershipRecords {t now : ℕ} {records : List SignedMembershipRecord}
    {order : Iteration} (hat : LegacyAt env forwarder t)
    (h : forwarder.mergeMembershipRecords env records now order = .ok (next, stats)) :
    LegacyAt env next now := by
  unfold Forwarder.mergeMembershipRecords at h
  rw [hat.none] at h
  simp only [] at h
  split at h
  · rename_i hfast
    obtain ⟨rfl, -⟩ := Prod.mk.inj (Except.ok.inj h)
    exact ⟨hat.holds, hat.none, hfast.1⟩
  · obtain ⟨trustedIssuers, -, hmerge⟩ := bind_eq_ok.mp h
    exact legacyAt_of_merge hat.holds hmerge

lemma legacyAt_of_refresh {t now : ℕ} {order : Iteration} {changed : Bool}
    (hat : LegacyAt env forwarder t)
    (h : forwarder.refreshMembershipRecords env now order = .ok (next, stats, changed)) :
    LegacyAt env next now := by
  obtain ⟨⟨pruned, stats'⟩, hpruned, hnext⟩ := bind_eq_ok.mp h
  obtain ⟨rfl, -⟩ := Prod.mk.inj (Except.ok.inj hnext)
  unfold Forwarder.pruneOutsideWindow at hpruned
  split at hpruned
  · rename_i hwindow
    obtain ⟨rfl, -⟩ := Prod.mk.inj (Except.ok.inj hpruned)
    exact ⟨hat.holds, hat.none, hwindow⟩
  · obtain ⟨hholds, hnone, hwindow⟩ := legacyAt_of_mergeMembershipRecords hat hpruned
    exact ⟨hholds, hnone, hwindow⟩

/-- A run ends in a forwarder whose window has the time of the last operation. -/
lemma legacyAt_of_run {t : ℕ} (h : LegacyRun env forwarder t) : LegacyAt env forwarder t := by
  induction h with
  | construct h =>
    have hholds := coherent_of_reachable (.fromConfig h)
    simp only [Forwarder.fromConfig, bind_eq_ok, mapError_eq_ok_iff, pure_eq_ok] at h
    obtain ⟨localPeer, hlocal, ⟨authorization, membership⟩, hderived, rfl⟩ := h
    exact ⟨hholds, rfl, contains_fromRecords_self _ _⟩
  | merge _ _ h ih => exact legacyAt_of_mergeMembershipRecords ih h
  | restore _ _ h ih =>
    simp only [Forwarder.restorePersistedMembershipRecords, bind_eq_ok] at h
    obtain ⟨_, -, anchors, -, h⟩ := h
    split at h
    · obtain ⟨_, -, hmerge⟩ := bind_eq_ok.mp h
      exact legacyAt_of_merge ih.holds hmerge
    · exact legacyAt_of_merge ih.holds h
  | refresh _ _ h ih => exact legacyAt_of_refresh ih h

/-! ## When a refresh succeeds -/

variable {forwarder : Forwarder T} {t now : ℕ} {order : Iteration}

lemma LegacyAt.derived (hat : LegacyAt env forwarder t)
    (haddresses : DistinctAddresses env.toPlatform forwarder.memberRecords)
    (hwindow : forwarder.membershipRefreshWindow.contains now = true) (order : Iteration) :
    ForwardingAuthorization.fromRecords env forwarder.config forwarder.memberRecords now order
      = .ok (forwarder.authorization, forwarder.effectiveMembership) := by
  obtain ⟨start, order₀, hstart, hderived⟩ := hat.holds.ofNone hat.none
  refine (fromRecords_of_contains haddresses ?_).mp hderived
  rwa [← hstart]

lemma LegacyAt.valid (hat : LegacyAt env forwarder t) :
    validateMembershipRecordHistory env.toPlatform forwarder.memberRecords
      forwarder.config.network.name = .ok () := by
  obtain ⟨start, order₀, -, hderived⟩ := hat.holds.ofNone hat.none
  obtain ⟨membership, -, -, hmembership, -⟩ := fromRecords_eq_ok.mp hderived
  exact valid_of_effectiveMembershipAt hmembership

/-- Outside its window, the forwarder derives its authority again. -/
lemma LegacyAt.pruneOutsideWindow (hat : LegacyAt env forwarder t)
    (hwindow : ¬ forwarder.membershipRefreshWindow.contains now = true) (order : Iteration) :
    forwarder.pruneOutsideWindow env now order = forwarder.mergeLiveRecords env [] now order := by
  rw [Forwarder.pruneOutsideWindow, if_neg hwindow, Forwarder.pruneMembershipRecords,
    Forwarder.mergeMembershipRecords, hat.none]
  exact if_neg fun h => hwindow h.1

/-- What a refreshed forwarder authorizes is derived at the time of the refresh. -/
lemma LegacyAt.of_refresh (hat : LegacyAt env forwarder t)
    (haddresses : DistinctAddresses env.toPlatform forwarder.memberRecords) {changed : Bool}
    (h : forwarder.refreshMembershipRecords env now order = .ok (next, stats, changed)) :
    next.localPeer = forwarder.localPeer ∧ next.config = forwarder.config ∧
      next.memberRecords = forwarder.memberRecords ∧
      ForwardingAuthorization.fromRecords env forwarder.config forwarder.memberRecords now order
        = .ok (next.authorization, next.effectiveMembership) := by
  obtain ⟨⟨pruned, stats'⟩, hpruned, hnext⟩ := bind_eq_ok.mp h
  obtain ⟨rfl, -⟩ := Prod.mk.inj (Except.ok.inj hnext)
  by_cases hwindow : forwarder.membershipRefreshWindow.contains now = true
  · rw [Forwarder.pruneOutsideWindow, if_pos hwindow] at hpruned
    obtain ⟨rfl, -⟩ := Prod.mk.inj (Except.ok.inj hpruned)
    exact ⟨rfl, rfl, rfl, hat.derived haddresses hwindow order⟩
  · rw [hat.pruneOutsideWindow hwindow] at hpruned
    obtain ⟨trusted, -, hmerge⟩ := bind_eq_ok.mp hpruned
    obtain ⟨merged, derived, -, hmerged, hderived, hpeer, hstanding⟩ := merge_eq_ok hmerge
    rw [mergeMembershipRecordsAt_retained hat.valid (List.nil_subset _)] at hmerged
    obtain ⟨rfl, -⟩ := Prod.mk.inj (Except.ok.inj hmerged)
    refine ⟨hpeer, congrArg Standing.config hstanding, congrArg Standing.memberRecords hstanding, ?_⟩
    rw [hderived]
    refine congrArg Except.ok (Prod.ext ?_ ?_)
    · exact (congrArg Standing.authorization hstanding).symm
    · exact (congrArg Standing.effectiveMembership hstanding).symm

/-- A refresh succeeds if the authority of its time can be derived. -/
lemma LegacyAt.refresh_of_fromRecords (hat : LegacyAt env forwarder t)
    (h : ∃ result, ForwardingAuthorization.fromRecords env forwarder.config forwarder.memberRecords
      now order = .ok result) :
    ∃ next stats changed,
      forwarder.refreshMembershipRecords env now order = .ok (next, stats, changed) := by
  obtain ⟨⟨authorization, membership⟩, hresult⟩ := h
  have hpruned : ∃ pruned stats,
      forwarder.pruneOutsideWindow env now order = .ok (pruned, stats) := by
    by_cases hwindow : forwarder.membershipRefreshWindow.contains now = true
    · exact ⟨_, _, if_pos hwindow⟩
    · rw [hat.pruneOutsideWindow hwindow]
      obtain ⟨trusted, htrusted⟩ := hat.holds.exists_liveMembershipTrustAnchors hat.valid
      have hmerge := mergeMembershipRecordsAt_retained hat.valid (List.nil_subset _) now trusted
      exact ⟨_, _, bind_eq_ok.mpr ⟨trusted, htrusted, bind_eq_ok.mpr
        ⟨(), refuseIf_eq_ok.mpr (by simp [hat.none]), bind_eq_ok.mpr
          ⟨_, mapError_eq_ok_iff.mpr hmerge, bind_eq_ok.mpr
            ⟨_, mapError_eq_ok_iff.mpr hresult, rfl⟩⟩⟩⟩⟩
  obtain ⟨pruned, stats, hpruned⟩ := hpruned
  exact ⟨_, stats, _, bind_eq_ok.mpr ⟨_, hpruned, rfl⟩⟩

/-! ## Routes at later times -/

/-- At a time, the routes that the configuration and the members are authorized to can be read, and
no two of them conflict. -/
def RoutesCompatible (env : SigningPlatform T K) (config : Config)
    (records : List SignedMembershipRecord) (now : ℕ) : Prop :=
  ∀ (order : Iteration) (membership : EffectiveMembership T) (localPeer : PeerId),
    effectiveMembershipAt env.toPlatform order.states records config.network.name now
      = .ok membership →
    config.localPeerId env = .ok localPeer →
    AllRead (config.routeAttempts env localPeer membership order.members) ∧
      Net.ConflictFree (readRoutes (config.routeAttempts env localPeer membership order.members))

/-- The last time up to `now` at which a record is issued, or `t` if there is none after it. -/
lemma exists_last_issue (records : List SignedMembershipRecord) (hle : t ≤ now) :
    ∃ last, t ≤ last ∧ last ≤ now ∧ NoIssue records last now ∧
      (last = t ∨ ∃ r ∈ records, t < r.payload.issuedAtUnixSeconds ∧
        r.payload.issuedAtUnixSeconds = last) := by
  induction records with
  | nil => exact ⟨t, le_rfl, hle, fun r hr => absurd hr List.not_mem_nil, Or.inl rfl⟩
  | cons r records ih =>
    obtain ⟨last, hge, hlast, hissue, hcases⟩ := ih
    have hcases : last = t ∨ ∃ r' ∈ r :: records, t < r'.payload.issuedAtUnixSeconds ∧
        r'.payload.issuedAtUnixSeconds = last :=
      hcases.imp_right fun ⟨r', hr', h⟩ => ⟨r', List.mem_cons_of_mem r hr', h⟩
    by_cases hr : last < r.payload.issuedAtUnixSeconds ∧ r.payload.issuedAtUnixSeconds ≤ now
    · refine ⟨r.payload.issuedAtUnixSeconds, by omega, hr.2, ?_,
        Or.inr ⟨r, List.mem_cons_self, by omega, rfl⟩⟩
      refine List.forall_mem_cons.mpr ⟨by omega, fun r' hr' => ?_⟩
      have := hissue r' hr'
      omega
    · exact ⟨last, hge, hlast, List.forall_mem_cons.mpr ⟨hr, hissue⟩, hcases⟩

/-- If the routes are compatible whenever a record is issued, the authority can be derived at any
later time. -/
lemma LegacyAt.exists_fromRecords (hat : LegacyAt env forwarder t)
    (haddresses : DistinctAddresses env.toPlatform forwarder.memberRecords) (hle : t ≤ now)
    (hcompatible : ∀ record ∈ forwarder.memberRecords, t < record.payload.issuedAtUnixSeconds →
      RoutesCompatible env forwarder.config forwarder.memberRecords
        record.payload.issuedAtUnixSeconds) (order : Iteration) :
    ∃ result, ForwardingAuthorization.fromRecords env forwarder.config forwarder.memberRecords now
      order = .ok result := by
  obtain ⟨membership₀, -, peers₀, -, -, hpeers₀, -⟩ :=
    fromRecords_eq_ok.mp (hat.derived haddresses hat.window order)
  obtain ⟨last, -, hlast, hissue, hcases⟩ := exists_last_issue forwarder.memberRecords hle
  obtain ⟨earlier, hearlier, -⟩ :=
    exists_effectiveMembershipAt hat.valid haddresses order.states last
  obtain ⟨later, hlater, -⟩ := exists_effectiveMembershipAt hat.valid haddresses order.states now
  have hcompiles : ∃ table, forwarder.config.compileRoutesWithMembership env earlier order.members
      = .ok table := by
    rcases hcases with rfl | ⟨record, hrecord, hafter, rfl⟩
    · obtain ⟨membership, routes, -, hmembership, hroutes, -⟩ :=
        fromRecords_eq_ok.mp (hat.derived haddresses hat.window order)
      rw [Except.ok.inj (hearlier.symm.trans hmembership)]
      exact ⟨routes, hroutes⟩
    · exact compileRoutes_succeeds_iff.mpr ⟨_, hat.holds.localPeer,
        hcompatible record hrecord hafter order earlier _ hearlier hat.holds.localPeer⟩
  have hshrinks := shrinks_of_noIssue hat.valid haddresses hlast hissue hearlier hlater
  obtain ⟨routes, hroutes⟩ := compileRoutes_of_shrinks hshrinks hcompiles
  obtain ⟨peers, hpeers⟩ : ∃ peers, transportPeersFromMembership env forwarder.config later
      order.members = .ok peers :=
    transportPeers_succeeds_iff.mpr (transportPeers_succeeds_iff.mp ⟨peers₀, hpeers₀⟩)
  exact ⟨_, fromRecords_eq_ok.mpr ⟨later, routes, peers, hlater, hroutes, hpeers, rfl⟩⟩

end Runs

/-! ## Stale authority -/

variable {T K : Type} [LinearOrder T] {env : SigningPlatform T K} {forwarder : Forwarder T}
  {t now : ℕ} {order : Iteration}

/-- No peer whose signed state is revoked, expired or inactive has a route or a transport peer. -/
def NoStaleAuthority (env : SigningPlatform T K) (forwarder : Forwarder T) (now : ℕ) : Prop :=
  ∀ peer, SignedOut env.toPlatform forwarder.memberRecords forwarder.config.network.name peer now →
    forwarder.authorization.peers.get? peer = none ∧
      ∀ route ∈ forwarder.authorization.routes.routes, route.owner ≠ peer

/-- An authority that was derived at a time is stale then only if the local peer is signed out. -/
lemma noStaleAuthority_iff (hlocal : forwarder.config.localPeerId env = .ok forwarder.localPeer)
    (haddresses : DistinctAddresses env.toPlatform forwarder.memberRecords)
    (hderived : ForwardingAuthorization.fromRecords env forwarder.config forwarder.memberRecords now
      order = .ok (forwarder.authorization, forwarder.effectiveMembership)) :
    NoStaleAuthority env forwarder now ↔
      ¬ SignedOut env.toPlatform forwarder.memberRecords forwarder.config.network.name
        forwarder.localPeer now := by
  obtain ⟨membership, routes, peers, hmembership, hroutes, hpeers, hresult⟩ :=
    fromRecords_eq_ok.mp hderived
  obtain ⟨hauthorization, -⟩ := Prod.mk.inj hresult
  have hvalid := valid_of_effectiveMembershipAt hmembership
  have hfiled := (addressed_effectiveMembershipAt hmembership).wellFiled
  have hmem : ∀ route, route ∈ forwarder.authorization.routes.routes ↔
      Except.ok route ∈ forwarder.config.routeAttempts env forwarder.localPeer membership
        order.members := by
    intro route
    rw [hauthorization]
    exact mem_routes_of_compileRoutes hlocal hroutes
  constructor
  · -- the local peer always has its own addresses
    intro h hout
    refine (h _ hout).2 ⟨forwarder.localPeer, ⟨builtinIpv4 forwarder.localPeer, 32, le_rfl⟩, 0⟩ ?_ rfl
    exact (hmem _).mpr (by simp [Config.routeAttempts, builtinRoutes])
  · intro hlocalOut peer hout
    obtain ⟨hgoverned, hnone⟩ := governed_of_signedOut hvalid haddresses hout hmembership
    have hdenied : allowsConfiguredPeer membership forwarder.localPeer peer = false :=
      not_allows_of_governed hgoverned hnone
    refine ⟨?_, fun route hroute => ?_⟩
    · rw [hauthorization, Option.eq_none_iff_forall_ne_some]
      intro transportPeer hpeer
      have hallowed := allows_of_transportPeers hfiled hlocal hpeers hpeer
      rw [hdenied] at hallowed
      cases hallowed
    · rintro rfl
      rcases allows_of_mem_routeAttempts hfiled ((hmem route).mp hroute) with howner | hallowed
      · exact hlocalOut (howner ▸ hout)
      · rw [hdenied] at hallowed
        cases hallowed

/-- **When refreshing cannot get stuck.**  From the time of the last operation on, every refresh
succeeds and leaves no stale authority, exactly if the routes are compatible at every issue time to
come and the local peer is not signed out. -/
theorem refresh_never_stuck_iff (env : SigningPlatform T K) {forwarder : Forwarder T} {t : ℕ}
    (hrun : LegacyRun env forwarder t)
    (haddresses : DistinctAddresses env.toPlatform forwarder.memberRecords) :
    (∀ now, t ≤ now → ∀ order, ∃ next stats changed,
      forwarder.refreshMembershipRecords env now order = .ok (next, stats, changed) ∧
      NoStaleAuthority env next now) ↔
    (∀ record ∈ forwarder.memberRecords, t < record.payload.issuedAtUnixSeconds →
      RoutesCompatible env forwarder.config forwarder.memberRecords
        record.payload.issuedAtUnixSeconds) ∧
    ∀ now, t ≤ now → ¬ SignedOut env.toPlatform forwarder.memberRecords
      forwarder.config.network.name forwarder.localPeer now := by
  have hat := legacyAt_of_run hrun
  have hstale : ∀ {now : ℕ} {order : Iteration} {next : Forwarder T}
      {stats : MembershipRecordMergeStats} {changed : Bool},
      forwarder.refreshMembershipRecords env now order = .ok (next, stats, changed) →
      (NoStaleAuthority env next now ↔ ¬ SignedOut env.toPlatform forwarder.memberRecords
        forwarder.config.network.name forwarder.localPeer now) := by
    intro now order next stats changed hrefresh
    obtain ⟨hpeer, hconfig, hrecords, hderived⟩ := hat.of_refresh haddresses hrefresh
    have hiff := @noStaleAuthority_iff _ _ _ env next now order
    rw [hpeer, hconfig, hrecords] at hiff
    exact hiff hat.holds.localPeer haddresses hderived
  constructor
  · intro h
    refine ⟨fun record hrecord hafter order membership localPeer hmembership hlocal => ?_,
      fun now hle => ?_⟩
    · obtain ⟨next, stats, changed, hrefresh, -⟩ := h _ hafter.le order
      obtain ⟨-, -, -, hderived⟩ := hat.of_refresh haddresses hrefresh
      obtain ⟨membership', routes, -, hmembership', hroutes, -⟩ := fromRecords_eq_ok.mp hderived
      obtain rfl : membership' = membership := Except.ok.inj (hmembership'.symm.trans hmembership)
      obtain ⟨localPeer', hlocal', hcompatible⟩ := compileRoutes_succeeds_iff.mp ⟨routes, hroutes⟩
      obtain rfl : localPeer' = localPeer := Except.ok.inj (hlocal'.symm.trans hlocal)
      exact hcompatible
    · obtain ⟨next, stats, changed, hrefresh, hfresh⟩ := h now hle ⟨.sorted, .sorted⟩
      exact (hstale hrefresh).mp hfresh
  · rintro ⟨hcompatible, hlocalOut⟩ now hle order
    obtain ⟨next, stats, changed, hrefresh⟩ := hat.refresh_of_fromRecords
      (hat.exists_fromRecords haddresses hle hcompatible order)
    exact ⟨next, stats, changed, hrefresh, (hstale hrefresh).mpr (hlocalOut now hle)⟩

/-- `A` has admitted `B` until 100, and `C`, without a record about itself. -/
def unsignedConfig : Config where
  network :=
    { sampleConfig.network with
      memberRecords := [sampleGrant .A .B 1 1 10 (some 100) "A1", sampleGrant .A .C 1 1 11 none "A2"] }
  peers := []

/-- The node of `A` can be refreshed at any time, and does not keep `B` beyond 100. -/
theorem sample_never_stuck :
    ∃ forwarder, Forwarder.fromConfig sampleSigning unsignedConfig 20 sampleOrder = .ok forwarder ∧
      ∀ now, 20 ≤ now → ∀ order, ∃ next stats changed,
        forwarder.refreshMembershipRecords sampleSigning now order = .ok (next, stats, changed) ∧
        NoStaleAuthority sampleSigning next now := by
  obtain ⟨forwarder, hforwarder, hsample⟩ := exists_ok_of_any
    (p := fun forwarder =>
      forwarder.memberRecords == unsignedConfig.network.memberRecords &&
        forwarder.localPeer == fromLibp2p sampleSigning.toPlatform .A)
    (x := Forwarder.fromConfig sampleSigning unsignedConfig 20 sampleOrder) (by decide +kernel)
  simp only [Bool.and_eq_true, beq_iff_eq] at hsample
  obtain ⟨hrecords, hlocal⟩ := hsample
  have haddresses : DistinctAddresses sampleSigning.toPlatform forwarder.memberRecords := by
    rw [hrecords]
    unfold DistinctAddresses
    decide +kernel
  have hat := legacyAt_of_run (.construct hforwarder)
  refine ⟨forwarder, hforwarder, (refresh_never_stuck_iff sampleSigning (.construct hforwarder)
    haddresses).mpr ⟨fun record hrecord hafter => ?_, fun now _ hout => ?_⟩⟩
  · rw [hrecords] at hrecord
    have : ∀ record ∈ unsignedConfig.network.memberRecords,
        ¬ 20 < record.payload.issuedAtUnixSeconds := by decide
    exact absurd hafter (this record hrecord)
  · obtain ⟨record, hrecord, hpeer⟩ := exists_record_of_signedOut hat.valid hout
    rw [hrecords] at hrecord
    rw [hlocal] at hpeer
    have : ∀ record ∈ unsignedConfig.network.memberRecords,
        overlayPeer sampleSigning.toPlatform record.payload.memberPeer
          ≠ some (fromLibp2p sampleSigning.toPlatform .A) := by decide +kernel
    exact absurd hpeer (this record hrecord)

/-! ## A grant that blocks refreshing -/

/-- A grant of overlay membership with a route. -/
def sampleRouteGrant (issuer member : SamplePeer) (issuedAt : ℕ) (prefixText : String)
    (signature : String) : SignedMembershipRecord where
  payload :=
    { (sampleGrant issuer member 1 1 issuedAt none signature).payload with
      roles := [.overlayMember, .routeAuthority]
      routeGrants := [⟨prefixText, 0⟩] }
  signature := signature

/-- `A` has a route, and has admitted `B` until 90. -/
def routedConfig : Config where
  network :=
    { sampleConfig.network with
      memberRecords :=
        [sampleRouteGrant .A .A 1 "10.1.0.0/16" "A1", sampleGrant .A .B 1 1 10 (some 90) "A2"] }
  peers := []

/-- `C` gets a route within that of `A`, from 70 on. -/
def overlappingGrant : SignedMembershipRecord := sampleRouteGrant .A .C 70 "10.1.2.0/24" "A3"

/-- **A refresh can get stuck.**  At 20 the grant for `C` is taken.  From 70 on it is in effect, and
its route conflicts with that of `A`.  At 100 the refresh fails, and `B`, which ran out at 90, stays
authorized. -/
theorem overlapping_future_grant_blocks_refresh :
    ∃ forwarder, LegacyRun sampleSigning forwarder 20 ∧
      DistinctAddresses sampleSigning.toPlatform forwarder.memberRecords ∧
      (∀ next, forwarder.refreshMembershipRecords sampleSigning 100 sampleOrder ≠ .ok next) ∧
      SignedOut sampleSigning.toPlatform forwarder.memberRecords forwarder.config.network.name
        (fromLibp2p sampleSigning.toPlatform .B) 100 ∧
      forwarder.authorization.peers.get? (fromLibp2p sampleSigning.toPlatform .B) = some .B := by
  obtain ⟨start, hstart, hmerges⟩ := exists_ok_of_any
    (p := fun start => (start.mergeMembershipRecords sampleSigning [overlappingGrant] 20
      sampleOrder).toOption.any fun merged =>
        merged.1.memberRecords == routedConfig.network.memberRecords ++ [overlappingGrant] &&
          (merged.1.config == routedConfig &&
            (!(merged.1.refreshMembershipRecords sampleSigning 100 sampleOrder).isOk &&
              merged.1.authorization.peers.get? (fromLibp2p sampleSigning.toPlatform .B) == some .B)))
    (x := Forwarder.fromConfig sampleSigning routedConfig 20 sampleOrder) (by decide +kernel)
  obtain ⟨⟨forwarder, stats⟩, hmerge, hsample⟩ := exists_ok_of_any hmerges
  simp only [Bool.and_eq_true, beq_iff_eq, Bool.not_eq_true'] at hsample
  obtain ⟨hrecords, hconfig, hstuck, hpeer⟩ := hsample
  refine ⟨forwarder, .merge (.construct hstart) le_rfl hmerge, ?_, fun next hnext => ?_, ?_, hpeer⟩
  · rw [hrecords]
    unfold DistinctAddresses
    decide +kernel
  · rw [hnext] at hstuck
    cases hstuck
  · rw [hrecords, hconfig]
    obtain ⟨audit, haudit, hout⟩ := exists_ok_of_any
      (p := fun audit => audit.any fun member =>
        member.peer == fromLibp2p sampleSigning.toPlatform .B && member.state == .expired)
      (x := membershipAuditAt sampleSigning.toPlatform .sorted
        (routedConfig.network.memberRecords ++ [overlappingGrant]) routedConfig.network.name 100)
      (by decide +kernel)
    simp only [List.any_eq_true, Bool.and_eq_true, beq_iff_eq] at hout
    obtain ⟨member, hmember, hmemberPeer, hstate⟩ := hout
    exact ⟨.sorted, audit, haudit, member, hmember, hmemberPeer, by simp [hstate]⟩

end P2pVpn.Forward
