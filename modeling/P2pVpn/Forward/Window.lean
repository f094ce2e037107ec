/-
# Refresh windows

Until the next time at which a record is issued or runs out, everything that the forwarder derives
from its records stays as it is (`fromRecords_of_contains`), and so does what it derives from a
checkpoint (`activeAt_of_contains`).
-/
import P2pVpn.Forward.Compile
import P2pVpn.Forward.Forwarder

namespace P2pVpn.Forward

open Lib Net P2pVpn.Membership P2pVpn.Checkpoint

variable {T K : Type} {env : SigningPlatform T K}

/-! ## What a window says -/

lemma min?_all_lt_iff {times : List ℕ} {now : ℕ} :
    (times.min?.all (now < ·)) = true ↔ ∀ time ∈ times, now < time := by
  cases hmin : times.min? with
  | none =>
    rw [List.min?_eq_none_iff] at hmin
    simp [hmin]
  | some first =>
    obtain ⟨hmem, hle⟩ := List.min?_eq_some_iff.mp hmin
    simp only [Option.all_some, decide_eq_true_eq]
    exact ⟨fun h time htime => lt_of_lt_of_le h (hle time htime), fun h => h first hmem⟩

lemma contains_fromRecords {records : List SignedMembershipRecord} {t now : ℕ} :
    (MembershipRefreshWindow.fromRecords records t).contains now = true ↔
      t ≤ now ∧ ∀ record ∈ records, ∀ time ∈ transitions record, t < time → now < time := by
  rw [MembershipRefreshWindow.contains, decide_eq_true_eq]
  refine and_congr_right fun _ => ?_
  rw [MembershipRefreshWindow.fromRecords, min?_all_lt_iff]
  simp only [List.mem_filter, List.mem_flatMap, decide_eq_true_eq]
  constructor
  · intro h record hrecord time htime hlt
    exact h time ⟨⟨record, hrecord, htime⟩, hlt⟩
  · rintro h time ⟨⟨record, hrecord, htime⟩, hlt⟩
    exact h record hrecord time htime hlt

variable {order : KeyOrder PeerId} {membership : EffectiveMembership T}

lemma contains_refreshWindow {projection : CheckpointProjection T} {t now : ℕ} :
    (projection.refreshWindow order t).contains now = true ↔
      t ≤ now ∧ ∀ peer expiry, projection.expiries.get? peer = some expiry → t < expiry →
        now < expiry := by
  rw [MembershipRefreshWindow.contains, decide_eq_true_eq]
  refine and_congr_right fun _ => ?_
  rw [CheckpointProjection.refreshWindow, min?_all_lt_iff]
  simp only [List.mem_filter, List.mem_map, decide_eq_true_eq]
  constructor
  · intro h peer expiry hpeer hlt
    exact h expiry ⟨⟨(peer, expiry), order.mem_entries.mpr hpeer, rfl⟩, hlt⟩
  · rintro h _ ⟨⟨⟨peer, expiry⟩, hpeer, rfl⟩, hlt⟩
    exact h peer expiry (order.mem_entries.mp hpeer) hlt

/-! ## Authority from records -/

section Records

variable [DecidableEq T] {config : Config} {records : List SignedMembershipRecord} {t now : ℕ}
  {order order' : Iteration}

lemma valid_of_effectiveMembershipAt {name : String} {order : KeyOrder String}
    (h : effectiveMembershipAt env.toPlatform order records name t = .ok membership) :
    validateMembershipRecordHistory env.toPlatform records name = .ok () := by
  rw [effectiveMembershipAt, bind_eq_ok] at h
  obtain ⟨_, hvalid, -⟩ := h
  exact hvalid

variable {result : ForwardingAuthorization T × EffectiveMembership T}

lemma fromRecords_eq_ok :
    ForwardingAuthorization.fromRecords env config records t order = .ok result ↔
      ∃ membership routes peers,
        effectiveMembershipAt env.toPlatform order.states records config.network.name t
          = .ok membership ∧
        config.compileRoutesWithMembership env membership order.members = .ok routes ∧
        transportPeersFromMembership env config membership order.members = .ok peers ∧
        result = (.assemble routes peers, membership) := by
  simp only [ForwardingAuthorization.fromRecords, bind_eq_ok, mapError_eq_ok_iff, pure_eq_ok,
    exists_and_left]

/-- Within its window a membership stays as it is. -/
lemma effectiveMembershipAt_of_contains {name : String}
    (hvalid : validateMembershipRecordHistory env.toPlatform records name = .ok ())
    (haddresses : DistinctAddresses env.toPlatform records)
    (hwindow : (MembershipRefreshWindow.fromRecords records t).contains now = true)
    (order order' : KeyOrder String) :
    effectiveMembershipAt env.toPlatform order' records name now
      = effectiveMembershipAt env.toPlatform order records name t := by
  obtain ⟨hle, htransitions⟩ := contains_fromRecords.mp hwindow
  refine effectiveMembershipAt_stable hvalid haddresses hle ?_ ?_ order order'
  · rintro record hrecord ⟨hafter, hbefore⟩
    exact absurd (htransitions record hrecord _ List.mem_cons_self hafter) (not_lt.mpr hbefore)
  · intro record hrecord hexpired
    unfold SignedMembershipRecord.isExpiredAt at hexpired ⊢
    split at hexpired
    · cases hexpired
    · rename_i expiry hexpiry
      refine decide_eq_true (not_lt.mp fun hlt => ?_)
      have hmem : expiry ∈ transitions record := by simp [transitions, hexpiry]
      exact absurd (of_decide_eq_true hexpired) (not_le.mpr (htransitions record hrecord _ hmem hlt))

/-- The authority does not depend on the orders of iteration. -/
lemma fromRecords_order
    (hsame : effectiveMembershipAt env.toPlatform order'.states records config.network.name now
      = effectiveMembershipAt env.toPlatform order.states records config.network.name t)
    (h : ForwardingAuthorization.fromRecords env config records t order = .ok result) :
    ForwardingAuthorization.fromRecords env config records now order' = .ok result := by
  obtain ⟨membership, routes, peers, hmembership, hroutes, hpeers, rfl⟩ := fromRecords_eq_ok.mp h
  have hfiled := (addressed_effectiveMembershipAt hmembership).wellFiled
  exact fromRecords_eq_ok.mpr ⟨membership, routes, peers, hsame.trans hmembership,
    compileRoutes_order hfiled hroutes, transportPeers_order hfiled hpeers, rfl⟩

/-- Within its window an authority stays as it is. -/
lemma fromRecords_of_contains (haddresses : DistinctAddresses env.toPlatform records)
    (hwindow : (MembershipRefreshWindow.fromRecords records t).contains now = true) :
    ForwardingAuthorization.fromRecords env config records t order = .ok result ↔
      ForwardingAuthorization.fromRecords env config records now order' = .ok result := by
  have hsame : ∀ {time : ℕ} {order'' : Iteration},
      ForwardingAuthorization.fromRecords env config records time order'' = .ok result →
      effectiveMembershipAt env.toPlatform order'.states records config.network.name now
        = effectiveMembershipAt env.toPlatform order.states records config.network.name t := by
    intro time order'' h
    obtain ⟨membership, -, -, hmembership, -⟩ := fromRecords_eq_ok.mp h
    exact effectiveMembershipAt_of_contains (valid_of_effectiveMembershipAt hmembership) haddresses
      hwindow _ _
  exact ⟨fun h => fromRecords_order (hsame h) h,
    fun h => fromRecords_order (hsame h).symm h⟩

end Records

/-! ## Authority from a checkpoint -/

section Projection

variable {projection : CheckpointProjection T} {config config' : Config} {localPeer : PeerId}
  {t now : ℕ}

lemma fromState_eq_ok [DecidableEq T] {state : CooperativeMembershipState} {anchor : NetworkAnchor} :
    CheckpointProjection.fromState env state localPeer anchor = .ok projection ↔
      ∃ transportPeer roster boundary rank members,
        env.parsePeerId state.localPeer = some transportPeer ∧
        localPeer = fromLibp2p env.toPlatform transportPeer ∧
        state.current.payload.anchor = anchor ∧
        state.current.payload.members.foldlM (CheckpointProjection.addMember env state) ⟨∅, ∅, []⟩
          = .ok roster ∧
        state.current.payload.boundary env.toCheckpointPlatform = .ok boundary ∧
        state.current.payload.rank env.toCheckpointPlatform = .ok rank ∧
        state.effectiveMembershipAt env.toCheckpointPlatform 0 = .ok members ∧
        projection = ⟨state.current.payload.anchor, boundary, rank, state.syncState, members,
          roster.incarnations, roster.expiries, roster.audit⟩ := by
  unfold CheckpointProjection.fromState
  split
  · rename_i hparse
    simp [hparse]
  · rename_i transportPeer hparse
    simp only [bind_eq_ok, refuseIf_eq_ok, mapError_eq_ok_iff, pure_eq_ok, not_not, exists_const,
      hparse, Option.some.injEq, exists_and_left, exists_eq_left']

/-- The members of a checkpoint are filed under the addresses of their transport peers. -/
lemma addressed_of_fromState [DecidableEq T] {state : CooperativeMembershipState}
    {anchor : NetworkAnchor}
    (h : CheckpointProjection.fromState env state localPeer anchor = .ok projection) :
    Addressed env.toPlatform projection.members.members := by
  obtain ⟨-, -, -, -, members, -, -, -, -, -, -, hmembers, rfl⟩ := fromState_eq_ok.mp h
  unfold CooperativeMembershipState.effectiveMembershipAt at hmembers
  split at hmembers
  · obtain rfl := Except.ok.inj hmembers
    exact addressed_empty
  · obtain ⟨table, htable, hmembers⟩ := bind_eq_ok.mp hmembers
    obtain rfl := Except.ok.inj hmembers
    refine foldlM_invariant (P := Addressed env.toPlatform)
      (fun member _ before after hbefore hstep => ?_) addressed_empty htable
    obtain ⟨transportPeer, -, hafter⟩ := bind_eq_ok.mp hstep
    obtain rfl := Except.ok.inj hafter
    exact hbefore.insert rfl

lemma addressed_membershipAt (h : Addressed env.toPlatform projection.members.members)
    (localPeer : PeerId) (now : ℕ) :
    Addressed env.toPlatform (projection.membershipAt localPeer now).members := by
  intro peer member hmember
  rw [CheckpointProjection.membershipAt, HashMap.get?_retain] at hmember
  exact h peer member (Option.eq_some_of_filter_eq_some hmember)

/-- Within its window a projection has the same members active. -/
lemma activeAt_of_contains (hwindow : (projection.refreshWindow order t).contains now = true)
    (peer : PeerId) :
    projection.activeAt peer now = projection.activeAt peer t := by
  obtain ⟨hle, hexpiries⟩ := contains_refreshWindow.mp hwindow
  unfold CheckpointProjection.activeAt
  cases hexpiry : projection.expiries.get? peer with
  | none => rfl
  | some expiry =>
    have := hexpiries peer expiry hexpiry
    simp only [Option.all_some, decide_eq_true_eq, decide_eq_decide]
    refine and_congr_right fun _ => ?_
    omega

lemma membershipAt_congr (h : ∀ peer, projection.activeAt peer now = projection.activeAt peer t)
    (localPeer : PeerId) :
    projection.membershipAt localPeer now = projection.membershipAt localPeer t := by
  simp only [CheckpointProjection.membershipAt, h]

lemma sanitizeConfig_congr (h : ∀ peer, projection.activeAt peer now = projection.activeAt peer t)
    (config : Config) :
    projection.sanitizeConfig env config now = projection.sanitizeConfig env config t := by
  have hpeer : ∀ membership, projection.sanitizePeer env membership now
      = projection.sanitizePeer env membership t := by
    intro membership
    funext peers peer
    simp only [CheckpointProjection.sanitizePeer, h]
  simp only [CheckpointProjection.sanitizeConfig, membershipAt_congr h, hpeer]

lemma fromCheckpoint_eq_ok [DecidableEq T] {authorization : ForwardingAuthorization T} :
    ForwardingAuthorization.fromCheckpoint env config membership order = .ok authorization ↔
      ∃ localPeer routes peers, config.localPeerId env = .ok localPeer ∧
        (if authorizesConfiguredPeer membership localPeer then
          config.compileRoutesWithMembership env membership order else .ok ⟨[]⟩) = .ok routes ∧
        transportPeersFromMembership env config membership order = .ok peers ∧
        authorization = .assemble routes peers := by
  rw [ForwardingAuthorization.fromCheckpoint, bind_eq_ok]
  refine exists_congr fun localPeer => ?_
  by_cases hauthorized : authorizesConfiguredPeer membership localPeer = true
  · simp only [if_pos hauthorized, bind_eq_ok, pure_eq_ok, exists_and_left]
  · simp only [if_neg hauthorized, bind_eq_ok, pure_eq_ok, Except.ok.injEq, exists_and_left, exists_eq_left,
      exists_eq_left']

lemma fromCheckpoint_order [DecidableEq T] {order' : KeyOrder PeerId}
    {authorization : ForwardingAuthorization T} (hfiled : WellFiled membership)
    (h : ForwardingAuthorization.fromCheckpoint env config membership order = .ok authorization) :
    ForwardingAuthorization.fromCheckpoint env config membership order' = .ok authorization := by
  obtain ⟨localPeer, routes, peers, hlocal, hroutes, hpeers, rfl⟩ := fromCheckpoint_eq_ok.mp h
  refine fromCheckpoint_eq_ok.mpr ⟨localPeer, routes, peers, hlocal, ?_,
    transportPeers_order hfiled hpeers, rfl⟩
  split at hroutes
  · rename_i hauthorized
    rw [if_pos hauthorized]
    exact compileRoutes_order hfiled hroutes
  · rename_i hauthorized
    rw [if_neg hauthorized]
    exact hroutes

/-! ### Sanitizing twice -/

lemma retainAlias_retained {vpnIp kept : Option String} {routes : List RouteConfig}
    (h : CheckpointProjection.retainAlias vpnIp routes = .ok kept) :
    CheckpointProjection.retainAlias kept routes = .ok kept := by
  cases vpnIp with
  | none =>
    obtain rfl := Except.ok.inj h
    rfl
  | some ip =>
    obtain ⟨cidr, hcidr, hkept⟩ := bind_eq_ok.mp h
    split at hkept
    · rename_i hgranted
      obtain rfl := Except.ok.inj hkept
      exact bind_eq_ok.mpr ⟨cidr, hcidr, by rw [if_pos hgranted]; rfl⟩
    · obtain rfl := Except.ok.inj hkept
      rfl

/-- An entry that sanitizing leaves as it is. -/
structure SanitizedPeer (env : SigningPlatform T K) (projection : CheckpointProjection T)
    (membership : EffectiveMembership T) (now : ℕ) (peer : PeerConfig) (id : PeerId) : Prop where
  peerId : peer.peerId env = .ok id
  active : projection.activeAt id now = true
  routes : peer.routes = CheckpointProjection.grants membership id
  vpnIp : CheckpointProjection.retainAlias peer.vpnIp (CheckpointProjection.grants membership id)
    = .ok peer.vpnIp

lemma sanitizePeer_eq_ok {before after : List PeerConfig} {peer : PeerConfig} :
    projection.sanitizePeer env membership now before peer = .ok after ↔
      ∃ id, peer.peerId env = .ok id ∧
        ((projection.activeAt id now = false ∧ after = before) ∨
          projection.activeAt id now = true ∧
          ∃ vpnIp, CheckpointProjection.retainAlias peer.vpnIp
              (CheckpointProjection.grants membership id) = .ok vpnIp ∧
            after = before ++ [{ peer with
              routes := CheckpointProjection.grants membership id, vpnIp := vpnIp }]) := by
  simp only [CheckpointProjection.sanitizePeer, bind_eq_ok, mapError_eq_ok_iff]
  refine exists_congr fun id => and_congr_right fun _ => ?_
  cases hactive : projection.activeAt id now
  · simp [pure_eq_ok]
  · simp only [if_true, bind_eq_ok, pure_eq_ok, Bool.true_eq_false, false_and, false_or, true_and]

lemma sanitizedPeer_of_fold {peers kept : List PeerConfig}
    (h : peers.foldlM (projection.sanitizePeer env membership now) [] = .ok kept) :
    ∀ peer ∈ kept, ∃ id, SanitizedPeer env projection membership now peer id := by
  refine foldlM_invariant (P := fun kept => ∀ peer ∈ kept,
    ∃ id, SanitizedPeer env projection membership now peer id) ?_ (by simp) h
  intro peer _ before after hbefore hstep
  obtain ⟨id, hid, ⟨-, rfl⟩ | ⟨hactive, vpnIp, hvpnIp, rfl⟩⟩ := sanitizePeer_eq_ok.mp hstep
  · exact hbefore
  · intro other hother
    rcases List.mem_append.mp hother with hother | hother
    · exact hbefore other hother
    · obtain rfl := List.mem_singleton.mp hother
      exact ⟨id, hid, hactive, rfl, retainAlias_retained hvpnIp⟩

lemma fold_of_sanitizedPeer {peers before : List PeerConfig}
    (h : ∀ peer ∈ peers, ∃ id, SanitizedPeer env projection membership now peer id) :
    peers.foldlM (projection.sanitizePeer env membership now) before = .ok (before ++ peers) := by
  induction peers generalizing before with
  | nil => rw [List.append_nil]; rfl
  | cons peer peers ih =>
    obtain ⟨⟨id, hpeer⟩, hpeers⟩ := List.forall_mem_cons.mp h
    rw [List.foldlM_cons]
    refine bind_eq_ok.mpr ⟨before ++ [peer], ?_, by rw [ih hpeers, List.append_assoc]; rfl⟩
    refine sanitizePeer_eq_ok.mpr ⟨id, hpeer.peerId, Or.inr ⟨hpeer.active, _, hpeer.vpnIp, ?_⟩⟩
    rw [← hpeer.routes]

lemma sanitizeConfig_eq_ok :
    projection.sanitizeConfig env config now = .ok config' ↔
      ∃ localPeer vpnIp peers, config.localPeerId env = .ok localPeer ∧
        CheckpointProjection.retainAlias config.network.vpnIp
          (CheckpointProjection.grants (projection.membershipAt localPeer now) localPeer)
          = .ok vpnIp ∧
        config.peers.foldlM (projection.sanitizePeer env (projection.membershipAt localPeer now) now)
          [] = .ok peers ∧
        config' =
          ⟨{ config.network with
              memberRecords := []
              routes := CheckpointProjection.grants (projection.membershipAt localPeer now) localPeer
              vpnIp := vpnIp }, peers⟩ := by
  simp only [CheckpointProjection.sanitizeConfig, bind_eq_ok, mapError_eq_ok_iff, pure_eq_ok,
    exists_and_left]

lemma localPeerId_of_sanitizeConfig (h : projection.sanitizeConfig env config now = .ok config') :
    config'.localPeerId env = config.localPeerId env := by
  obtain ⟨localPeer, vpnIp, peers, -, -, -, rfl⟩ := sanitizeConfig_eq_ok.mp h
  rfl

/-- Sanitizing again changes nothing. -/
lemma sanitizeConfig_sanitized (h : projection.sanitizeConfig env config now = .ok config') :
    projection.sanitizeConfig env config' now = .ok config' := by
  have hlocal' := localPeerId_of_sanitizeConfig h
  obtain ⟨localPeer, vpnIp, peers, hlocal, hvpnIp, hpeers, rfl⟩ := sanitizeConfig_eq_ok.mp h
  refine sanitizeConfig_eq_ok.mpr ⟨localPeer, vpnIp, peers, hlocal'.trans hlocal,
    retainAlias_retained hvpnIp, ?_, rfl⟩
  exact fold_of_sanitizedPeer (sanitizedPeer_of_fold hpeers)

end Projection

end P2pVpn.Forward
