/-
# The forwarder

The forwarder holds what a node authorizes at the moment, derived either from signed records or from
a checkpoint.  Time changes it: the refresh window says until when the derived authority stays as it
is.  This file has the forwarder with its operations on membership; packets come later.

A failed operation leaves the forwarder as it was, since the program changes its fields only after
the last step that can fail.  Each operation takes the iteration orders of the hash maps it builds.
-/
import P2pVpn.Checkpoint.Effective
import P2pVpn.Forward.Config

namespace P2pVpn.Forward

open Lib Net P2pVpn.Membership P2pVpn.Checkpoint

inductive ForwardError where
  | config (error : ConfigError)
  /-- A peer identifier of libp2p that cannot be read. -/
  | hostnameRecordPeerId
  | membershipRecord (error : MembershipRecordError)
  | checkpoint (error : CheckpointError)
  | legacyAuthorityDisabled
  | stalePreparedUpdate
  | localPeerChanged (expected actual : PeerId)
deriving DecidableEq, Repr

/-- The orders in which the hash maps of an operation hand out their entries. -/
structure Iteration where
  states : KeyOrder String
  members : KeyOrder PeerId

/-- `u64::wrapping_add` of one. -/
def wrappingSucc (n : ℕ) : ℕ := (n + 1) % 2 ^ 64

/-! ## Refresh windows -/

/-- The time of an evaluation, and the next time at which it may change. -/
structure MembershipRefreshWindow where
  evaluatedAt : ℕ
  nextTransition : Option ℕ
deriving DecidableEq, Repr

/-- The times at which a record begins and ceases to have effect. -/
def transitions (record : SignedMembershipRecord) : List ℕ :=
  record.payload.issuedAtUnixSeconds :: record.payload.expiresAtUnixSeconds.toList

namespace MembershipRefreshWindow

def fromRecords (records : List SignedMembershipRecord) (evaluatedAt : ℕ) :
    MembershipRefreshWindow where
  evaluatedAt := evaluatedAt
  nextTransition := ((records.flatMap transitions).filter (· > evaluatedAt)).min?

def contains (window : MembershipRefreshWindow) (now : ℕ) : Bool :=
  window.evaluatedAt ≤ now ∧ window.nextTransition.all (now < ·)

end MembershipRefreshWindow

/-! ## Projections of checkpoints -/

/-- What the forwarder keeps of a checkpoint. -/
structure CheckpointProjection (T : Type) where
  anchor : NetworkAnchor
  boundary : CheckpointBoundary
  rank : SnapshotRank
  syncState : MembershipSyncState
  members : EffectiveMembership T
  incarnations : HashMap PeerId Bytes32
  expiries : HashMap PeerId ℕ
  audit : List (MembershipAuditMember T)
deriving DecidableEq

variable {T K : Type} [DecidableEq T] (env : SigningPlatform T K)

namespace CheckpointProjection

/-- The local variables of the loop over the roster. -/
structure Roster (T : Type) where
  incarnations : HashMap PeerId Bytes32
  expiries : HashMap PeerId ℕ
  audit : List (MembershipAuditMember T)

/-- The body of the loop over the roster. -/
def addMember (state : CooperativeMembershipState) (roster : Roster T) (member : CheckpointMember) :
    Except ForwardError (Roster T) :=
  match env.parsePeerId member.subject.peerId with
  | none => .error .hostnameRecordPeerId
  | some transportPeer =>
      let peer := fromLibp2p env.toPlatform transportPeer
      .ok
        { incarnations := roster.incarnations.insert peer member.incarnation
          expiries :=
            match member.expiresAtUnixSeconds with
            | some expiry => roster.expiries.insert peer expiry
            | none => roster.expiries
          audit := roster.audit ++
            [{ peer := peer
               transportPeer := transportPeer
               state := .active
               effectiveInviterPeer := none
               originalInviterPeer := none
               admittedAtUnixSeconds := none
               originalAdmittedAtUnixSeconds := none
               stateChangedAtUnixSeconds := 0
               hostname := (state.memberHostnames member).head? }] }

def fromState (state : CooperativeMembershipState) (expectedLocal : PeerId)
    (expectedAnchor : NetworkAnchor) : Except ForwardError (CheckpointProjection T) :=
  match env.parsePeerId state.localPeer with
  | none => .error .hostnameRecordPeerId
  | some localPeer => do
      let actualLocal := fromLibp2p env.toPlatform localPeer
      refuseIf (expectedLocal ≠ actualLocal) (.localPeerChanged expectedLocal actualLocal)
      let snapshot := state.current.payload
      refuseIf (snapshot.anchor ≠ expectedAnchor) (.checkpoint .wrongAnchor)
      let roster ← snapshot.members.foldlM (addMember env state) ⟨∅, ∅, []⟩
      let boundary ← (snapshot.boundary env.toCheckpointPlatform).mapError .checkpoint
      let rank ← (snapshot.rank env.toCheckpointPlatform).mapError .checkpoint
      let members ← (state.effectiveMembershipAt env.toCheckpointPlatform 0).mapError .checkpoint
      pure
        { anchor := snapshot.anchor
          boundary := boundary
          rank := rank
          syncState := state.syncState
          members := members
          incarnations := roster.incarnations
          expiries := roster.expiries
          audit := roster.audit }

variable (projection : CheckpointProjection T)

def activeAt (peer : PeerId) (now : ℕ) : Bool :=
  (projection.incarnations.get? peer).isSome ∧ (projection.expiries.get? peer).all (now < ·)

def membershipAt (localPeer : PeerId) (now : ℕ) : EffectiveMembership T :=
  let localActive := projection.syncState = .participating ∧ projection.activeAt localPeer now
  { projection.members with
    members := projection.members.members.retain fun member =>
      localActive ∧ projection.activeAt member.peer now }

def refreshWindow (order : KeyOrder PeerId) (now : ℕ) : MembershipRefreshWindow where
  evaluatedAt := now
  nextTransition :=
    (((order.entries projection.expiries).map Prod.snd).filter (· > now)).min?

/-- The routes that a membership grants to a peer. -/
def grants (membership : EffectiveMembership T) (peer : PeerId) : List RouteConfig :=
  match (membership.members.get? peer).filter (EffectiveMember.hasRole · .overlayMember) with
  | some member => member.routeGrants
  | none => []

/-- `retain_alias`: the address that the configuration gives to a peer stays if the peer has a grant
for it. -/
def retainAlias (vpnIp : Option String) (routes : List RouteConfig) :
    Except ForwardError (Option String) :=
  match vpnIp with
  | none => .ok none
  | some ip => do
      let hostRoute ← (vpnIpHostRoute ip).mapError .config
      if routes.any fun route => route.metric = 0 ∧ route.cidr = .ok hostRoute then
        pure (some ip)
      else pure none

/-- The loop over the configured peers: those that are not active are dropped, and the others get
the routes of their grants. -/
def sanitizePeer (membership : EffectiveMembership T) (now : ℕ) (peers : List PeerConfig)
    (peer : PeerConfig) :
    Except ForwardError (List PeerConfig) := do
  let id ← (peer.peerId env).mapError .config
  if projection.activeAt id now then do
    let vpnIp ← retainAlias peer.vpnIp (grants membership id)
    pure (peers ++ [{ peer with routes := grants membership id, vpnIp := vpnIp }])
  else pure peers

/-- `sanitize_config`: the configuration keeps nothing that the checkpoint does not grant. -/
def sanitizeConfig (config : Config) (now : ℕ) : Except ForwardError Config := do
  let localPeer ← (config.localPeerId env).mapError .config
  let membership := projection.membershipAt localPeer now
  let vpnIp ← retainAlias config.network.vpnIp (grants membership localPeer)
  let peers ← config.peers.foldlM (projection.sanitizePeer env membership now) []
  pure
    { network :=
        { config.network with
          memberRecords := []
          routes := grants membership localPeer
          vpnIp := vpnIp }
      peers := peers }

end CheckpointProjection

/-! ## Authority -/

/-- The derived authority of a forwarder. -/
structure ForwardingAuthorization (T : Type) where
  routes : RouteTable
  peers : HashMap PeerId T
  authorizedPeers : Finset T
deriving DecidableEq

namespace ForwardingAuthorization

/-- Routes and transport peers, with the set of the latter. -/
def assemble (routes : RouteTable) (peers : HashMap PeerId T) : ForwardingAuthorization T where
  routes := routes
  peers := peers
  authorizedPeers := authorizedPeersFromTransportPeers peers

def fromRecords (config : Config) (records : List SignedMembershipRecord) (now : ℕ)
    (order : Iteration) :
    Except ConfigError (ForwardingAuthorization T × EffectiveMembership T) := do
  let membership ← (effectiveMembershipAt env.toPlatform order.states records config.network.name
    now).mapError .membershipRecord
  let routes ← config.compileRoutesWithMembership env membership order.members
  let peers ← transportPeersFromMembership env config membership order.members
  pure (assemble routes peers, membership)

def fromCheckpoint (config : Config) (membership : EffectiveMembership T)
    (order : KeyOrder PeerId) : Except ConfigError (ForwardingAuthorization T) := do
  let localPeer ← config.localPeerId env
  let routes ←
    if authorizesConfiguredPeer membership localPeer then
      config.compileRoutesWithMembership env membership order
    else pure ⟨[]⟩
  let peers ← transportPeersFromMembership env config membership order
  pure (assemble routes peers)

end ForwardingAuthorization

/-! ## The forwarder -/

/-- The part of the forwarder that says what is authorized. -/
structure Forwarder (T : Type) where
  localPeer : PeerId
  config : Config
  memberRecords : List SignedMembershipRecord
  authorization : ForwardingAuthorization T
  effectiveMembership : EffectiveMembership T
  checkpoint : Option (CheckpointProjection T)
  membershipRefreshWindow : MembershipRefreshWindow
  membershipRevision : ℕ
  authorizationRevision : ℕ
  commitGeneration : ℕ
  membershipEffectiveRefreshPending : Bool

/-- A change of the forwarder that was prepared, and the forwarder it was prepared for. -/
structure ForwarderUpdate (T : Type) where
  config : Config
  memberRecords : List SignedMembershipRecord
  authorization : ForwardingAuthorization T
  effectiveMembership : EffectiveMembership T
  checkpoint : Option (CheckpointProjection T)
  baseMembershipRevision : ℕ
  baseAuthorizationRevision : ℕ
  baseCommitGeneration : ℕ
  sourceNetworkName : String
  membershipRefreshWindow : MembershipRefreshWindow

namespace Forwarder

/-- `from_authority` without a checkpoint, which is `from_config` at a given time. -/
def fromConfig (config : Config) (now : ℕ) (order : Iteration) :
    Except ForwardError (Forwarder T) := do
  let localPeer ← (config.localPeerId env).mapError .config
  let (authorization, membership) ← (ForwardingAuthorization.fromRecords env config
    config.network.memberRecords now order).mapError .config
  pure
    { localPeer := localPeer
      config := config
      memberRecords := config.network.memberRecords
      authorization := authorization
      effectiveMembership := membership
      checkpoint := none
      membershipRefreshWindow := .fromRecords config.network.memberRecords now
      membershipRevision := 0
      authorizationRevision := 0
      commitGeneration := 0
      membershipEffectiveRefreshPending := false }

/-- `from_checkpoint_config`, with `from_authority` for a checkpoint. -/
def fromCheckpointConfig (config : Config) (state : CooperativeMembershipState)
    (expectedAnchor : NetworkAnchor) (now : ℕ) (order : Iteration) :
    Except ForwardError (Forwarder T) := do
  let localPeer ← (config.localPeerId env).mapError .config
  let checkpoint ← CheckpointProjection.fromState env state localPeer expectedAnchor
  let config ← checkpoint.sanitizeConfig env config now
  let membership := checkpoint.membershipAt localPeer now
  let authorization ← (ForwardingAuthorization.fromCheckpoint env config membership
    order.members).mapError .config
  pure
    { localPeer := localPeer
      config := config
      memberRecords := []
      authorization := authorization
      effectiveMembership := membership
      checkpoint := some checkpoint
      membershipRefreshWindow := checkpoint.refreshWindow order.members now
      membershipRevision := 0
      authorizationRevision := 0
      commitGeneration := 0
      membershipEffectiveRefreshPending := false }

/-! ### Records -/

variable (forwarder : Forwarder T) (update : ForwarderUpdate T)
  (checkpoint : CheckpointProjection T) (state : CooperativeMembershipState)
  (expectedAnchor : NetworkAnchor)

def liveMembershipTrustAnchors : Except ForwardError (Finset String) := do
  let trustedIssuers ← (membershipTrustAnchors env.toPlatform forwarder.memberRecords
    forwarder.config.network.name).mapError .membershipRecord
  let hasExplicitRootRecord := forwarder.memberRecords.any (·.selfIssued)
  if trustedIssuers = ∅ ∧ ¬ hasExplicitRootRecord then do
    let localPeer ← (forwarder.config.localPeer env).mapError .config
    pure {localPeer}
  else pure trustedIssuers

def mergeMembershipRecordsWithTrustedIssuers (records : List SignedMembershipRecord) (now : ℕ)
    (trustedIssuers : Finset String) (order : Iteration) :
    Except ForwardError (Forwarder T × MembershipRecordMergeStats) := do
  refuseIf forwarder.checkpoint.isSome .legacyAuthorityDisabled
  let (memberRecords, stats) ← (mergeMembershipRecordsAt env.toPlatform forwarder.memberRecords
    records forwarder.config.network.name now trustedIssuers maxMembershipRecords).mapError
      .membershipRecord
  let (authorization, membership) ← (ForwardingAuthorization.fromRecords env forwarder.config
    memberRecords now order).mapError .config
  let recordsChanged : Bool := memberRecords ≠ forwarder.memberRecords
  let effectiveChanged : Bool := authorization ≠ forwarder.authorization
  pure
    ({ forwarder with
      membershipRevision :=
        if recordsChanged ∨ effectiveChanged ∨ membership ≠ forwarder.effectiveMembership then
          wrappingSucc forwarder.membershipRevision
        else forwarder.membershipRevision
      authorizationRevision :=
        if effectiveChanged then wrappingSucc forwarder.authorizationRevision
        else forwarder.authorizationRevision
      membershipEffectiveRefreshPending :=
        forwarder.membershipEffectiveRefreshPending || effectiveChanged
      authorization := authorization
      effectiveMembership := membership
      membershipRefreshWindow := .fromRecords memberRecords now
      memberRecords := memberRecords }, stats)

/-- The part of `merge_membership_records` after its shortcut. -/
def mergeLiveRecords (records : List SignedMembershipRecord) (now : ℕ) (order : Iteration) :
    Except ForwardError (Forwarder T × MembershipRecordMergeStats) := do
  let trustedIssuers ← forwarder.liveMembershipTrustAnchors env
  forwarder.mergeMembershipRecordsWithTrustedIssuers env records now trustedIssuers order

/-- `restore_persisted_membership_records`. -/
def restorePersistedMembershipRecords (records : List SignedMembershipRecord) (now : ℕ)
    (order : Iteration) :
    Except ForwardError (Forwarder T × MembershipRecordMergeStats) := do
  refuseIf forwarder.checkpoint.isSome .legacyAuthorityDisabled
  let anchors ← (membershipTrustAnchors env.toPlatform
    (forwarder.memberRecords ++ records.filter (·.selfIssued))
    forwarder.config.network.name).mapError .membershipRecord
  let trustedIssuers ←
    if anchors = ∅ then do
      let localPeer ← (forwarder.config.localPeer env).mapError .config
      pure {localPeer}
    else pure anchors
  forwarder.mergeMembershipRecordsWithTrustedIssuers env records now trustedIssuers order

/-! ### Checkpoints -/

def prepareCheckpointProjection (config : Config) (checkpoint : CheckpointProjection T) (now : ℕ)
    (order : Iteration) :
    Except ForwardError (ForwarderUpdate T) := do
  let localPeer ← (config.localPeerId env).mapError .config
  refuseIf (localPeer ≠ forwarder.localPeer) (.localPeerChanged forwarder.localPeer localPeer)
  let config ← checkpoint.sanitizeConfig env config now
  let membership := checkpoint.membershipAt forwarder.localPeer now
  let authorization ← (ForwardingAuthorization.fromCheckpoint env config membership
    order.members).mapError .config
  pure
    { config := config
      memberRecords := []
      authorization := authorization
      effectiveMembership := membership
      checkpoint := some checkpoint
      baseMembershipRevision := forwarder.membershipRevision
      baseAuthorizationRevision := forwarder.authorizationRevision
      baseCommitGeneration := forwarder.commitGeneration
      sourceNetworkName := forwarder.config.network.name
      membershipRefreshWindow := checkpoint.refreshWindow order.members now }

/-- Of one network, a forwarder takes no checkpoint below its own. -/
def checkSuccessor : Except ForwardError Unit :=
  match forwarder.checkpoint with
  | none => pure ()
  | some old => do
      refuseIf (checkpoint.anchor ≠ old.anchor) (.checkpoint .wrongAnchor)
      refuseIf (checkpoint.rank < old.rank) (.checkpoint .staleSnapshot)

def prepareCheckpointReconfigure (config : Config) (state : CooperativeMembershipState)
    (expectedAnchor : NetworkAnchor) (now : ℕ) (order : Iteration) :
    Except ForwardError (ForwarderUpdate T) := do
  let checkpoint ← CheckpointProjection.fromState env state forwarder.localPeer expectedAnchor
  forwarder.checkSuccessor checkpoint
  forwarder.prepareCheckpointProjection env config checkpoint now order

def prepareCheckpointUpdate (now : ℕ) (order : Iteration) :
    Except ForwardError (ForwarderUpdate T) :=
  forwarder.prepareCheckpointReconfigure env forwarder.config state expectedAnchor now order

/-- The members of two projections were admitted at different times. -/
def incarnationsChanged (old new : Option (CheckpointProjection T)) : Bool :=
  match old, new with
  | some old, some new => old.incarnations ≠ new.incarnations
  | _, _ => false

/-- Two projections belong to one network. -/
def anchorsAgree (old new : Option (CheckpointProjection T)) : Bool :=
  match old, new with
  | some old, some new => old.anchor = new.anchor
  | _, _ => true

/-- The checks of `try_commit_reconfigure` when a checkpoint is involved. -/
def checkCheckpointUpdate : Except ForwardError Unit := do
  let actualLocal ← (update.config.localPeerId env).mapError .config
  refuseIf (actualLocal ≠ forwarder.localPeer) (.localPeerChanged forwarder.localPeer actualLocal)
  refuseIf (update.sourceNetworkName ≠ forwarder.config.network.name) (.checkpoint .wrongAnchor)
  refuseIf (¬ anchorsAgree forwarder.checkpoint update.checkpoint) (.checkpoint .wrongAnchor)
  refuseIf (update.baseMembershipRevision ≠ forwarder.membershipRevision ∨
    update.baseAuthorizationRevision ≠ forwarder.authorizationRevision ∨
    update.baseCommitGeneration ≠ forwarder.commitGeneration) .stalePreparedUpdate

/-- The checks of `try_commit_reconfigure`. -/
def checkUpdate : Except ForwardError Unit := do
  refuseIf (forwarder.checkpoint.isSome ∧ update.checkpoint.isNone) .legacyAuthorityDisabled
  if forwarder.checkpoint.isSome ∨ update.checkpoint.isSome then
    forwarder.checkCheckpointUpdate env update
  else pure ()

def tryCommitReconfigure : Except ForwardError (Forwarder T) := do
  forwarder.checkUpdate env update
  pure
    { localPeer := forwarder.localPeer
      config := update.config
      memberRecords := update.memberRecords
      authorization := update.authorization
      effectiveMembership := update.effectiveMembership
      checkpoint := update.checkpoint
      membershipRefreshWindow := update.membershipRefreshWindow
      membershipRevision :=
        if forwarder.memberRecords ≠ update.memberRecords ∨
            forwarder.effectiveMembership ≠ update.effectiveMembership ∨
            forwarder.checkpoint ≠ update.checkpoint then
          wrappingSucc forwarder.membershipRevision
        else forwarder.membershipRevision
      authorizationRevision :=
        if forwarder.authorization ≠ update.authorization ∨
            incarnationsChanged forwarder.checkpoint update.checkpoint then
          wrappingSucc forwarder.authorizationRevision
        else forwarder.authorizationRevision
      commitGeneration := wrappingSucc forwarder.commitGeneration
      membershipEffectiveRefreshPending := false }

def commitCheckpointUpdate : Except ForwardError (Forwarder T) := do
  refuseIf update.checkpoint.isNone .legacyAuthorityDisabled
  let pending := forwarder.membershipEffectiveRefreshPending ||
    decide (forwarder.authorization ≠ update.authorization) ||
    incarnationsChanged forwarder.checkpoint update.checkpoint
  let committed ← forwarder.tryCommitReconfigure env update
  pure { committed with membershipEffectiveRefreshPending := pending }

/-- The part of `refresh_checkpoint_projection` after its shortcut. -/
def projectAgain (now : ℕ) (order : Iteration) : Except ForwardError (Forwarder T) := do
  let update ← forwarder.prepareCheckpointProjection env forwarder.config checkpoint now order
  forwarder.commitCheckpointUpdate env update

def refreshCheckpointProjection (now : ℕ) (order : Iteration) : Except ForwardError (Forwarder T) :=
  if forwarder.membershipRefreshWindow.contains now then .ok forwarder
  else forwarder.projectAgain env checkpoint now order

/-! ### Changes of the configuration, and pairing -/

/-- The update to an authority derived from records. -/
def recordsUpdate (config : Config) (memberRecords : List SignedMembershipRecord)
    (derived : ForwardingAuthorization T × EffectiveMembership T) (now : ℕ) :
    ForwarderUpdate T where
  config := config
  memberRecords := memberRecords
  authorization := derived.1
  effectiveMembership := derived.2
  checkpoint := none
  baseMembershipRevision := forwarder.membershipRevision
  baseAuthorizationRevision := forwarder.authorizationRevision
  baseCommitGeneration := forwarder.commitGeneration
  sourceNetworkName := forwarder.config.network.name
  membershipRefreshWindow := .fromRecords memberRecords now

def prepareReconfigure (config : Config) (now : ℕ) (order : Iteration) :
    Except ForwardError (ForwarderUpdate T) := do
  let localPeer ← (config.localPeerId env).mapError .config
  refuseIf (localPeer ≠ forwarder.localPeer) (.localPeerChanged forwarder.localPeer localPeer)
  match forwarder.checkpoint with
  | some checkpoint => forwarder.prepareCheckpointProjection env config checkpoint now order
  | none => do
      let derived ← (ForwardingAuthorization.fromRecords env config config.network.memberRecords now
        order).mapError .config
      pure (forwarder.recordsUpdate config config.network.memberRecords derived now)

def preparePairingMembershipMerge (records : List SignedMembershipRecord) (now : ℕ)
    (order : Iteration) :
    Except ForwardError (ForwarderUpdate T × MembershipRecordMergeStats) := do
  refuseIf forwarder.checkpoint.isSome .legacyAuthorityDisabled
  let trustedIssuers ← forwarder.liveMembershipTrustAnchors env
  let (memberRecords, stats) ← (mergeMembershipRecordsAt env.toPlatform forwarder.memberRecords
    records forwarder.config.network.name now trustedIssuers maxMembershipRecords).mapError
      .membershipRecord
  let derived ← (ForwardingAuthorization.fromRecords env forwarder.config memberRecords now
    order).mapError .config
  pure (forwarder.recordsUpdate forwarder.config memberRecords derived now, stats)

/-- `commit_reconfigure`, which keeps the forwarder if the update is refused. -/
def commitReconfigure : Forwarder T :=
  match forwarder.tryCommitReconfigure env update with
  | .ok committed => committed
  | .error _ => forwarder

def commitPairingMembershipMerge : Forwarder T :=
  if forwarder.checkpoint.isSome then forwarder
  else
    let pending := forwarder.membershipEffectiveRefreshPending ||
      decide (forwarder.authorization ≠ update.authorization)
    { forwarder.commitReconfigure env update with membershipEffectiveRefreshPending := pending }

/-! ### Merges and refreshes -/

def mergeMembershipRecords (records : List SignedMembershipRecord) (now : ℕ) (order : Iteration) :
    Except ForwardError (Forwarder T × MembershipRecordMergeStats) :=
  match forwarder.checkpoint with
  | some checkpoint => do
      refuseIf (records ≠ []) .legacyAuthorityDisabled
      let forwarder ← forwarder.refreshCheckpointProjection env checkpoint now order
      pure (forwarder, ⟨0, 0⟩)
  | none =>
      if forwarder.membershipRefreshWindow.contains now ∧
          records.all fun record => record ∈ forwarder.memberRecords then
        .ok (forwarder, ⟨0, records.length⟩)
      else forwarder.mergeLiveRecords env records now order

def pruneMembershipRecords (now : ℕ) (order : Iteration) :
    Except ForwardError (Forwarder T × MembershipRecordMergeStats) :=
  forwarder.mergeMembershipRecords env [] now order

/-- The first step of `refresh_membership_records`. -/
def pruneOutsideWindow (now : ℕ) (order : Iteration) :
    Except ForwardError (Forwarder T × MembershipRecordMergeStats) :=
  if forwarder.membershipRefreshWindow.contains now then .ok (forwarder, ⟨0, 0⟩)
  else forwarder.pruneMembershipRecords env now order

/-- `refresh_membership_records`; the flag says whether the authority has changed since the last
refresh. -/
def refreshMembershipRecords (now : ℕ) (order : Iteration) :
    Except ForwardError (Forwarder T × MembershipRecordMergeStats × Bool) := do
  let (pruned, stats) ← forwarder.pruneOutsideWindow env now order
  pure ({ pruned with membershipEffectiveRefreshPending := false }, stats,
    pruned.membershipEffectiveRefreshPending)

end Forwarder

end P2pVpn.Forward
