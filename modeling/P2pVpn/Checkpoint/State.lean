/-
# The cooperative membership state

The state that a node keeps of its network: the current snapshot, the hostname claims for it, how
far the node takes part, and the resync round in progress, if any.  Each operation either returns
the new state or fails; the program changes its state only after the last step that can fail, so
a failure leaves the state as it was.

Monotonic times are in nanoseconds, wall-clock times in seconds.
-/
import Mathlib.Data.List.Sort
import P2pVpn.Checkpoint.Hostname

namespace P2pVpn.Checkpoint

open Lib P2pVpn.Membership

inductive MembershipSyncState where
  | resyncRequired
  | resyncing
  | participating
  | excluded
deriving DecidableEq, Repr

inductive OfferOutcome where
  | selectedHigherRank
  | keptCurrentRank
deriving DecidableEq, Repr

/-- What a finished round reports. -/
structure BranchSelection where
  previous : CheckpointBoundary
  selected : CheckpointBoundary
  decisionsMayHaveBeenDiscarded : Bool
  addedMembers : ℕ
  removedMembers : ℕ
  observedRemoteOffer : Bool
  syncState : MembershipSyncState
deriving DecidableEq, Repr

/-- What is stored of a state. -/
structure RetainedCheckpointState where
  snapshot : AuthenticatedSnapshot
  hostnameClaims : List SignedHostnameClaim
deriving DecidableEq, Repr

/-- A resync round: the best branch so far, and the names collected for it. -/
structure ResyncRound where
  challenge : SnapshotChallenge
  deadline : ℕ
  best : AuthenticatedSnapshot
  names : List SignedHostnameClaim
  observedOffer : Bool
deriving DecidableEq, Repr

structure CooperativeMembershipState where
  capability : NetworkCapability
  localPeer : String
  current : AuthenticatedSnapshot
  names : List SignedHostnameClaim
  syncState : MembershipSyncState
  round : Option ResyncRound
deriving DecidableEq, Repr

/-- `participation`: a node takes part while it is an active member. -/
def participation (snapshot : CheckpointSnapshot) (localPeer : String) (now : ℕ) :
    MembershipSyncState :=
  if (snapshot.member localPeer).any (·.activeAt now) then .participating else .excluded

variable {T K : Type} [DecidableEq T] (env : CheckpointPlatform T K)

/-- `SignedSnapshotOffer::validate_shape`. -/
def SignedSnapshotOffer.validateShape (offer : SignedSnapshotOffer) :
    Except CheckpointError Unit := do
  refuseIf (offer.payload.version ≠ 1 ∨ offer.payload.challenge.nonce = 0)
    (.invalid "invalid offer version/challenge")
  offer.payload.challenge.anchor.validate
  offer.payload.snapshot.payload.validate env
  let _ ← offer.payload.publisher.validate env
  validateNames env offer.payload.snapshot.payload offer.payload.hostnameClaims
  fieldBound offer.signature maxSignatureBytes
  bytesBound (env.offerJsonLen offer) maxSnapshotOfferBytes

namespace CooperativeMembershipState

variable (state : CooperativeMembershipState)

def retained : RetainedCheckpointState where
  snapshot := state.current
  hostnameClaims := state.names

def requireParticipation (now : ℕ) : Except CheckpointError Unit :=
  refuseIf (state.syncState ≠ .participating ∨
    participation state.current.payload state.localPeer now ≠ .participating) .noParticipation

/-! ## Making a state -/

def bootstrapAt (capability : NetworkCapability) (localPeer : String)
    (members : List CheckpointMember) (policy : SnapshotPolicy) (now : ℕ) :
    Except CheckpointError CooperativeMembershipState := do
  validateLocalPeer env localPeer
  let current ← capability.authenticate env
    { version := cooperativeCheckpointVersion
      anchor := capability.anchor
      authorityRevision := 0
      parentDigest := none
      policy := policy
      members := members.insertionSort fun a b => a.peerId ≤ b.peerId }
  pure { capability := capability
         localPeer := localPeer
         current := current
         names := []
         syncState := participation current.payload localPeer now
         round := none }

def restore (capability : NetworkCapability) (localPeer : String)
    (state : RetainedCheckpointState) : Except CheckpointError CooperativeMembershipState := do
  validateLocalPeer env localPeer
  capability.verify env state.snapshot
  validateNames env state.snapshot.payload state.hostnameClaims
  pure { capability := capability
         localPeer := localPeer
         current := state.snapshot
         names := state.hostnameClaims
         syncState := .resyncRequired
         round := none }

/-! ## Mutations -/

/-- The incarnation that an admission must carry: a member keeps its own, and a newcomer gets one
bound to the boundary at which it is admitted. -/
def expectedIncarnation (base : CheckpointBoundary) (subject : SnapshotPublisher) : Bytes32 :=
  match state.current.payload.member subject.peerId with
  | some current => current.incarnation
  | none => admissionIncarnation env state.capability.anchor base subject

/-- The part of `validate_mutation` that looks at the change. -/
def validateChange (base : CheckpointBoundary) (now : ℕ) :
    MembershipChange → Except CheckpointError Unit
  | .upsertMember member => do
      member.validate env
      refuseIf (¬ member.activeAt now) (.invalid "expired admission")
      refuseIf (member.incarnation ≠ state.expectedIncarnation env base member.subject)
        (.invalid "admission incarnation is not checkpoint-bound")
  | .removeMember peer => validateLocalPeer env peer
  | .setPolicy policy => policy.validate state.current.payload.members.length
  | .pruneExpired => pure ()

def validateMutation (payload : MembershipMutationPayload) (now : ℕ) :
    Except CheckpointError Unit := do
  refuseIf (payload.version ≠ 1) (.invalid "unsupported mutation version")
  refuseIf (payload.anchor ≠ state.capability.anchor) .wrongAnchor
  let boundary ← state.current.payload.boundary env
  refuseIf (payload.base ≠ boundary) .staleMutation
  let _ ← payload.issuer.validate env
  match (state.current.payload.member payload.issuer.peerId).filter (·.activeAt now) with
  | none => throw (.invalid "inactive mutation issuer")
  | some issuer =>
      refuseIf (issuer.subject ≠ payload.issuer) (.invalid "mutation issuer key mismatch")
      state.validateChange env payload.base now payload.change
      bytesBound (env.mutationPayloadJson payload).length maxMutationBytes

/-- The roster and the policy after a change. -/
def changedContent (now : ℕ) :
    MembershipChange → List CheckpointMember × SnapshotPolicy
  | .upsertMember member =>
      (upsert CheckpointMember.peerId (fun _ new => new) state.current.payload.members member,
        state.current.payload.policy)
  | .removeMember peer =>
      (state.current.payload.members.filter fun member => member.peerId ≠ peer,
        state.current.payload.policy)
  | .setPolicy policy => (state.current.payload.members, policy)
  | .pruneExpired =>
      (state.current.payload.members.filter fun member => member.activeAt now,
        state.current.payload.policy)

/-- The revision after this one, as far as revisions go. -/
def nextRevision (revision : ℕ) : Option ℕ :=
  (checkedAdd64 revision 1).filter (· ≤ maxMembershipRecordInteger)

def changedSnapshot (change : MembershipChange) (now : ℕ) :
    Except CheckpointError AuthenticatedSnapshot := do
  let (members, policy) := state.changedContent now change
  refuseIf (members = state.current.payload.members ∧ policy = state.current.payload.policy)
    .noAuthorityChange
  match nextRevision state.current.payload.authorityRevision with
  | none => throw .revisionExhausted
  | some revision =>
      let boundary ← state.current.payload.boundary env
      state.capability.authenticate env
        { state.current.payload with
          authorityRevision := revision
          parentDigest := some boundary.digest
          policy := policy
          members := members }

def applyMutationAt (mutation : SignedMembershipMutation) (now : ℕ) :
    Except CheckpointError CooperativeMembershipState := do
  state.requireParticipation now
  state.validateMutation env mutation.payload now
  fieldBound mutation.signature maxSignatureBytes
  bytesBound (env.mutationJsonLen mutation) maxMutationBytes
  verifySignature env mutation.payload.issuer mutationDomain
    (env.mutationPayloadJson mutation.payload) mutation.signature
  let next ← state.changedSnapshot env mutation.payload.change now
  pure { state with
    current := next
    names := compatibleNames next.payload state.names
    syncState := participation next.payload state.localPeer now }

/-! ## Hostnames -/

def mergeHostnameClaims (claims : List SignedHostnameClaim) :
    Except CheckpointError CooperativeMembershipState := do
  validateNames env state.current.payload claims
  let names ← mergeNames env state.current.payload state.names claims
  pure { state with names := names }

/-! ## Resync rounds -/

/-- `begin_resync`.  The nonce is random, but never zero. -/
def beginResync (now window : ℕ) (nonce : {nonce : Bytes32 // nonce ≠ 0}) :
    Except CheckpointError (CooperativeMembershipState × SnapshotChallenge) := do
  refuseIf (window = 0 ∨ window > maxResyncWindow) (.invalid "invalid resync window")
  refuseIf (now + window > env.maxInstant) (.invalid "resync deadline overflow")
  let challenge : SnapshotChallenge := { anchor := state.capability.anchor, nonce := nonce.1 }
  pure ({ state with
    round := some
      { challenge := challenge
        deadline := now + window
        best := state.current
        names := state.names
        observedOffer := false }
    syncState := .resyncing }, challenge)

def collectOffer (offer : SignedSnapshotOffer) (transportPeer : T) (now : ℕ) :
    Except CheckpointError (CooperativeMembershipState × OfferOutcome) :=
  match state.round with
  | none => throw .noSyncRound
  | some round => do
      refuseIf (now ≥ round.deadline) .syncWindowClosed
      refuseIf (offer.payload.challenge ≠ round.challenge) .wrongChallenge
      offer.validateShape env
      state.capability.verify env offer.payload.snapshot
      refuseIf (offer.payload.publisher.peerId ≠ env.peerIdText transportPeer) .wrongPublisher
      refuseIf (¬ (offer.payload.snapshot.payload.member offer.payload.publisher.peerId).any
        (·.subject = offer.payload.publisher)) .wrongPublisher
      verifySignature env offer.payload.publisher offerDomain (env.offerPayloadJson offer.payload)
        offer.signature
      let rank ← offer.payload.snapshot.payload.rank env
      let currentRank ← state.current.payload.rank env
      refuseIf (rank < currentRank) .staleSnapshot
      let bestRank ← round.best.payload.rank env
      let outcome : OfferOutcome :=
        if rank > bestRank then .selectedHigherRank else .keptCurrentRank
      let best :=
        if outcome = .selectedHigherRank then offer.payload.snapshot else round.best
      let names ← mergeNames env best.payload (compatibleNames best.payload round.names)
        (compatibleNames best.payload offer.payload.hostnameClaims)
      pure ({ state with
        round := some { round with best := best, names := names, observedOffer := true } }, outcome)

/-- `rebase_live_resync_on_installed`. -/
def rebaseLiveResyncOnInstalled (state installed : CooperativeMembershipState) :
    Except CheckpointError CooperativeMembershipState := do
  refuseIf (state.localPeer ≠ installed.localPeer ∨
      state.capability.anchor ≠ installed.capability.anchor ∨
      ¬ (installed.syncState = .participating ∨ installed.syncState = .excluded)) .noParticipation
  state.capability.verify env installed.current
  validateNames env installed.current.payload installed.names
  let previous ← state.current.payload.boundary env
  refuseIf (checkedAdd64 previous.authorityRevision 1
      ≠ some installed.current.payload.authorityRevision ∨
      installed.current.payload.parentDigest ≠ some previous.digest) .staleMutation
  match state.round with
  | none => throw .noSyncRound
  | some round => do
      let rank ← installed.current.payload.rank env
      let bestRank ← round.best.payload.rank env
      let best := if rank > bestRank then installed.current else round.best
      let names ← mergeNames env best.payload (compatibleNames best.payload round.names)
        (compatibleNames best.payload installed.names)
      pure { state with
        current := installed.current
        names := installed.names
        round := some { round with best := best, names := names } }

/-- The members of one roster whose peers are not on another. -/
def membersBeyond (snapshot other : CheckpointSnapshot) : ℕ :=
  (snapshot.members.filter fun member => (other.member member.peerId).isNone).length

def finishResync (now wallNow : ℕ) :
    Except CheckpointError (CooperativeMembershipState × BranchSelection) :=
  match state.round with
  | none => throw .noSyncRound
  | some round => do
      refuseIf (now < round.deadline) .syncWindowNotElapsed
      state.capability.verify env round.best
      let previous ← state.current.payload.boundary env
      let selected ← round.best.payload.boundary env
      let immediateSuccessor : Bool :=
        checkedAdd64 previous.authorityRevision 1 = some selected.authorityRevision ∧
          round.best.payload.parentDigest = some previous.digest
      let syncState := participation round.best.payload state.localPeer wallNow
      pure ({ state with
          current := round.best
          names := round.names
          syncState := syncState
          round := none },
        { previous := previous
          selected := selected
          decisionsMayHaveBeenDiscarded := previous ≠ selected ∧ ¬ immediateSuccessor
          addedMembers := membersBeyond round.best.payload state.current.payload
          removedMembers := membersBeyond state.current.payload round.best.payload
          observedRemoteOffer := round.observedOffer
          syncState := syncState })

end CooperativeMembershipState

end P2pVpn.Checkpoint
