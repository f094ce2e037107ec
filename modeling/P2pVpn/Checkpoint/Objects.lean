/-
# Checkpoint objects

The objects that cooperative checkpoints are made of, as they travel and are stored: network
anchors, members, snapshots with their authentication, mutations, hostname claims and snapshot
offers.  The third-party code they are checked with is gathered in `CheckpointPlatform`, which
extends the platform of membership records; the helpers that use it (sizes, digests, signatures)
follow.

Serialisation of these objects cannot fail, so the encoders are total, and so is `digest`.
-/
import P2pVpn.Lib.SortedTable
import P2pVpn.Membership.Record

namespace P2pVpn.Checkpoint

open Lib Net Dns P2pVpn.Membership

def cooperativeCheckpointVersion : ℕ := 2
def maxCheckpointMembers : ℕ := 256
def maxCheckpointRoutes : ℕ := 32
def maxCheckpointBytes : ℕ := 2 * 1024 * 1024
def maxSnapshotOfferBytes : ℕ := 4 * 1024 * 1024
/-- One minute, in nanoseconds. -/
def maxResyncWindow : ℕ := 60 * 1000000000
def maxKeyBytes : ℕ := 4096
def maxSignatureBytes : ℕ := 4096
def maxMutationBytes : ℕ := 32 * 1024

/-! ## Snapshots -/

/-- What pins a network: its identity and the versions of its rules. -/
structure NetworkAnchor where
  version : ℕ
  networkId : Bytes32
  policyVersion : ℕ
  rankVersion : ℕ
deriving DecidableEq, Repr

/-- The key that the members of a network share. -/
structure NetworkCapability where
  anchor : NetworkAnchor
  macKey : Bytes32
deriving DecidableEq, Repr

structure SnapshotPolicy where
  maxActiveMembers : ℕ
  routeGrantsEnabled : Bool
deriving DecidableEq, Repr

/-- A peer, with its public key in Base64. -/
structure SnapshotPublisher where
  peerId : String
  publicKey : String
deriving DecidableEq, Repr

structure CheckpointMember where
  subject : SnapshotPublisher
  /-- Tells apart the times that a peer was admitted. -/
  incarnation : Bytes32
  roles : List MembershipRole
  routeGrants : List RouteConfig
  expiresAtUnixSeconds : Option ℕ
deriving DecidableEq, Repr

/-- The roster and policy of a network at one revision. -/
structure CheckpointSnapshot where
  version : ℕ
  anchor : NetworkAnchor
  authorityRevision : ℕ
  parentDigest : Option Bytes32
  policy : SnapshotPolicy
  members : List CheckpointMember
deriving DecidableEq, Repr

/-- A point in the history of snapshots. -/
structure CheckpointBoundary where
  authorityRevision : ℕ
  digest : Bytes32
deriving DecidableEq, Repr

structure AuthenticatedSnapshot where
  payload : CheckpointSnapshot
  mac : Bytes32
deriving DecidableEq, Repr

/-! ## Mutations -/

inductive MembershipChange where
  | upsertMember (member : CheckpointMember)
  | removeMember (peer : String)
  | setPolicy (policy : SnapshotPolicy)
  | pruneExpired
deriving DecidableEq, Repr

structure MembershipMutationPayload where
  version : ℕ
  anchor : NetworkAnchor
  base : CheckpointBoundary
  issuer : SnapshotPublisher
  change : MembershipChange
deriving DecidableEq, Repr

structure SignedMembershipMutation where
  payload : MembershipMutationPayload
  signature : String
deriving DecidableEq, Repr

/-! ## Hostname claims and offers -/

@[ext]
structure HostnameClaimPayload where
  version : ℕ
  anchor : NetworkAnchor
  subject : SnapshotPublisher
  incarnation : Bytes32
  sequence : ℕ
  hostname : String
deriving DecidableEq, Repr

structure SignedHostnameClaim where
  payload : HostnameClaimPayload
  signature : String
deriving DecidableEq, Repr

structure SnapshotChallenge where
  anchor : NetworkAnchor
  nonce : Bytes32
deriving DecidableEq, Repr

structure SnapshotOfferPayload where
  version : ℕ
  challenge : SnapshotChallenge
  snapshot : AuthenticatedSnapshot
  publisher : SnapshotPublisher
  hostnameClaims : List SignedHostnameClaim
deriving DecidableEq, Repr

structure SignedSnapshotOffer where
  payload : SnapshotOfferPayload
  signature : String
deriving DecidableEq, Repr

/-! ## Errors and the platform -/

/-- The ways an operation on checkpoints can be refused. -/
inductive CheckpointError where
  | record (error : MembershipRecordError)
  | invalid (reason : String)
  | wrongAnchor
  | invalidMac
  | invalidSignature
  | noAuthorityChange
  | revisionExhausted
  | staleMutation
  | staleSnapshot
  | noParticipation
  | noSyncRound
  | wrongChallenge
  | wrongPublisher
  | syncWindowClosed
  | syncWindowNotElapsed
deriving DecidableEq, Repr

/-- The third-party code that checkpoints are checked with, beyond that of membership records. -/
structure CheckpointPlatform (T K : Type) extends Platform T K where
  /-- Standard Base64 encoding. -/
  base64Encode : List UInt8 → String
  /-- `PublicKey::encode_protobuf`. -/
  encodeProtobuf : K → List UInt8
  /-- HMAC with SHA-256, on a key and a message. -/
  hmacSha256 : Bytes32 → List UInt8 → Bytes32
  /-- `serde_json::to_vec` of the objects that are hashed, authenticated or signed. -/
  snapshotJson : CheckpointSnapshot → List UInt8
  mutationPayloadJson : MembershipMutationPayload → List UInt8
  hostnamePayloadJson : HostnameClaimPayload → List UInt8
  offerPayloadJson : SnapshotOfferPayload → List UInt8
  admissionJson : NetworkAnchor × CheckpointBoundary × SnapshotPublisher → List UInt8
  /-- The length of `serde_json::to_vec` of a signed mutation and of a signed offer. -/
  mutationJsonLen : SignedMembershipMutation → ℕ
  offerJsonLen : SignedSnapshotOffer → ℕ
  /-- The latest `Instant` of the monotonic clock, in nanoseconds. -/
  maxInstant : ℕ

/-! ## Domains -/

def snapshotDomain : List UInt8 := "p2p-vpn cooperative checkpoint v2\n".toUTF8.toList
def mutationDomain : List UInt8 := "p2p-vpn checkpoint mutation v1\n".toUTF8.toList
def hostnameDomain : List UInt8 := "p2p-vpn checkpoint hostname v1\n".toUTF8.toList
def offerDomain : List UInt8 := "p2p-vpn checkpoint offer v1\n".toUTF8.toList
def admissionDomain : List UInt8 :=
  "p2p-vpn checkpoint admission incarnation v1\n".toUTF8.toList

/-! ## Sizes -/

def portable (value : ℕ) : Except CheckpointError Unit :=
  refuseIf (value > maxMembershipRecordInteger) (.invalid "integer exceeds portable range")

/-- `bytes_bound`, on the number of bytes. -/
def bytesBound (len max : ℕ) : Except CheckpointError Unit :=
  refuseIf (len > max) (.invalid "encoding exceeds size limit")

def fieldBound (value : String) (max : ℕ) : Except CheckpointError Unit :=
  bytesBound value.utf8ByteSize max

/-- The error of a record check, passed on. -/
def liftRecord {α : Type} (x : Except MembershipRecordError α) : Except CheckpointError α :=
  x.mapError .record

/-- `u64::checked_add`. -/
def checkedAdd64 (a b : ℕ) : Option ℕ := if a + b < 2 ^ 64 then some (a + b) else none

/-! ## Publishers and signatures -/

variable {T K : Type} [DecidableEq T] (env : CheckpointPlatform T K)

/-- `SnapshotPublisher::validate`: the key is the peer's, and both are in canonical form. -/
def SnapshotPublisher.validate (publisher : SnapshotPublisher) : Except CheckpointError K := do
  fieldBound publisher.peerId 128
  fieldBound publisher.publicKey maxKeyBytes
  let peer ← liftRecord (parsePeer env.toPlatform publisher.peerId)
  let key ← liftRecord (decodePublicKey env.toPlatform publisher.publicKey)
  refuseIf (env.toPeerId key ≠ peer ∨ env.peerIdText peer ≠ publisher.peerId ∨
      env.base64Encode (env.encodeProtobuf key) ≠ publisher.publicKey)
    (.invalid "noncanonical or mismatched member key")
  pure key

/-- `validate_local_peer`. -/
def validateLocalPeer (peer : String) : Except CheckpointError Unit := do
  fieldBound peer 128
  let parsed ← liftRecord (parsePeer env.toPlatform peer)
  refuseIf (env.peerIdText parsed ≠ peer) (.invalid "noncanonical peer identity")

/-- `verify_signature`, on the message made of the domain and the encoded payload. -/
def verifySignature (subject : SnapshotPublisher) (domain json : List UInt8)
    (signature : String) : Except CheckpointError Unit := do
  fieldBound signature maxSignatureBytes
  let key ← subject.validate env
  match env.base64Decode signature with
  | none => throw (.record .base64)
  | some bytes =>
      refuseIf (¬ env.verifySignature key (domain ++ json) bytes) .invalidSignature

/-- `digest` of the message made of the domain and the encoded payload. -/
def digest (domain json : List UInt8) : Bytes32 := env.sha256 (domain ++ json)

/-- `admission_incarnation`. -/
def admissionIncarnation (anchor : NetworkAnchor) (base : CheckpointBoundary)
    (subject : SnapshotPublisher) : Bytes32 :=
  digest env admissionDomain (env.admissionJson (anchor, base, subject))

end P2pVpn.Checkpoint
