/-
# Signed membership records

A membership record is a signed statement of one peer about another: a grant of roles and
routes, possibly with an expiry, or a revocation.  This file models the record, the checks a
single record must pass (`verify`), and the version, issue-time and network checks around it.

What the checks need from third-party code (the JSON and Base64 encodings, peer identifiers and
public keys of libp2p, SHA-256) is gathered in `Platform`.
-/
import Mathlib.Data.String.Basic
import Mathlib.Data.Prod.Lex
import P2pVpn.Dns.Label
import P2pVpn.Lib.Except
import P2pVpn.Net.Cidr

namespace P2pVpn

/-- A 32-byte array, read as a big-endian number: the numeric order is the lexicographic order
of the bytes. -/
abbrev Bytes32 : Type := Fin (2 ^ 256)

/-- Addition of unsigned 64-bit integers that stops at the largest one. -/
def saturatingAdd64 (a b : ℕ) : ℕ := min (a + b) (2 ^ 64 - 1)

namespace Membership

open Net Dns Lib

def membershipRecordVersion : ℕ := 1
def maxMembershipRecordInteger : ℕ := 2 ^ 63 - 1
def maxMembershipRecords : ℕ := 256
def maxMembershipRecordEncodedLen : ℕ := 12 * 1024
def maxMembershipClockSkewSeconds : ℕ := 60

/-- The roles a grant can carry. -/
inductive MembershipRole where
  | overlayMember
  | routeAuthority
deriving DecidableEq, Repr

/-- The signed content of a membership record. -/
structure MembershipRecordPayload where
  version : ℕ
  networkName : String
  memberPeer : String
  memberPublicKey : String
  issuerPeer : String
  issuerPublicKey : String
  membershipEpoch : ℕ
  sequence : ℕ
  revoked : Bool
  hostname : Option String
  roles : List MembershipRole
  routeGrants : List RouteConfig
  issuedAtUnixSeconds : ℕ
  expiresAtUnixSeconds : Option ℕ
deriving DecidableEq, Repr

/-- A membership record with the issuer's signature. -/
structure SignedMembershipRecord where
  payload : MembershipRecordPayload
  signature : String
deriving DecidableEq, Repr

/-- The ways a private key can fail to be read or to sign. -/
inductive IdentityError where
  | base64
  | libp2p
  | signing
deriving DecidableEq, Repr

/-- The ways a record or a record list can be refused. -/
inductive MembershipRecordError where
  | identity (error : IdentityError)
  | base64
  | libp2pIdentity
  | libp2pPeerId
  | routePrefix (error : RoutePrefixError)
  | invalidHostname (error : DnsNameError)
  | unsupportedVersion (version : ℕ)
  | emptyNetworkName
  | invalidMembershipEpoch
  | integerOutOfRange (field : String) (value max : ℕ)
  | missingRoles
  | revocationCarriesAuthority
  | revocationExpires
  | networkMismatch (expected actual : String)
  | publicKeyPeerMismatch (field expected actual : String)
  | invalidSignature
  | untrustedIssuer (issuer : String)
  | conflictingRecordVersion (issuer member : String) (membershipEpoch sequence : ℕ)
  | tooManyRecords (max actual : ℕ)
  | encodedRecordTooLarge (actual max : ℕ)
  | expired (expiredAt now : ℕ)
  | issuedInFuture (issuedAt now : ℕ)
  | expiredBeforeIssued
deriving DecidableEq, Repr

/-- The third-party code that records are checked with.  `T` is the type of libp2p peer
identifiers and `K` that of public keys. -/
structure Platform (T K : Type) where
  /-- `serde_json::to_vec` of a payload. -/
  payloadJson : MembershipRecordPayload → List UInt8
  /-- The length of `serde_json::to_vec` of a record. -/
  recordJsonLen : SignedMembershipRecord → ℕ
  /-- Standard Base64 decoding. -/
  base64Decode : String → Option (List UInt8)
  /-- `PublicKey::try_decode_protobuf`. -/
  decodeProtobuf : List UInt8 → Option K
  /-- `PublicKey::to_peer_id`. -/
  toPeerId : K → T
  /-- `str::parse::<libp2p::PeerId>`. -/
  parsePeerId : String → Option T
  /-- The text form of a libp2p peer identifier. -/
  peerIdText : T → String
  /-- The bytes of a libp2p peer identifier. -/
  peerIdBytes : T → List UInt8
  /-- `PublicKey::verify`, on a message and a signature. -/
  verifySignature : K → List UInt8 → List UInt8 → Bool
  /-- SHA-256. -/
  sha256 : List UInt8 → Bytes32

variable {T K : Type} [DecidableEq T] (env : Platform T K)

/-! ## Checks on one payload -/

def validatePortableInteger (field : String) (value : ℕ) : Except MembershipRecordError Unit :=
  refuseIf (value > maxMembershipRecordInteger)
    (.integerOutOfRange field value maxMembershipRecordInteger)

/-- `canonical_dns_label` with its error wrapped. -/
def recordHostname (label : String) : Except MembershipRecordError String :=
  match canonicalDnsLabel label with
  | .ok label => .ok label
  | .error error => .error (.invalidHostname error)

/-- The prefix check of one route grant. -/
def validateRouteGrant (route : RouteConfig) : Except MembershipRecordError Unit :=
  match route.cidr with
  | .ok _ => .ok ()
  | .error error => .error (.routePrefix error)

variable (payload : MembershipRecordPayload) (record : SignedMembershipRecord)

/-- What a revocation must not carry, and what a grant must. -/
def validatePayloadKind : Except MembershipRecordError Unit :=
  if payload.revoked then do
    refuseIf (payload.hostname.isSome ∨ payload.roles ≠ [] ∨ payload.routeGrants ≠ [])
      .revocationCarriesAuthority
    refuseIf payload.expiresAtUnixSeconds.isSome .revocationExpires
  else refuseIf (payload.roles = []) .missingRoles

/-- A hostname, when there is one, must be a valid label. -/
def validatePayloadHostname : Except MembershipRecordError Unit :=
  match payload.hostname with
  | none => .ok ()
  | some hostname => discard (recordHostname hostname)

/-- The expiry must be portable and later than the issue time. -/
def validatePayloadExpiry : Except MembershipRecordError Unit :=
  match payload.expiresAtUnixSeconds with
  | none => .ok ()
  | some expiresAt => do
      validatePortableInteger "expires_at_unix_seconds" expiresAt
      refuseIf (expiresAt ≤ payload.issuedAtUnixSeconds) .expiredBeforeIssued

/-- `validate_payload`. -/
def validatePayload : Except MembershipRecordError Unit := do
  refuseIf (payload.version ≠ membershipRecordVersion) (.unsupportedVersion payload.version)
  refuseIf (payload.networkName = "") .emptyNetworkName
  refuseIf (payload.membershipEpoch = 0) .invalidMembershipEpoch
  validatePortableInteger "membership_epoch" payload.membershipEpoch
  validatePortableInteger "sequence" payload.sequence
  validatePortableInteger "issued_at_unix_seconds" payload.issuedAtUnixSeconds
  validatePayloadKind payload
  validatePayloadHostname payload
  validatePayloadExpiry payload
  payload.routeGrants.forM validateRouteGrant

/-- `validate_payload_issue_time`: no more than the allowed clock skew ahead. -/
def validatePayloadIssueTime (nowUnixSeconds : ℕ) : Except MembershipRecordError Unit :=
  refuseIf
    (payload.issuedAtUnixSeconds > saturatingAdd64 nowUnixSeconds maxMembershipClockSkewSeconds)
    (.issuedInFuture payload.issuedAtUnixSeconds nowUnixSeconds)

/-! ## Checks on one record -/

/-- `"p2p-vpn membership record v1\n"`. -/
def signingDomain : List UInt8 := "p2p-vpn membership record v1\n".toUTF8.toList

def signingMessage : List UInt8 :=
  signingDomain ++ env.payloadJson payload

def decodePublicKey (encoded : String) : Except MembershipRecordError K :=
  match env.base64Decode encoded with
  | none => .error .base64
  | some bytes =>
      match env.decodeProtobuf bytes with
      | none => .error .libp2pIdentity
      | some key => .ok key

/-- `str::parse::<libp2p::PeerId>` with its error wrapped. -/
def parsePeer (text : String) : Except MembershipRecordError T :=
  match env.parsePeerId text with
  | none => .error .libp2pPeerId
  | some peer => .ok peer

/-- The key written in a record must be the key of the peer it is written for. -/
def checkKeyBinding (field encodedKey peerText : String) : Except MembershipRecordError K := do
  let key ← decodePublicKey env encodedKey
  let peer ← parsePeer env peerText
  refuseIf (env.toPeerId key ≠ peer)
    (.publicKeyPeerMismatch field peerText (env.peerIdText (env.toPeerId key)))
  pure key

/-- `SignedMembershipRecord::verify`. -/
def SignedMembershipRecord.verify : Except MembershipRecordError Unit := do
  refuseIf (env.recordJsonLen record > maxMembershipRecordEncodedLen)
    (.encodedRecordTooLarge (env.recordJsonLen record) maxMembershipRecordEncodedLen)
  validatePayload record.payload
  let issuerKey ← checkKeyBinding env "issuer_public_key" record.payload.issuerPublicKey
    record.payload.issuerPeer
  let _ ← checkKeyBinding env "member_public_key" record.payload.memberPublicKey
    record.payload.memberPeer
  match env.base64Decode record.signature with
  | none => throw .base64
  | some signature =>
      refuseIf (¬ env.verifySignature issuerKey (signingMessage env record.payload) signature)
        .invalidSignature

/-- `SignedMembershipRecord::is_expired_at`. -/
def SignedMembershipRecord.isExpiredAt (nowUnixSeconds : ℕ) : Bool :=
  match record.payload.expiresAtUnixSeconds with
  | none => false
  | some expiresAt => decide (expiresAt ≤ nowUnixSeconds)

/-- `ensure_record_network`. -/
def ensureRecordNetwork (networkName : String) : Except MembershipRecordError Unit :=
  refuseIf (record.payload.networkName ≠ networkName)
    (.networkMismatch networkName record.payload.networkName)

def conflictingRecordVersion (record : SignedMembershipRecord) : MembershipRecordError :=
  .conflictingRecordVersion record.payload.issuerPeer record.payload.memberPeer
    record.payload.membershipEpoch record.payload.sequence

/-- `membership_record_version`: the epoch first, then the sequence number. -/
def MembershipRecordPayload.recordVersion : ℕ ×ₗ ℕ :=
  toLex (payload.membershipEpoch, payload.sequence)

/-- A record that its issuer wrote about itself. -/
def SignedMembershipRecord.selfIssued : Bool :=
  record.payload.issuerPeer = record.payload.memberPeer

/-- `PeerId::from_libp2p`: the overlay address of a peer is the hash of its identifier. -/
def fromLibp2p (peer : T) : Bytes32 := env.sha256 (env.peerIdBytes peer)

/-! ## What a verified record is known to satisfy -/

variable {env}

omit [DecidableEq T] in
lemma parsePeer_eq_ok {text : String} {peer : T} :
    parsePeer env text = .ok peer ↔ env.parsePeerId text = some peer := by
  unfold parsePeer
  cases env.parsePeerId text <;> simp

lemma checkKeyBinding_eq_ok {field encodedKey peerText : String} {key : K}
    (h : checkKeyBinding env field encodedKey peerText = .ok key) :
    env.parsePeerId peerText = some (env.toPeerId key) := by
  simp only [checkKeyBinding, bind_eq_ok, refuseIf_eq_ok] at h
  obtain ⟨key', -, peer, hpeer, -, hne, hkey⟩ := h
  obtain rfl : key' = key := by simpa [pure, Except.pure] using hkey
  rw [parsePeer_eq_ok.mp hpeer, not_not.mp hne]

/-- The parts of `validate_payload` that the ledger relies on. -/
structure ValidPayload (payload : MembershipRecordPayload) : Prop where
  roles_eq_nil : payload.revoked → payload.roles = []
  expires_eq_none : payload.revoked → payload.expiresAtUnixSeconds = none
  issued_lt_expires : ∀ expiresAt, payload.expiresAtUnixSeconds = some expiresAt →
    payload.issuedAtUnixSeconds < expiresAt
  hostname_ok : ∀ hostname, payload.hostname = some hostname →
    ∃ label, recordHostname hostname = .ok label

lemma validPayload_of_validatePayload {payload : MembershipRecordPayload}
    (h : validatePayload payload = .ok ()) : ValidPayload payload := by
  simp only [validatePayload, bind_eq_ok, refuseIf_eq_ok] at h
  obtain ⟨-, -, -, -, -, -, -, -, -, -, -, -, _, hkind, _, hname, _, hexpiry, -⟩ := h
  refine ⟨?_, ?_, ?_, ?_⟩
  · intro hrev
    simp only [validatePayloadKind, hrev, if_true, bind_eq_ok, refuseIf_eq_ok] at hkind
    obtain ⟨_, hauth, -⟩ := hkind
    simpa using (not_or.mp (not_or.mp hauth).2).1
  · intro hrev
    simp only [validatePayloadKind, hrev, if_true, bind_eq_ok, refuseIf_eq_ok] at hkind
    obtain ⟨_, -, hnone⟩ := hkind
    simpa using hnone
  · intro expiresAt hexp
    simp only [validatePayloadExpiry, hexp, bind_eq_ok, refuseIf_eq_ok] at hexpiry
    obtain ⟨_, -, hlt⟩ := hexpiry
    omega
  · intro hostname hhost
    simp only [validatePayloadHostname, hhost] at hname
    cases hlabel : recordHostname hostname with
    | ok label => exact ⟨label, rfl⟩
    | error e => simp [hlabel, discard, Functor.discard, Functor.mapConst, Except.map] at hname

/-- A verified record has a valid payload and names two well-formed peer identifiers. -/
structure VerifiedRecord (env : Platform T K) (record : SignedMembershipRecord) : Prop where
  payload : ValidPayload record.payload
  issuer_parses : ∃ peer, env.parsePeerId record.payload.issuerPeer = some peer
  member_parses : ∃ peer, env.parsePeerId record.payload.memberPeer = some peer

lemma verifiedRecord_of_verify {record : SignedMembershipRecord}
    (h : record.verify env = .ok ()) : VerifiedRecord env record := by
  simp only [SignedMembershipRecord.verify, bind_eq_ok, refuseIf_eq_ok] at h
  obtain ⟨_, -, _, hpayload, issuerKey, hissuer, memberKey, hmember, -⟩ := h
  exact ⟨validPayload_of_validatePayload hpayload, ⟨_, checkKeyBinding_eq_ok hissuer⟩,
    ⟨_, checkKeyBinding_eq_ok hmember⟩⟩

end Membership

end P2pVpn
