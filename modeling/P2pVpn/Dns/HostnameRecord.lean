/-
# Hostname records

A peer signs the name it goes by.  A list of such records is valid for a network if every record
verifies and belongs to it, and no peer has signed two records under one sequence number; the
latest record of each peer is then in effect.
-/
import P2pVpn.Checkpoint.Signing
import P2pVpn.Lib.HashMap
import P2pVpn.Lib.StableSort
import P2pVpn.Net.Route

namespace P2pVpn.Dns

open Lib Net P2pVpn.Membership P2pVpn.Checkpoint

def hostnameRecordVersion : ℕ := 1
def maxHostnameRecordInteger : ℕ := 2 ^ 63 - 1
def maxHostnameRecords : ℕ := 256
def maxHostnameRecordEncodedLen : ℕ := 2 * 1024

structure HostnameRecordPayload where
  version : ℕ
  networkName : String
  peer : String
  publicKey : String
  sequence : ℕ
  hostname : String
  issuedAtUnixSeconds : ℕ
deriving DecidableEq, Repr

structure SignedHostnameRecord where
  payload : HostnameRecordPayload
  signature : String
deriving DecidableEq, Repr

inductive HostnameRecordError where
  | base64
  | identity (error : IdentityError)
  | peerId
  | invalidHostname (error : DnsNameError)
  | unsupportedVersion (version : ℕ)
  | emptyNetworkName
  | integerOutOfRange
  | nonCanonicalHostname
  | publicKeyPeerMismatch (expected actual : String)
  | invalidSignature
  | networkMismatch (expected actual : String)
  | conflictingVersion (peer : String) (sequence : ℕ)
  | tooManyRecords (max actual : ℕ)
  | recordTooLarge (max actual : ℕ)
deriving DecidableEq, Repr

/-- The third-party code that hostname records are checked with. -/
structure HostnamePlatform (T K : Type) extends SigningPlatform T K where
  /-- `serde_json::to_vec` of a payload. -/
  hostnameRecordPayloadJson : HostnameRecordPayload → List UInt8
  /-- The length of `serde_json::to_vec` of a record. -/
  hostnameRecordJsonLen : SignedHostnameRecord → ℕ

variable {T K : Type} [DecidableEq T] (env : HostnamePlatform T K)

/-! ## One record -/

/-- `validate_payload`. -/
def HostnameRecordPayload.validate (payload : HostnameRecordPayload) :
    Except HostnameRecordError Unit := do
  refuseIf (payload.version ≠ hostnameRecordVersion) (.unsupportedVersion payload.version)
  refuseIf (payload.networkName = "") .emptyNetworkName
  refuseIf (payload.sequence > maxHostnameRecordInteger ∨
    payload.issuedAtUnixSeconds > maxHostnameRecordInteger) .integerOutOfRange
  let canonical ← (canonicalDnsLabel payload.hostname).mapError .invalidHostname
  refuseIf (canonical ≠ payload.hostname) .nonCanonicalHostname

def hostnameSigningMessage (payload : HostnameRecordPayload) : List UInt8 :=
  "p2p-vpn hostname record v1\n".toUTF8.toList ++ env.hostnameRecordPayloadJson payload

def decodeHostnameKey (encoded : String) : Except HostnameRecordError K :=
  match env.base64Decode encoded with
  | none => .error .base64
  | some bytes =>
      match env.decodeProtobuf bytes with
      | none => .error (.identity .libp2p)
      | some key => .ok key

def parseHostnamePeer (text : String) : Except HostnameRecordError T :=
  match env.parsePeerId text with
  | none => .error .peerId
  | some peer => .ok peer

namespace SignedHostnameRecord

def verify (record : SignedHostnameRecord) : Except HostnameRecordError Unit := do
  refuseIf (env.hostnameRecordJsonLen record > maxHostnameRecordEncodedLen)
    (.recordTooLarge maxHostnameRecordEncodedLen (env.hostnameRecordJsonLen record))
  record.payload.validate
  let key ← decodeHostnameKey env record.payload.publicKey
  let peer ← parseHostnamePeer env record.payload.peer
  refuseIf (env.toPeerId key ≠ peer)
    (.publicKeyPeerMismatch record.payload.peer (env.peerIdText (env.toPeerId key)))
  match env.base64Decode record.signature with
  | none => throw .base64
  | some signature =>
      refuseIf (¬ env.verifySignature key (hostnameSigningMessage env record.payload) signature)
        .invalidSignature

def overlayPeer (record : SignedHostnameRecord) : Except HostnameRecordError PeerId := do
  let peer ← parseHostnamePeer env record.payload.peer
  pure (fromLibp2p env.toPlatform peer)

end SignedHostnameRecord

/-! ## Lists of records -/

/-- The body of the loop of `canonical_hostname_records`: the latest record of each peer so far. -/
def latestHostnameRecord (latest : HashMap String SignedHostnameRecord)
    (record : SignedHostnameRecord) :
    Except HostnameRecordError (HashMap String SignedHostnameRecord) :=
  match latest.get? record.payload.peer with
  | none => .ok (latest.insert record.payload.peer record)
  | some existing =>
      if record.payload.sequence > existing.payload.sequence then
        .ok (latest.insert record.payload.peer record)
      else if record.payload.sequence = existing.payload.sequence ∧ record ≠ existing then
        .error (.conflictingVersion record.payload.peer record.payload.sequence)
      else .ok latest

def canonicalHostnameRecords (order : KeyOrder String) (records : List SignedHostnameRecord) :
    Except HostnameRecordError (List SignedHostnameRecord) := do
  let latest ← records.foldlM latestHostnameRecord ∅
  pure (sortBy (·.payload.peer) ((order.entries latest).map Prod.snd))

/-- The checks on one record of a list. -/
def validateListedHostnameRecord (networkName : String) (record : SignedHostnameRecord) :
    Except HostnameRecordError Unit := do
  refuseIf (record.payload.networkName ≠ networkName)
    (.networkMismatch networkName record.payload.networkName)
  record.verify env

def validateHostnameRecordHistory (order : KeyOrder String) (records : List SignedHostnameRecord)
    (networkName : String) : Except HostnameRecordError Unit := do
  refuseIf (records.length > maxHostnameRecords) (.tooManyRecords maxHostnameRecords records.length)
  records.forM (validateListedHostnameRecord env networkName)
  let _ ← canonicalHostnameRecords order records
  pure ()

def effectiveHostnameRecords (order : KeyOrder String) (records : List SignedHostnameRecord)
    (networkName : String) : Except HostnameRecordError (HashMap PeerId String) := do
  validateHostnameRecordHistory env order records networkName
  let records ← canonicalHostnameRecords order records
  records.foldlM (fun names record => do
    let peer ← record.overlayPeer env
    pure (names.insert peer record.payload.hostname)) ∅

end P2pVpn.Dns
