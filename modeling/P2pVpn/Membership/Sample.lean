/-
# A small network

Three Ed25519 identities and a platform that knows them, for use with concrete histories.  The
platform reads the identifiers and keys of the three peers as libp2p does, and takes a signature
for genuine when it starts with the letter of the peer that made it.
-/
import P2pVpn.Membership.Record

namespace P2pVpn.Membership

open Lib

/-- The peers `A`, `B` and `C`. -/
inductive SamplePeer where
  | A
  | B
  | C

namespace SamplePeer

/-- The text form of the peer identifier. -/
def text : SamplePeer → String
  | A => "12D3KooWK99VoVxNE7XzyBwXEzW7xhK7Gpv85r9F3V3fyKSUKPH5"
  | B => "12D3KooWJWoaqZhDaoEFshF7Rh1bpY9ohihFhzcW6d69Lr2NASuq"
  | C => "12D3KooWRndVhVZPCiQwHBBBdg769GyrPUW13zxwqQyf9r3ANaba"

/-- The public key, in Base64. -/
def publicKey : SamplePeer → String
  | A => "CAESIIqI4910CfGV/VLbLTy6XXLKZwm/HZQSG/N0iAG0D29c"
  | B => "CAESIIE5dw6ofRdfVqNUZsNMfszLjYqRtO43ol32D1uPybOU"
  | C => "CAESIO1JKMYo0cLG6ukDOJBZlWEpWSc6XGP5NjbBRhSshzfR"

/-- The letter that stands for the peer, which its signatures start with. -/
def letter : SamplePeer → UInt8
  | A => 65
  | B => 66
  | C => 67

def all : List SamplePeer := [A, B, C]

instance : LinearOrder SamplePeer :=
  LinearOrder.lift' (fun peer => peer.letter.toNat) fun a b h => by
    cases a <;> cases b <;> first | rfl | cases h

end SamplePeer

/-- The platform of the three peers.  Decoding keeps of a key and of a signature the letter of the
peer they belong to. -/
def samplePlatform : Platform SamplePeer SamplePeer where
  payloadJson payload := payload.memberPeer.toUTF8.toList
  recordJsonLen _ := 800
  base64Decode text :=
    match SamplePeer.all.find? fun peer => peer.publicKey = text with
    | some peer => some [8, 1, 18, 32, peer.letter]
    | none => text.toList.head?.map fun c => [c.toNat.toUInt8]
  decodeProtobuf
    | [8, 1, 18, 32, letter] => SamplePeer.all.find? fun peer => peer.letter = letter
    | _ => none
  toPeerId peer := peer
  parsePeerId text := SamplePeer.all.find? fun peer => peer.text = text
  peerIdText := SamplePeer.text
  peerIdBytes peer := [peer.letter]
  verifySignature key _ signature := signature = [key.letter]
  sha256
    | [byte] => ⟨byte.toNat, byte.toNat_lt.trans (by decide)⟩
    | _ => 0

/-- A grant of overlay membership in the network `lab`, signed by its issuer. -/
def sampleGrant (issuer member : SamplePeer) (epoch sequence issuedAt : ℕ) (expiresAt : Option ℕ)
    (signature : String) : SignedMembershipRecord where
  payload :=
    { version := 1
      networkName := "lab"
      memberPeer := member.text
      memberPublicKey := member.publicKey
      issuerPeer := issuer.text
      issuerPublicKey := issuer.publicKey
      membershipEpoch := epoch
      sequence := sequence
      revoked := false
      hostname := none
      roles := [.overlayMember]
      routeGrants := []
      issuedAtUnixSeconds := issuedAt
      expiresAtUnixSeconds := expiresAt }
  signature := signature

/-- A revocation in the network `lab`, signed by its issuer. -/
def sampleRevocation (issuer member : SamplePeer) (epoch sequence issuedAt : ℕ)
    (signature : String) : SignedMembershipRecord where
  payload :=
    { (sampleGrant issuer member epoch sequence issuedAt none signature).payload with
      revoked := true
      roles := [] }
  signature := signature

/-- `A` founds the network and admits `B`, who admits `C`. -/
def sampleHistory : List SignedMembershipRecord :=
  [sampleGrant .A .A 1 1 1 none "A1", sampleGrant .A .B 1 1 10 none "A2",
    sampleGrant .B .C 1 1 12 none "B1"]

/-- `A` admits `B` and `C` without a record of its own, as early networks did. -/
def legacyHistory : List SignedMembershipRecord :=
  [sampleGrant .A .B 1 1 10 none "A1", sampleGrant .A .C 1 1 11 none "A2"]

/-- `A` admits `B`, who admits `C` in the same second. -/
def legacyDelegation : List SignedMembershipRecord :=
  [sampleGrant .A .B 1 1 10 none "A1", sampleGrant .B .C 1 1 10 none "B1"]

/-- `B` leaves the network. -/
def sampleResignation : SignedMembershipRecord := sampleRevocation .B .B 1 2 20 "B2"

end P2pVpn.Membership
