/-
# A small checkpoint network

The three peers of `Membership.Sample` in a network with checkpoints: a platform that knows their
keys, a capability, snapshots of the network with all or some of them, a mutation, and offers.  The
platform's digests are the last bytes of the message, and its encodings name the revision and the
size of a roster, which tell the snapshots here apart.
-/
import P2pVpn.Checkpoint.Invariant
import P2pVpn.Checkpoint.Signing
import P2pVpn.Lib.Bytes
import P2pVpn.Membership.Sample

namespace P2pVpn.Checkpoint

open Lib P2pVpn.Membership

/-- The number that the last 32 bytes of a message spell. -/
def tailNumber (bytes : List UInt8) : Bytes32 :=
  Fin.ofNat (2 ^ 256) (fromBeBytes bytes)

/-- The platform of the three peers. -/
def sampleEnv : CheckpointPlatform SamplePeer SamplePeer where
  toPlatform := { samplePlatform with sha256 := tailNumber }
  base64Encode bytes :=
    match samplePlatform.decodeProtobuf bytes with
    | some peer => peer.publicKey
    | none => ""
  encodeProtobuf peer := [8, 1, 18, 32, peer.letter]
  hmacSha256 key bytes := key + tailNumber bytes
  snapshotJson snapshot := [snapshot.authorityRevision.toUInt8, snapshot.members.length.toUInt8]
  mutationPayloadJson payload := [payload.base.authorityRevision.toUInt8]
  hostnamePayloadJson payload := [payload.sequence.toUInt8]
  offerPayloadJson payload := [payload.snapshot.payload.authorityRevision.toUInt8]
  admissionJson admission := [admission.2.1.authorityRevision.toUInt8]
  mutationJsonLen _ := 900
  offerJsonLen _ := 2000
  maxInstant := 2 ^ 63

def SamplePeer.publisher (peer : SamplePeer) : SnapshotPublisher := ⟨peer.text, peer.publicKey⟩

def SamplePeer.incarnation (peer : SamplePeer) : Bytes32 := Fin.ofNat (2 ^ 256) peer.letter.toNat

def sampleAnchor : NetworkAnchor := ⟨1, 7, 1, 1⟩

def sampleCapability : NetworkCapability := ⟨sampleAnchor, 11⟩

def sampleMember (peer : SamplePeer) : CheckpointMember where
  subject := SamplePeer.publisher peer
  incarnation := SamplePeer.incarnation peer
  roles := [.overlayMember]
  routeGrants := []
  expiresAtUnixSeconds := none

/-- The snapshot of a revision with the given peers, which are in the order of their texts. -/
def sampleSnapshot (revision : ℕ) (peers : List SamplePeer) : CheckpointSnapshot where
  version := 2
  anchor := sampleAnchor
  authorityRevision := revision
  parentDigest := if revision = 0 then none else some 1
  policy := ⟨256, true⟩
  members := peers.map sampleMember

def sampleAuthenticated (revision : ℕ) (peers : List SamplePeer) : AuthenticatedSnapshot where
  payload := sampleSnapshot revision peers
  mac := sampleCapability.snapshotMac sampleEnv (sampleSnapshot revision peers)

/-- `A` calls itself `nas`. -/
def sampleClaim : SignedHostnameClaim where
  payload := ⟨1, sampleAnchor, SamplePeer.publisher .A, SamplePeer.incarnation .A, 1, "nas"⟩
  signature := "A1"

/-- `A`, which takes part in the network of all three. -/
def sampleState : CooperativeMembershipState where
  capability := sampleCapability
  localPeer := SamplePeer.text .A
  current := sampleAuthenticated 0 [.B, .A, .C]
  names := [sampleClaim]
  syncState := .participating
  round := none

lemma sampleState_valid : StateValid sampleEnv sampleState where
  current := by decide +kernel
  names := by
    have hcurrent : sampleState.capability.verify sampleEnv sampleState.current = .ok () := by
      decide +kernel
    obtain ⟨-, hvalid, -⟩ := NetworkCapability.verify_eq_ok.mp hcurrent
    exact (validateNames_eq_ok hvalid).mp (by decide +kernel)
  round _ h := by cases h

/-- `A` removes `C`. -/
def sampleMutation : SignedMembershipMutation where
  payload :=
    { version := 1
      anchor := sampleAnchor
      base := ⟨0, sampleState.current.payload.digest sampleEnv⟩
      issuer := SamplePeer.publisher .A
      change := .removeMember (SamplePeer.text .C) }
  signature := "A2"

/-- An offer of a snapshot by one of its members, without claims. -/
def sampleArrival (publisher : SamplePeer) (revision : ℕ) (peers : List SamplePeer)
    (signature : String) : Arrival SamplePeer where
  offer :=
    { payload :=
        { version := 1
          challenge := ⟨sampleAnchor, 5⟩
          snapshot := sampleAuthenticated revision peers
          publisher := SamplePeer.publisher publisher
          hostnameClaims := [] }
      signature := signature }
  transportPeer := publisher
  now := 10

/-- `B` offers a branch on which `A` was removed. -/
def sampleRemoval : Arrival SamplePeer := sampleArrival .B 1 [.B, .C] "B1"

/-- `C` offers a higher branch on which `A` is still a member, as before. -/
def sampleRetention : Arrival SamplePeer := sampleArrival .C 2 [.B, .A, .C] "C1"

/-- A digit of base 32. -/
def crockfordLetter (digit : ℕ) : Char := "0123456789ABCDEFGHJKMNPQRSTVWXYZ".toList.getD digit '='

lemma crockfordLetter_facts : ∀ digit < 32, (crockfordLetter digit).isAlphanum = true ∧
    ((List.range 32).map fun d => (crockfordLetter d).toLower).idxOf (crockfordLetter digit).toLower
      = digit := by
  decide +kernel

/-- The number that bytes spell, in base 32. -/
def sampleCrockford : Crockford where
  encode bytes := (beDigits 32 ((8 * bytes.length + 4) / 5) (fromBeBytes bytes)).map crockfordLetter
  length bytes := by simp
  alphanumeric bytes c hc := by
    obtain ⟨digit, hdigit, rfl⟩ := List.mem_map.mp hc
    exact (crockfordLetter_facts digit (lt_of_mem_beDigits (by decide) hdigit)).1
  injective a b hlength h := by
    have hfits : ∀ bytes : List UInt8, fromBeBytes bytes < 32 ^ ((8 * bytes.length + 4) / 5) := by
      intro bytes
      refine (fromBeBytes_lt bytes).trans_le ?_
      rw [show 256 = 2 ^ 8 by rfl, show 32 = 2 ^ 5 by rfl, ← Nat.pow_mul, ← Nat.pow_mul]
      exact Nat.pow_le_pow_right Nat.two_pos (by omega)
    -- the letters are read back as digits
    have hread : ∀ count value, (((beDigits 32 count value).map crockfordLetter).map Char.toLower).map
        ((List.range 32).map fun d => (crockfordLetter d).toLower).idxOf = beDigits 32 count value := by
      intro count value
      rw [List.map_map, List.map_map]
      conv_rhs => rw [← List.map_id (beDigits 32 count value)]
      exact List.map_congr_left fun digit hdigit =>
        (crockfordLetter_facts digit (lt_of_mem_beDigits (by decide) hdigit)).2
    have hdigits := congrArg (List.map ((List.range 32).map fun d =>
      (crockfordLetter d).toLower).idxOf) h
    rw [hread, hread, hlength] at hdigits
    exact fromBeBytes_inj hlength (beDigits_inj (hlength ▸ hfits a) (hfits b) hdigits)

/-- The platform of the three peers, whose private keys are their letters. -/
def sampleSigning : SigningPlatform SamplePeer SamplePeer where
  toCheckpointPlatform :=
    { sampleEnv with
      base64Encode := fun bytes =>
        match bytes with
        | [letter] => String.ofList [Char.ofNat letter.toNat]
        | bytes => sampleEnv.base64Encode bytes }
  keypairFromProtobuf bytes :=
    (SamplePeer.all.find? fun peer => [peer.letter] = bytes).map fun peer => ⟨peer⟩
  crockford := sampleCrockford

end P2pVpn.Checkpoint
