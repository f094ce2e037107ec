/-
# Configurations and what they authorize

The part of a configuration that says which peers and routes a node authorizes, and how this is
compiled for an effective membership: the route table (`compile_routes_with_membership`) and the
transport peers (`transport_peers_from_membership`).  The members of a membership are handed out in
the order of a hash map, so both take that order.
-/
import P2pVpn.Checkpoint.Signing
import P2pVpn.Membership.Effective
import P2pVpn.Net.Route

namespace P2pVpn.Forward

open Lib Net P2pVpn.Membership P2pVpn.Checkpoint

inductive PeerIdParseError where
  | invalidLength (actual : ℕ)
  | invalidHex (byte : UInt8)
deriving DecidableEq, Repr

inductive ConfigError where
  | identity (error : IdentityError)
  | missingPrivateKey
  | identityPeerMismatch (expected actual : String)
  | peerId (error : PeerIdParseError)
  | libp2pPeerId
  | routePrefix (error : RoutePrefixError)
  | route (error : RouteError)
  | membershipRecord (error : MembershipRecordError)
deriving DecidableEq, Repr

structure NetworkConfig where
  name : String
  /-- Empty if the local peer is that of the private key. -/
  localPeer : String
  privateKey : Option String
  memberRecords : List SignedMembershipRecord
  vpnIp : Option String
  routes : List RouteConfig
deriving DecidableEq, Repr

structure PeerConfig where
  id : String
  vpnIp : Option String
  routes : List RouteConfig
deriving DecidableEq, Repr

structure Config where
  network : NetworkConfig
  peers : List PeerConfig
deriving DecidableEq, Repr

variable {T K : Type} (env : SigningPlatform T K)

/-! ## Peers -/

def decodeHex (byte : UInt8) : Except PeerIdParseError ℕ :=
  if 48 ≤ byte ∧ byte ≤ 57 then .ok (byte.toNat - 48)
  else if 97 ≤ byte ∧ byte ≤ 102 then .ok (byte.toNat - 97 + 10)
  else if 65 ≤ byte ∧ byte ≤ 70 then .ok (byte.toNat - 65 + 10)
  else .error (.invalidHex byte)

/-- `PeerId::from_str`: an identifier of libp2p, or 64 hexadecimal digits. -/
def peerIdFromStr (input : String) : Except PeerIdParseError PeerId :=
  match env.parsePeerId input with
  | some peer => .ok (fromLibp2p env.toPlatform peer)
  | none => do
      refuseIf (input.utf8ByteSize ≠ 64) (.invalidLength input.utf8ByteSize)
      let digits ← input.toUTF8.toList.mapM decodeHex
      pure (Fin.ofNat (2 ^ 256) (digits.foldl (fun value digit => 16 * value + digit) 0))

/-- The peer identifier of `NodeIdentity::from_private_key`. -/
def identityPeerId (privateKey : String) : Except IdentityError String := do
  let keypair ← NodeIdentity.keypair env ⟨"", privateKey⟩
  pure (env.peerIdText (env.toPeerId keypair.publicKey))

namespace Config

/-- `local_peer`; without a configured peer it is the one of the private key. -/
def localPeer (config : Config) : Except ConfigError String :=
  if config.network.localPeer = "" then
    match config.network.privateKey with
    | none => .error .missingPrivateKey
    | some privateKey => (identityPeerId env privateKey).mapError .identity
  else .ok config.network.localPeer

def localPeerId (config : Config) : Except ConfigError PeerId := do
  let peer ← config.localPeer env
  (peerIdFromStr env peer).mapError .peerId

end Config

def PeerConfig.peerId (peer : PeerConfig) : Except ConfigError PeerId :=
  (peerIdFromStr env peer.id).mapError .peerId

/-! ## Members -/

section Membership

variable {T : Type}

def EffectiveMember.hasRole (member : EffectiveMember T) (role : MembershipRole) : Bool :=
  member.roles.contains role

variable (membership : EffectiveMembership T)

/-- The overlay members, in the order of the hash map. -/
def overlayMembers (order : KeyOrder PeerId) : List (EffectiveMember T) :=
  ((order.entries membership.members).map Prod.snd).filter
    (EffectiveMember.hasRole · .overlayMember)

/-- The peer is an overlay member. -/
def isOverlayMember (peer : PeerId) : Bool :=
  (membership.members.get? peer).any (EffectiveMember.hasRole · .overlayMember)

/-- `EffectiveMembership::authorizes_configured_peer`: a configured peer needs a grant once anything
is signed about it, or once a checkpoint seals the network. -/
def authorizesConfiguredPeer (peer : PeerId) : Bool :=
  (!membership.checkpointAuthoritative && !decide (peer ∈ membership.governedPeers)) ||
    isOverlayMember membership peer

/-- `EffectiveAuthorization::authorizes_configured_peer`, for a local peer. -/
def allowsConfiguredPeer (localPeer peer : PeerId) : Bool :=
  authorizesConfiguredPeer membership localPeer &&
    (authorizesConfiguredPeer membership peer || isOverlayMember membership peer)

/-- `EffectiveAuthorization::overlay_members`, for a local peer. -/
def allowedMembers (localPeer : PeerId) (order : KeyOrder PeerId) : List (EffectiveMember T) :=
  (overlayMembers membership order).filter fun _ => authorizesConfiguredPeer membership localPeer

end Membership

/-! ## Routes -/

/-- A route to insert, or the reason why it cannot be read. -/
abbrev RouteAttempt : Type := Except ConfigError Route

/-- The built-in addresses of a peer. -/
def builtinRoutes (owner : PeerId) : List RouteAttempt :=
  [.ok ⟨owner, ⟨builtinIpv4 owner, 32, le_rfl⟩, 0⟩, .ok ⟨owner, ⟨builtinIpv6 owner, 128, le_rfl⟩, 0⟩]

def vpnIpHostRoute (input : String) : Except ConfigError IpCidr :=
  if '/' ∈ input.toList then (parseCidr input).mapError .routePrefix
  else
    match parseIpAddr input.toList with
    | none => .error (.routePrefix (.invalidAddress input))
    | some address => .ok ⟨address, address.width, le_rfl⟩

/-- The address that a configuration gives to a peer. -/
def aliasRoutes (owner : PeerId) (vpnIp : Option String) : List RouteAttempt :=
  vpnIp.toList.map fun ip => do
    let cidr ← vpnIpHostRoute ip
    pure ⟨owner, cidr, 0⟩

def configuredRoutes (owner : PeerId) (routes : List RouteConfig) : List RouteAttempt :=
  routes.map fun route => do
    let cidr ← route.cidr.mapError .routePrefix
    pure ⟨owner, cidr, route.metric⟩

/-- What a configured peer contributes. -/
def peerAttempts (membership : EffectiveMembership T) (localPeer : PeerId) (peer : PeerConfig) :
    List RouteAttempt :=
  match peer.peerId env with
  | .error error => [.error error]
  | .ok owner =>
      if allowsConfiguredPeer membership localPeer owner then
        builtinRoutes owner ++ aliasRoutes owner peer.vpnIp ++ configuredRoutes owner peer.routes
      else []

/-- What a member contributes. -/
def memberAttempts (member : EffectiveMember T) : List RouteAttempt :=
  builtinRoutes member.peer ++
    if EffectiveMember.hasRole member .routeAuthority then
      configuredRoutes member.peer member.routeGrants
    else []

namespace Config

/-- The routes that `compile_routes_with_membership` inserts, in its order. -/
def routeAttempts (config : Config) (localPeer : PeerId) (membership : EffectiveMembership T)
    (order : KeyOrder PeerId) : List RouteAttempt :=
  (builtinRoutes localPeer ++ aliasRoutes localPeer config.network.vpnIp ++
    configuredRoutes localPeer config.network.routes) ++
    config.peers.flatMap (peerAttempts env membership localPeer) ++
    (allowedMembers membership localPeer order).flatMap memberAttempts

/-- `compile_routes_with_membership`: the first route that cannot be read or that conflicts with one
before it ends the compilation. -/
def compileRoutesWithMembership (config : Config) (membership : EffectiveMembership T)
    (order : KeyOrder PeerId) : Except ConfigError RouteTable := do
  let localPeer ← config.localPeerId env
  (config.routeAttempts env localPeer membership order).foldlM
    (fun table attempt => do
      let route ← attempt
      (table.insertAuthorized route).mapError .route) ⟨[]⟩

end Config

/-! ## Transport peers -/

/-- The loop over the configured peers. -/
def insertConfiguredPeer (membership : EffectiveMembership T) (localPeer : PeerId)
    (peers : HashMap PeerId T) (peer : PeerConfig) : Except ConfigError (HashMap PeerId T) :=
  match env.parsePeerId peer.id with
  | none => .error .libp2pPeerId
  | some transportPeer =>
      let overlayPeer := fromLibp2p env.toPlatform transportPeer
      if allowsConfiguredPeer membership localPeer overlayPeer then
        .ok (peers.insert overlayPeer transportPeer)
      else .ok peers

/-- The loop over the members. -/
def insertMember (localPeer : PeerId) (peers : HashMap PeerId T) (member : EffectiveMember T) :
    HashMap PeerId T :=
  if member.peer ≠ localPeer then peers.insert member.peer member.transportPeer else peers

def transportPeersFromMembership (config : Config) (membership : EffectiveMembership T)
    (order : KeyOrder PeerId) : Except ConfigError (HashMap PeerId T) := do
  let localPeer ← config.localPeerId env
  let peers ← config.peers.foldlM (insertConfiguredPeer env membership localPeer) ∅
  pure ((allowedMembers membership localPeer order).foldl (insertMember localPeer) peers)

/-- `authorized_peers_from_transport_peers`. -/
def authorizedPeersFromTransportPeers [DecidableEq T] (peers : HashMap PeerId T) : Finset T :=
  (peers.table.entries.map fun entry => entry.2).toFinset

end P2pVpn.Forward
