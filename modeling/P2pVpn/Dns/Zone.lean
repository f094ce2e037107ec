/-
# The DNS zone of a network

A node serves a zone with a record set for every name of its network.  Peers get names from the
configuration, from the membership and from their own hostname records, and each also has a
fallback name that spells its overlay address.  A name that two peers claim is a conflict and gets
no record set.  The addresses of a peer are its built-in ones, the one it is configured with, and
the routes to single hosts that are configured or granted for it.

The hash maps of the construction are handed out in orders of their own (`ZoneOrder`).
-/
import P2pVpn.Dns.HostnameRecord
import P2pVpn.Forward.Config
import P2pVpn.Lib.Bytes
import P2pVpn.Lib.SortedTable
import P2pVpn.Net.SocketAddr

namespace P2pVpn.Dns

open Lib Net P2pVpn.Membership P2pVpn.Checkpoint P2pVpn.Forward

def dnsPrivateSuffix : String := "p2p-vpn.internal"
def maxDnsTtlSeconds : ℕ := 300
def maxDnsRecordSets : ℕ := 1024
def maxDnsAddressesPerPeer : ℕ := 256
def maxDnsAddresses : ℕ := 4096

/-! ## Configuration -/

def isLoopback : IpAddr → Bool
  | .v4 bits => bits.toNat / 2 ^ 24 = 127
  | .v6 bits => bits = 1

structure DnsConfig where
  enabled : Bool
  hostname : Option String
  listen : SocketAddr
  ttlSeconds : ℕ
deriving DecidableEq, Repr

inductive DnsValidationError where
  | missingHostname
  | invalidHostname (error : DnsNameError)
  | invalidNetworkName (error : DnsNameError)
  | nonLoopbackListener (listen : SocketAddr)
  | invalidTtl (value max : ℕ)
deriving DecidableEq, Repr

def DnsConfig.validate (dns : DnsConfig) (networkName : String) : Except DnsValidationError Unit :=
  if dns.enabled then
    match dns.hostname with
    | none => .error .missingHostname
    | some hostname => do
        let _ ← (canonicalDnsLabel hostname).mapError .invalidHostname
        let _ ← (canonicalDnsLabel networkName).mapError .invalidNetworkName
        refuseIf (¬ isLoopback dns.listen.ip) (.nonLoopbackListener dns.listen)
        refuseIf (dns.ttlSeconds = 0 ∨ dns.ttlSeconds > maxDnsTtlSeconds)
          (.invalidTtl dns.ttlSeconds maxDnsTtlSeconds)
  else .ok ()

/-- The network of a configuration, with what it says about names. -/
structure NetworkConfig extends Forward.NetworkConfig where
  dns : DnsConfig
deriving DecidableEq, Repr

/-- A configured peer, with its name. -/
structure PeerConfig extends Forward.PeerConfig where
  name : Option String
deriving DecidableEq, Repr

structure Config where
  network : NetworkConfig
  peers : List PeerConfig
deriving DecidableEq, Repr

/-- The part of the configuration that routes are compiled from. -/
def Config.routing (config : Config) : Forward.Config where
  network := config.network.toNetworkConfig
  peers := config.peers.map (·.toPeerConfig)

/-! ## Names -/

def zoneName (networkName : String) : Except DnsNameError String := do
  let label ← canonicalDnsLabel networkName
  pure (label ++ "." ++ dnsPrivateSuffix ++ ".")

def fullyQualifiedName (label zone : String) : Except DnsNameError String := do
  let label ← canonicalDnsLabel label
  pure (label ++ "." ++ zone)

def peerFallbackLabel {T K : Type} (env : SigningPlatform T K) (peer : PeerId) : String :=
  "peer-" ++ String.ofList ((env.crockford.encode (toBeBytes 32 peer.val)).map Char.toLower)

inductive DnsNameSource where
  | localConfiguration
  | peerConfiguration
  | signedMembership
  | signedHostname
  | peerIdFallback
deriving DecidableEq, Repr

/-- The place of a source in the derived order. -/
def DnsNameSource.number : DnsNameSource → ℕ
  | localConfiguration => 0
  | peerConfiguration => 1
  | signedMembership => 2
  | signedHostname => 3
  | peerIdFallback => 4

lemma DnsNameSource.number_injective : Function.Injective DnsNameSource.number := by
  intro a b h
  cases a <;> cases b <;> first | rfl | cases h

structure EffectivePeerName where
  peer : PeerId
  transportPeer : String
  label : String
  source : DnsNameSource
deriving DecidableEq, Repr

/-- The orders in which the hash maps are handed out: the members of the membership, the owners of
names, the addresses of the peers, the labels, the claimants of each label, and the record sets that
addresses lead back to. -/
structure ZoneOrder where
  members : KeyOrder PeerId
  owners : KeyOrder PeerId
  addresses : KeyOrder PeerId
  labels : KeyOrder String
  claimants : String → KeyOrder PeerId
  preferred : KeyOrder PeerId

variable {T K : Type} (env : SigningPlatform T K)

section Names

variable (hostnameRecords : HashMap PeerId String)
  (state : HashMap PeerId String × List EffectivePeerName)

/-- A peer with the names it is given; a hostname record of the peer takes the place of all of
them. -/
def claimNames (peer : PeerId) (transportPeer : String) (labels : List String)
    (source : DnsNameSource) :
    HashMap PeerId String × List EffectivePeerName :=
  (state.1.insert peer transportPeer,
    state.2 ++ if (hostnameRecords.get? peer).isSome then [] else
      labels.map fun label => ⟨peer, transportPeer, label, source⟩)

/-- The loop over the configured peers. -/
def claimConfigured (membership : EffectiveMembership T) (localPeer : PeerId)
    (state : HashMap PeerId String × List EffectivePeerName) (configured : PeerConfig) :
    Except ConfigError (HashMap PeerId String × List EffectivePeerName) := do
  let peer ← configured.peerId env
  if allowsConfiguredPeer membership localPeer peer then
    pure (claimNames hostnameRecords state peer configured.id configured.name.toList
      .peerConfiguration)
  else pure state

/-- The loop over the members. -/
def claimMember (member : EffectiveMember T) : HashMap PeerId String × List EffectivePeerName :=
  claimNames hostnameRecords state member.peer (env.peerIdText member.transportPeer)
    member.hostnames .signedMembership

/-- The loop over the owners of names: the name of the hostname record, and the fallback. -/
def ownerNames (owner : PeerId × String) : List EffectivePeerName :=
  ((hostnameRecords.get? owner.1).toList.map fun label => ⟨owner.1, owner.2, label, .signedHostname⟩)
    ++ [⟨owner.1, owner.2, peerFallbackLabel env owner.1, .peerIdFallback⟩]

/-- What names are sorted by. -/
def EffectivePeerName.sortKey (name : EffectivePeerName) : String ×ₗ String ×ₗ ℕ :=
  toLex (name.label, toLex (name.transportPeer, name.source.number))

def effectivePeerNames (config : Config) (membership : EffectiveMembership T) (order : ZoneOrder) :
    Except ConfigError (List EffectivePeerName) := do
  let localPeer ← config.routing.localPeerId env
  if membership.checkpointAuthoritative ∧ ¬ authorizesConfiguredPeer membership localPeer then
    pure []
  else do
    let transportPeer ← config.routing.localPeer env
    let state ← config.peers.foldlM (claimConfigured env hostnameRecords membership localPeer)
      (claimNames hostnameRecords (∅, []) localPeer transportPeer config.network.dns.hostname.toList
        .localConfiguration)
    let state := (allowedMembers membership localPeer order.members).foldl
      (claimMember env hostnameRecords) state
    pure (sortBy EffectivePeerName.sortKey
      (state.2 ++ (order.owners.entries state.1).flatMap (ownerNames env hostnameRecords)))

end Names

/-! ## Addresses -/

inductive DnsZoneError where
  | disabled
  | validation (error : DnsValidationError)
  | name (error : DnsNameError)
  | config (error : ConfigError)
  | membership (error : MembershipRecordError)
  | invalidExplicitIp (address : String)
  | tooManyRecordSets (actual max : ℕ)
  | tooManyPeerAddresses (peer : PeerId) (actual max : ℕ)
  | tooManyAddresses (actual max : ℕ)
  /-- The program panics: a name has no owner, or its owner no addresses. -/
  | panicked
deriving DecidableEq, Repr

structure PeerAddresses where
  transportPeer : String
  ipv4 : Finset (BitVec 32)
  ipv6 : Finset (BitVec 128)
deriving DecidableEq

namespace PeerAddresses

def insertIp (addresses : PeerAddresses) : IpAddr → PeerAddresses
  | .v4 bits => { addresses with ipv4 := insert bits addresses.ipv4 }
  | .v6 bits => { addresses with ipv6 := insert bits addresses.ipv6 }

def new (transportPeer : String) (peer : PeerId) : PeerAddresses :=
  (insertIp ⟨transportPeer, ∅, ∅⟩ (builtinIpv4 peer)).insertIp (builtinIpv6 peer)

def count (addresses : PeerAddresses) : ℕ := addresses.ipv4.card + addresses.ipv6.card

end PeerAddresses

/-- `parse_explicit_ip`: what stands before the slash, if there is one. -/
def parseExplicitIp (input : String) : Except DnsZoneError IpAddr :=
  let address := input.toList.takeWhile (· ≠ '/')
  match parseIpAddr address with
  | none => .error (.invalidExplicitIp (String.ofList address))
  | some ip => .ok ip

/-- The block is a single address. -/
def isHostRoute (cidr : IpCidr) : Bool :=
  match cidr.address with
  | .v4 _ => cidr.prefixLen = 32
  | .v6 _ => cidr.prefixLen = 128

variable (addresses : PeerAddresses) (peers : HashMap PeerId PeerAddresses)

def addHostRoute (route : RouteConfig) : Except DnsZoneError PeerAddresses := do
  let cidr ← route.cidr.mapError fun error => .config (.routePrefix error)
  if isHostRoute cidr then pure (addresses.insertIp cidr.address) else pure addresses

def addHostRoutes (routes : List RouteConfig) : Except DnsZoneError PeerAddresses :=
  routes.foldlM addHostRoute addresses

def addExplicitIp (vpnIp : Option String) : Except DnsZoneError PeerAddresses :=
  match vpnIp with
  | none => .ok addresses
  | some input => do
      let address ← parseExplicitIp input
      pure (addresses.insertIp address)

/-- The addresses of one peer, beside those it has already. -/
def addAddresses (peer : PeerId) (transportPeer : String) (vpnIp : Option String)
    (routes : List RouteConfig) :
    Except DnsZoneError (HashMap PeerId PeerAddresses) := do
  let addresses ← addExplicitIp ((peers.get? peer).getD (.new transportPeer peer)) vpnIp
  let addresses ← addHostRoutes addresses routes
  pure (peers.insert peer addresses)

/-- The loop over the configured peers. -/
def addConfigured (membership : EffectiveMembership T) (localPeer : PeerId)
    (peers : HashMap PeerId PeerAddresses) (configured : PeerConfig) :
    Except DnsZoneError (HashMap PeerId PeerAddresses) := do
  let peer ← (configured.peerId env).mapError .config
  if allowsConfiguredPeer membership localPeer peer then
    addAddresses peers peer configured.id configured.vpnIp configured.routes
  else pure peers

/-- The loop over the members. -/
def addMember (member : EffectiveMember T) : Except DnsZoneError (HashMap PeerId PeerAddresses) :=
  addAddresses peers member.peer (env.peerIdText member.transportPeer) none member.routeGrants

/-- The limits on the addresses of each peer and of all. -/
def checkAddresses (order : KeyOrder PeerId) (peers : HashMap PeerId PeerAddresses) :
    Except DnsZoneError Unit := do
  (order.entries peers).forM fun entry =>
    refuseIf (entry.2.count > maxDnsAddressesPerPeer)
      (.tooManyPeerAddresses entry.1 entry.2.count maxDnsAddressesPerPeer)
  refuseIf (peers.total PeerAddresses.count > maxDnsAddresses)
    (.tooManyAddresses (peers.total PeerAddresses.count) maxDnsAddresses)

/-! ## The zone -/

/-- Who claims a name, and from where. -/
abbrev Owners : Type := HashMap PeerId (Finset DnsNameSource)

def insertName (names : HashMap String Owners) (claim : EffectivePeerName) :
    Except DnsZoneError (HashMap String Owners) := do
  let label ← (canonicalDnsLabel claim.label).mapError .name
  let owners := (names.get? label).getD ∅
  pure (names.insert label
    (owners.insert claim.peer (insert claim.source ((owners.get? claim.peer).getD ∅))))

structure DnsRecordSet where
  label : String
  fqdn : String
  peer : PeerId
  transportPeer : String
  ipv4 : List (BitVec 32)
  ipv6 : List (BitVec 128)
  sources : List DnsNameSource
  fallback : Bool
deriving DecidableEq, Repr

structure DnsNameConflict where
  label : String
  fqdn : String
  peers : List PeerId
deriving DecidableEq, Repr

/-- The text of a peer's overlay address, in hexadecimal digits. -/
def overlayText (peer : PeerId) : String :=
  String.ofList ((toBeBytes 32 peer.val).flatMap fun byte =>
    [Nat.digitChar (byte.toNat / 16), Nat.digitChar (byte.toNat % 16)])

/-- The record set of a name with one owner. -/
def recordSet (label fqdn : String) (peer : PeerId) (addresses : PeerAddresses)
    (sources : Finset DnsNameSource) : DnsRecordSet where
  label := label
  fqdn := fqdn
  peer := peer
  transportPeer := addresses.transportPeer
  ipv4 := (KeyOrder.sortedBy BitVec.toNat fun _ _ => BitVec.eq_of_toNat_eq).enumerate addresses.ipv4
  ipv6 := (KeyOrder.sortedBy BitVec.toNat fun _ _ => BitVec.eq_of_toNat_eq).enumerate addresses.ipv6
  sources := (KeyOrder.sortedBy _ DnsNameSource.number_injective).enumerate sources
  fallback := sources = {.peerIdFallback}

/-- What becomes of a name: a record set, or a conflict. -/
def zoneEntry (order : KeyOrder PeerId) (zone : String) (peers : HashMap PeerId PeerAddresses)
    (label : String) (owners : Owners) : Except DnsZoneError (DnsRecordSet ⊕ DnsNameConflict) := do
  let fqdn ← (fullyQualifiedName label zone).mapError .name
  if owners.keys.card > 1 then
    pure (.inr ⟨label, fqdn, sortBy overlayText (order.enumerate owners.keys)⟩)
  else
    match order.entries owners with
    | [] => throw .panicked
    | (peer, sources) :: _ =>
        match peers.get? peer with
        | none => throw .panicked
        | some addresses => pure (.inl (recordSet label fqdn peer addresses sources))

structure DnsZone where
  networkName : String
  zone : String
  ttlSeconds : ℕ
  nextRefreshUnixSeconds : Option ℕ
  records : List DnsRecordSet
  conflicts : List DnsNameConflict
  reverse : HashMap String String
deriving DecidableEq

def reverseName : IpAddr → String
  | .v4 bits =>
      ".".intercalate ((List.range 4).map fun i => toString (bits.toNat / 256 ^ i % 256)) ++
        ".in-addr.arpa."
  | .v6 bits =>
      String.ofList ((List.range 32).flatMap fun i => [Nat.digitChar (bits.toNat / 16 ^ i % 16), '.'])
        ++ "ip6.arpa."

/-- The record set of each peer that its addresses lead back to: the first, or the first that is
more than a fallback. -/
def preferredRecord (preferred : HashMap PeerId DnsRecordSet) (record : DnsRecordSet) :
    HashMap PeerId DnsRecordSet :=
  match preferred.get? record.peer with
  | none => preferred.insert record.peer record
  | some current =>
      if current.fallback ∧ ¬ record.fallback then preferred.insert record.peer record
      else preferred

def buildReverseRecords (order : KeyOrder PeerId) (records : List DnsRecordSet) :
    HashMap String String :=
  ((order.entries (records.foldl preferredRecord ∅)).map Prod.snd).foldl (fun reverse record =>
    (record.ipv4.map IpAddr.v4 ++ record.ipv6.map IpAddr.v6).foldl
      (fun reverse address => reverse.insert (reverseName address) record.fqdn) reverse) ∅

namespace DnsZone

/-- `from_membership_source_at`. -/
def fromMembershipSourceAt (config : Config) (memberRecords : List SignedMembershipRecord)
    (hostnameRecords : HashMap PeerId String) (nowUnixSeconds : ℕ)
    (membership : Except MembershipRecordError (EffectiveMembership T)) (order : ZoneOrder) :
    Except DnsZoneError DnsZone := do
  (config.network.dns.validate config.network.name).mapError .validation
  refuseIf (¬ config.network.dns.enabled) .disabled
  let zone ← (zoneName config.network.name).mapError .name
  let localPeer ← (config.routing.localPeerId env).mapError .config
  let localTransportPeer ← (config.routing.localPeer env).mapError .config
  let peers ← addAddresses ∅ localPeer localTransportPeer config.network.vpnIp config.network.routes
  let effective ← membership.mapError .membership
  let claims ← (effectivePeerNames env hostnameRecords config effective order).mapError .config
  let names ← claims.foldlM insertName ∅
  let peers ← config.peers.foldlM (addConfigured env effective localPeer) peers
  let peers ← (allowedMembers effective localPeer order.members).foldlM (addMember env) peers
  checkAddresses order.addresses peers
  let entries ← (order.labels.entries names).mapM fun entry =>
    zoneEntry (order.claimants entry.1) zone peers entry.1 entry.2
  let records := entries.filterMap Sum.getLeft?
  refuseIf (records.length > maxDnsRecordSets) (.tooManyRecordSets records.length maxDnsRecordSets)
  let records := sortBy (·.fqdn) records
  pure
    { networkName := config.network.name
      zone := zone
      ttlSeconds := config.network.dns.ttlSeconds
      nextRefreshUnixSeconds :=
        ((memberRecords.filterMap (·.payload.expiresAtUnixSeconds)).filter (nowUnixSeconds < ·)).min?
      records := records
      conflicts := sortBy (·.fqdn) (entries.filterMap Sum.getRight?)
      reverse := buildReverseRecords order.preferred records }

def canonicalFqdn (name : String) : String :=
  let canonical := name.toList.map Char.toLower
  String.ofList (if canonical.getLast? = some '.' then canonical else canonical ++ ['.'])

def conflict (zone : DnsZone) (fqdn : String) : Option DnsNameConflict :=
  lookup (·.fqdn) zone.conflicts (canonicalFqdn fqdn)

def record (zone : DnsZone) (fqdn : String) : Option DnsRecordSet :=
  lookup (·.fqdn) zone.records (canonicalFqdn fqdn)

end DnsZone

end P2pVpn.Dns
