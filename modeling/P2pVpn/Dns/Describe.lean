/-
# What a node knows about its peers

The zone and the route table are made in separate passes over the same sources: the node's own
configuration, the configured peers it is allowed to reach, and the members of its network.  Each
source describes a peer.  This file names these descriptions (`Described`) and says what each pass
takes from them: the claims of names (`mem_effectivePeerNames`) and the addresses
(`collected_descriptions`).
-/
import P2pVpn.Dns.Zone
import P2pVpn.Forward.Compile

namespace P2pVpn.Dns

open Lib Net P2pVpn.Membership P2pVpn.Checkpoint P2pVpn.Forward

/-! ## Descriptions -/

/-- What a source says about a peer. -/
structure Description where
  peer : PeerId
  transportPeer : String
  names : List String
  nameSource : DnsNameSource
  vpnIp : Option String
  routes : List RouteConfig
  /-- Whether the routes go into the route table. -/
  routed : Bool

/-- The description of the local peer. -/
def ownDescription (config : Config) (localPeer : PeerId) (transportPeer : String) : Description :=
  ⟨localPeer, transportPeer, config.network.dns.hostname.toList, .localConfiguration,
    config.network.vpnIp, config.network.routes, true⟩

variable {T K : Type} (env : SigningPlatform T K)

/-- The description of a configured peer, if it is allowed. -/
def configuredDescription (membership : EffectiveMembership T) (localPeer : PeerId)
    (configured : PeerConfig) : List Description :=
  match configured.peerId env with
  | .error _ => []
  | .ok peer =>
      if allowsConfiguredPeer membership localPeer peer then
        [⟨peer, configured.id, configured.name.toList, .peerConfiguration, configured.vpnIp,
          configured.routes, true⟩]
      else []

/-- The description of a member. -/
def memberDescription (member : EffectiveMember T) : Description :=
  ⟨member.peer, env.peerIdText member.transportPeer, member.hostnames, .signedMembership, none,
    member.routeGrants, EffectiveMember.hasRole member .routeAuthority⟩

/-- The descriptions in the order in which they are read. -/
def descriptions (config : Config) (membership : EffectiveMembership T) (localPeer : PeerId)
    (transportPeer : String) (order : KeyOrder PeerId) : List Description :=
  ownDescription config localPeer transportPeer ::
    (config.peers.flatMap (configuredDescription env membership localPeer) ++
      (allowedMembers membership localPeer order).map (memberDescription env))

/-- The descriptions that a node goes by. -/
def Described (config : Config) (membership : EffectiveMembership T) (description : Description) :
    Prop :=
  ∃ localPeer transportPeer, config.routing.localPeerId env = .ok localPeer ∧
    config.routing.localPeer env = .ok transportPeer ∧
    ∃ order, description ∈ descriptions env config membership localPeer transportPeer order

/-- The peers that a node knows. -/
def Covered (config : Config) (membership : EffectiveMembership T) (peer : PeerId) : Prop :=
  ∃ description, Described env config membership description ∧ description.peer = peer

/-- The names that peers claim for themselves, or others for them. -/
inductive ClaimsName (config : Config) (membership : EffectiveMembership T)
    (hostnameRecords : HashMap PeerId String) : PeerId → String → Prop
  | given {description : Description} {name : String}
      (hdescribed : Described env config membership description) (hname : name ∈ description.names)
      (hnone : hostnameRecords.get? description.peer = none) :
      ClaimsName config membership hostnameRecords description.peer name
  | signed {peer : PeerId} {name : String} (hcovered : Covered env config membership peer)
      (hrecord : hostnameRecords.get? peer = some name) :
      ClaimsName config membership hostnameRecords peer name

/-- The address is one of a description. -/
inductive Description.HasAddress (description : Description) : IpAddr → Prop
  | builtinIpv4 : HasAddress description (builtinIpv4 description.peer)
  | builtinIpv6 : HasAddress description (builtinIpv6 description.peer)
  | explicit {input : String} {address : IpAddr} (hinput : input ∈ description.vpnIp)
      (hparse : parseExplicitIp input = .ok address) : HasAddress description address
  | host {route : RouteConfig} {cidr : IpCidr} (hroute : route ∈ description.routes)
      (hcidr : route.cidr = .ok cidr) (hhost : isHostRoute cidr = true) :
      HasAddress description cidr.address

/-- The block is one that a description routes to its peer. -/
inductive Description.HasBlock (description : Description) : IpCidr → Prop
  | builtinIpv4 : HasBlock description ⟨builtinIpv4 description.peer, 32, le_rfl⟩
  | builtinIpv6 : HasBlock description ⟨builtinIpv6 description.peer, 128, le_rfl⟩
  | explicit {input : String} {cidr : IpCidr} (hinput : input ∈ description.vpnIp)
      (hparse : vpnIpHostRoute input = .ok cidr) : HasBlock description cidr
  | route {route : RouteConfig} {cidr : IpCidr} (hrouted : description.routed = true)
      (hroute : route ∈ description.routes) (hcidr : route.cidr = .ok cidr) :
      HasBlock description cidr

/-- The addresses of a peer. -/
def AddressOf (config : Config) (membership : EffectiveMembership T) (peer : PeerId)
    (address : IpAddr) : Prop :=
  ∃ description, Described env config membership description ∧ description.peer = peer ∧
    description.HasAddress address

variable {env} {config : Config} {membership : EffectiveMembership T} {localPeer : PeerId}
  {transportPeer : String} {order order' : KeyOrder PeerId}

lemma descriptions_perm :
    (descriptions env config membership localPeer transportPeer order).Perm
      (descriptions env config membership localPeer transportPeer order') :=
  ((allowedMembers_perm.map _).append_left _).cons _

variable {description : Description} {read : List Description} {address : IpAddr}
  {addresses : PeerAddresses} {peers after : HashMap PeerId PeerAddresses}

/-- The order of the members does not matter. -/
lemma mem_descriptions (hlocal : config.routing.localPeerId env = .ok localPeer)
    (htransport : config.routing.localPeer env = .ok transportPeer) :
    description ∈ descriptions env config membership localPeer transportPeer order ↔
      Described env config membership description := by
  constructor
  · intro h
    exact ⟨localPeer, transportPeer, hlocal, htransport, order, h⟩
  · rintro ⟨localPeer', transportPeer', hlocal', htransport', order', h⟩
    obtain rfl := Except.ok.inj (hlocal'.symm.trans hlocal)
    obtain rfl := Except.ok.inj (htransport'.symm.trans htransport)
    exact descriptions_perm.mem_iff.mp h

lemma exists_described_iff (hlocal : config.routing.localPeerId env = .ok localPeer)
    (htransport : config.routing.localPeer env = .ok transportPeer) {P : Description → Prop} :
    (∃ description ∈ descriptions env config membership localPeer transportPeer order,
      P description) ↔ ∃ description, Described env config membership description ∧ P description := by
  simp only [mem_descriptions hlocal htransport]

/-! ## The claims of names -/

section Names

variable (hostnameRecords : HashMap PeerId String)

/-- A description read for its names. -/
def claimDescription (state : HashMap PeerId String × List EffectivePeerName)
    (description : Description) : HashMap PeerId String × List EffectivePeerName :=
  claimNames hostnameRecords state description.peer description.transportPeer description.names
    description.nameSource

variable {hostnameRecords}
  {state : HashMap PeerId String × List EffectivePeerName} {zoneOrder : ZoneOrder}
  {names : List EffectivePeerName}

lemma claimConfigured_eq {start : HashMap PeerId String × List EffectivePeerName}
    {configured : PeerConfig}
    (h : claimConfigured env hostnameRecords membership localPeer start configured = .ok state) :
    state = (configuredDescription env membership localPeer configured).foldl
      (claimDescription hostnameRecords) start := by
  obtain ⟨peer, hpeer, h⟩ := bind_eq_ok.mp h
  unfold configuredDescription
  rw [hpeer]
  simp only
  split at h
  · rw [if_pos (by assumption)]
    exact (Except.ok.inj h).symm
  · rw [if_neg (by assumption)]
    exact (Except.ok.inj h).symm

lemma claimConfigured_foldlM_eq {peers : List PeerConfig}
    {start : HashMap PeerId String × List EffectivePeerName}
    (h : peers.foldlM (claimConfigured env hostnameRecords membership localPeer) start = .ok state) :
    state = (peers.flatMap (configuredDescription env membership localPeer)).foldl
      (claimDescription hostnameRecords) start := by
  induction peers generalizing start with
  | nil => exact (Except.ok.inj h).symm
  | cons configured peers ih =>
    obtain ⟨next, hnext, h⟩ := foldlM_cons_eq_ok.mp h
    rw [List.flatMap_cons, List.foldl_append, ← claimConfigured_eq hnext]
    exact ih h

/-- Who has been read, and with which names. -/
structure Claimed (hostnameRecords : HashMap PeerId String)
    (state : HashMap PeerId String × List EffectivePeerName) (read : List Description) : Prop where
  owners : ∀ peer, (∃ text, state.1.get? peer = some text) ↔
    ∃ description ∈ read, description.peer = peer
  names : ∀ peer label, (∃ name ∈ state.2, name.peer = peer ∧ name.label = label) ↔
    ∃ description ∈ read, description.peer = peer ∧ label ∈ description.names ∧
      hostnameRecords.get? peer = none

lemma Claimed.claimDescription (h : Claimed hostnameRecords state read) (description : Description) :
    Claimed hostnameRecords (claimDescription hostnameRecords state description)
      (read ++ [description]) := by
  refine ⟨fun peer => ?_, fun peer label => ?_⟩
  · simp only [Dns.claimDescription, claimNames, HashMap.get?_insert, List.mem_append,
      List.mem_singleton, or_and_right, exists_or, exists_eq_left, ← h.owners]
    by_cases hpeer : peer = description.peer
    · simp [hpeer]
    · simp [hpeer, Ne.symm hpeer]
  · simp only [Dns.claimDescription, claimNames, List.mem_append, List.mem_singleton, or_and_right,
      exists_or, exists_eq_left, ← h.names]
    refine or_congr_right ?_
    cases hrecord : hostnameRecords.get? description.peer with
    | some text =>
      simp only [Option.isSome_some, if_true, List.not_mem_nil, false_and, exists_false, false_iff]
      rintro ⟨rfl, -, hnone⟩
      rw [hnone] at hrecord
      cases hrecord
    | none =>
      simp only [Option.isSome_none, Bool.false_eq_true, if_false, List.mem_map]
      constructor
      · rintro ⟨name, ⟨label', hlabel, rfl⟩, rfl, rfl⟩
        exact ⟨rfl, hlabel, hrecord⟩
      · rintro ⟨rfl, hlabel, -⟩
        exact ⟨_, ⟨label, hlabel, rfl⟩, rfl, rfl⟩

lemma claimed_foldl (h : Claimed hostnameRecords state read) (rest : List Description) :
    Claimed hostnameRecords (rest.foldl (claimDescription hostnameRecords) state) (read ++ rest) := by
  induction rest generalizing state read with
  | nil => simpa using h
  | cons description rest ih =>
    have hrest := ih (h.claimDescription description)
    rwa [List.append_assoc] at hrest

/-- A checkpoint keeps a local peer that it does not authorize from naming anybody. -/
def Silenced (membership : EffectiveMembership T) (localPeer : PeerId) : Prop :=
  membership.checkpointAuthoritative = true ∧ authorizesConfiguredPeer membership localPeer = false

/-- What the names that are read are from: none of them is a fallback. -/
lemma source_ne_of_mem_foldl
    (hread : ∀ description ∈ read, description.nameSource ≠ .peerIdFallback)
    (hstate : ∀ name ∈ state.2, name.source ≠ .peerIdFallback) :
    ∀ name ∈ (read.foldl (claimDescription hostnameRecords) state).2, name.source ≠ .peerIdFallback := by
  induction read generalizing state with
  | nil => exact hstate
  | cons description read ih =>
    obtain ⟨hfirst, hread⟩ := List.forall_mem_cons.mp hread
    refine ih hread fun name hname => ?_
    rcases List.mem_append.mp hname with hname | hname
    · exact hstate name hname
    · split at hname
      · cases hname
      · obtain ⟨label, -, rfl⟩ := List.mem_map.mp hname
        exact hfirst

lemma nameSource_ne_of_mem_descriptions
    (h : description ∈ descriptions env config membership localPeer transportPeer order) :
    description.nameSource ≠ .peerIdFallback := by
  rcases List.mem_cons.mp h with rfl | h
  · nofun
  · rcases List.mem_append.mp h with h | h
    · obtain ⟨configured, -, h⟩ := List.mem_flatMap.mp h
      unfold configuredDescription at h
      split at h
      · cases h
      · split at h
        · rw [List.mem_singleton.mp h]
          nofun
        · cases h
    · obtain ⟨member, -, rfl⟩ := List.mem_map.mp h
      nofun

/-- How the names of a peer that is not silenced came about. -/
lemma effectivePeerNames_eq_ok (hlocal : config.routing.localPeerId env = .ok localPeer)
    (htransport : config.routing.localPeer env = .ok transportPeer)
    (hopen : ¬ Silenced membership localPeer)
    (h : effectivePeerNames env hostnameRecords config membership zoneOrder = .ok names) :
    ∃ final : HashMap PeerId String × List EffectivePeerName,
      Claimed hostnameRecords final
        (descriptions env config membership localPeer transportPeer zoneOrder.members) ∧
      (∀ name ∈ final.2, name.source ≠ .peerIdFallback) ∧
      names.Perm (final.2 ++ (zoneOrder.owners.entries final.1).flatMap (ownerNames env hostnameRecords)) := by
  obtain ⟨localPeer', hlocal', h⟩ := bind_eq_ok.mp h
  obtain rfl := Except.ok.inj (hlocal'.symm.trans hlocal)
  rw [if_neg (by simpa [Silenced] using hopen)] at h
  obtain ⟨transportPeer', htransport', h⟩ := bind_eq_ok.mp h
  obtain rfl := Except.ok.inj (htransport'.symm.trans htransport)
  obtain ⟨state, hstate, h⟩ := bind_eq_ok.mp h
  obtain rfl := Except.ok.inj h
  have hfold : (allowedMembers membership localPeer' zoneOrder.members).foldl
      (claimMember env hostnameRecords) state =
      (descriptions env config membership localPeer' transportPeer' zoneOrder.members).foldl
        (claimDescription hostnameRecords) (∅, []) := by
    rw [descriptions, List.foldl_cons, List.foldl_append, List.foldl_map,
      claimConfigured_foldlM_eq hstate]
    rfl
  have hstart : Claimed hostnameRecords (∅, []) [] := ⟨by simp, by simp⟩
  refine ⟨_, ?_, ?_, perm_sortBy _⟩
  · rw [hfold]
    exact claimed_foldl hstart _
  · rw [hfold]
    exact source_ne_of_mem_foldl (fun _ => nameSource_ne_of_mem_descriptions) (by simp)

lemma effectivePeerNames_of_silenced (hlocal : config.routing.localPeerId env = .ok localPeer)
    (hsilenced : Silenced membership localPeer)
    (h : effectivePeerNames env hostnameRecords config membership zoneOrder = .ok names) :
    names = [] := by
  obtain ⟨localPeer', hlocal', h⟩ := bind_eq_ok.mp h
  obtain rfl := Except.ok.inj (hlocal'.symm.trans hlocal)
  rw [if_pos (by simpa [Silenced] using hsilenced)] at h
  exact (Except.ok.inj h).symm

/-- The names in effect: those that are claimed, and the fallbacks. -/
lemma mem_effectivePeerNames (hlocal : config.routing.localPeerId env = .ok localPeer)
    (htransport : config.routing.localPeer env = .ok transportPeer)
    (h : effectivePeerNames env hostnameRecords config membership zoneOrder = .ok names)
    {peer : PeerId} {label : String} :
    (∃ name ∈ names, name.peer = peer ∧ name.label = label) ↔
      ¬ Silenced membership localPeer ∧
        (ClaimsName env config membership hostnameRecords peer label ∨
          Covered env config membership peer ∧ label = peerFallbackLabel env peer) := by
  by_cases hopen : Silenced membership localPeer
  · rw [effectivePeerNames_of_silenced hlocal hopen h]
    simp [hopen]
  · obtain ⟨final, hread, -, hperm⟩ := effectivePeerNames_eq_ok hlocal htransport hopen h
    have howner : ∀ peer, (∃ text, final.1.get? peer = some text) ↔
        Covered env config membership peer := fun peer =>
      (hread.owners peer).trans (exists_described_iff hlocal htransport)
    simp only [hopen, not_false_eq_true, true_and, hperm.mem_iff, List.mem_append,
      or_and_right, exists_or, hread.names]
    rw [exists_described_iff hlocal htransport]
    constructor
    · rintro (⟨description, hdescribed, rfl, hlabel, hnone⟩ | ⟨name, hname, rfl, rfl⟩)
      · exact Or.inl (.given hdescribed hlabel hnone)
      · obtain ⟨⟨peer, text⟩, hentry, hname⟩ := List.mem_flatMap.mp hname
        have hcovered : Covered env config membership peer :=
          (howner peer).mp ⟨text, KeyOrder.mem_entries.mp hentry⟩
        rcases List.mem_append.mp hname with hname | hname
        · obtain ⟨label, hlabel, rfl⟩ := List.mem_map.mp hname
          exact Or.inl (.signed hcovered (Option.mem_toList.mp hlabel))
        · obtain rfl := List.mem_singleton.mp hname
          exact Or.inr ⟨hcovered, rfl⟩
    · rintro (hclaims | ⟨hcovered, rfl⟩)
      · cases hclaims with
        | given hdescribed hname hnone => exact Or.inl ⟨_, hdescribed, rfl, hname, hnone⟩
        | signed hcovered hrecord =>
          obtain ⟨text, htext⟩ := (howner peer).mpr hcovered
          refine Or.inr ⟨⟨peer, text, label, .signedHostname⟩, List.mem_flatMap.mpr ⟨(peer, text),
            KeyOrder.mem_entries.mpr htext, ?_⟩, rfl, rfl⟩
          simp [ownerNames, hrecord]
      · obtain ⟨text, htext⟩ := (howner peer).mpr hcovered
        refine Or.inr ⟨⟨peer, text, peerFallbackLabel env peer, .peerIdFallback⟩,
          List.mem_flatMap.mpr ⟨(peer, text), KeyOrder.mem_entries.mpr htext, ?_⟩, rfl, rfl⟩
        simp [ownerNames]

end Names

/-! ## The addresses -/

namespace PeerAddresses

/-- The peer has the address. -/
def Has (addresses : PeerAddresses) : IpAddr → Prop
  | .v4 bits => bits ∈ addresses.ipv4
  | .v6 bits => bits ∈ addresses.ipv6

lemma has_insertIp {other : IpAddr} :
    (addresses.insertIp address).Has other ↔ other = address ∨ addresses.Has other := by
  cases address <;> cases other <;> simp [insertIp, Has]

lemma has_new {transportPeer : String} {peer : PeerId} :
    (PeerAddresses.new transportPeer peer).Has address ↔
      address = builtinIpv4 peer ∨ address = builtinIpv6 peer := by
  have hempty : ¬ PeerAddresses.Has ⟨transportPeer, ∅, ∅⟩ address := by cases address <;> simp [Has]
  rw [PeerAddresses.new, has_insertIp, has_insertIp, or_comm]
  simp [hempty]

end PeerAddresses

lemma has_addHostRoutes {routes : List RouteConfig} {after : PeerAddresses}
    (h : addHostRoutes addresses routes = .ok after) :
    after.Has address ↔ addresses.Has address ∨ ∃ route ∈ routes, ∃ cidr, route.cidr = .ok cidr ∧
      isHostRoute cidr = true ∧ cidr.address = address := by
  induction routes generalizing addresses with
  | nil =>
    obtain rfl := Except.ok.inj h
    simp
  | cons route routes ih =>
    obtain ⟨next, hnext, h⟩ := foldlM_cons_eq_ok.mp h
    obtain ⟨cidr, hcidr, hnext⟩ := bind_eq_ok.mp hnext
    rw [ih h]
    simp only [List.mem_cons, or_and_right, exists_or, exists_eq_left, mapError_eq_ok_iff.mp hcidr,
      Except.ok.injEq, exists_eq_left', ← or_assoc]
    refine or_congr_left ?_
    split at hnext
    · rename_i hhost
      obtain rfl := Except.ok.inj hnext
      rw [PeerAddresses.has_insertIp, or_comm, eq_comm]
      simp [hhost]
    · rename_i hhost
      obtain rfl := Except.ok.inj hnext
      simp [hhost]

lemma has_addExplicitIp {vpnIp : Option String} {after : PeerAddresses}
    (h : addExplicitIp addresses vpnIp = .ok after) :
    after.Has address ↔ addresses.Has address ∨ ∃ input ∈ vpnIp,
      parseExplicitIp input = .ok address := by
  cases vpnIp with
  | none =>
    obtain rfl := Except.ok.inj h
    simp
  | some input =>
    obtain ⟨parsed, hparsed, h⟩ := bind_eq_ok.mp h
    obtain rfl := Except.ok.inj h
    rw [PeerAddresses.has_insertIp, or_comm, eq_comm]
    simp [hparsed]

/-- A description read for its addresses. -/
def addDescription (peers : HashMap PeerId PeerAddresses) (description : Description) :
    Except DnsZoneError (HashMap PeerId PeerAddresses) :=
  addAddresses peers description.peer description.transportPeer description.vpnIp description.routes

lemma addConfigured_eq {configured : PeerConfig}
    (h : addConfigured env membership localPeer peers configured = .ok after) :
    (configuredDescription env membership localPeer configured).foldlM addDescription peers
      = .ok after := by
  obtain ⟨peer, hpeer, h⟩ := bind_eq_ok.mp h
  unfold configuredDescription
  rw [mapError_eq_ok_iff.mp hpeer]
  simp only
  split at h
  · rw [if_pos (by assumption)]
    simpa [addDescription] using h
  · rw [if_neg (by assumption)]
    exact h

lemma addConfigured_foldlM_eq {configured : List PeerConfig}
    (h : configured.foldlM (addConfigured env membership localPeer) peers = .ok after) :
    (configured.flatMap (configuredDescription env membership localPeer)).foldlM addDescription peers
      = .ok after := by
  induction configured generalizing peers with
  | nil => exact h
  | cons first configured ih =>
    obtain ⟨next, hnext, h⟩ := foldlM_cons_eq_ok.mp h
    rw [List.flatMap_cons, List.foldlM_append]
    exact bind_eq_ok.mpr ⟨next, addConfigured_eq hnext, ih h⟩

/-- The addresses that have been read. -/
structure Collected (table : HashMap PeerId PeerAddresses) (read : List Description) : Prop where
  peers : ∀ peer, (∃ addresses, table.get? peer = some addresses) ↔
    ∃ description ∈ read, description.peer = peer
  addresses : ∀ peer addresses address, table.get? peer = some addresses →
    (addresses.Has address ↔
      ∃ description ∈ read, description.peer = peer ∧ description.HasAddress address)

lemma Description.hasAddress_iff :
    description.HasAddress address ↔
      (address = Net.builtinIpv4 description.peer ∨ address = Net.builtinIpv6 description.peer) ∨
        (∃ input ∈ description.vpnIp, parseExplicitIp input = .ok address) ∨
        ∃ route ∈ description.routes, ∃ cidr, route.cidr = .ok cidr ∧ isHostRoute cidr = true ∧
          cidr.address = address := by
  constructor
  · intro h
    cases h with
    | builtinIpv4 => exact Or.inl (Or.inl rfl)
    | builtinIpv6 => exact Or.inl (Or.inr rfl)
    | explicit hinput hparse => exact Or.inr (Or.inl ⟨_, hinput, hparse⟩)
    | host hroute hcidr hhost => exact Or.inr (Or.inr ⟨_, hroute, _, hcidr, hhost, rfl⟩)
  · rintro ((rfl | rfl) | ⟨input, hinput, hparse⟩ | ⟨route, hroute, cidr, hcidr, hhost, rfl⟩)
    · exact .builtinIpv4
    · exact .builtinIpv6
    · exact .explicit hinput hparse
    · exact .host hroute hcidr hhost

lemma Collected.addDescription (h : Collected peers read)
    (hadd : addDescription peers description = .ok after) :
    Collected after (read ++ [description]) := by
  obtain ⟨explicit, hexplicit, hadd⟩ := bind_eq_ok.mp hadd
  obtain ⟨final, hfinal, hadd⟩ := bind_eq_ok.mp hadd
  obtain rfl := Except.ok.inj hadd
  -- the addresses before, where those of a new peer are the built-in ones
  have hbefore : ∀ address, ((peers.get? description.peer).getD
      (.new description.transportPeer description.peer)).Has address ↔
      (address = builtinIpv4 description.peer ∨ address = builtinIpv6 description.peer) ∨
        ∃ other ∈ read, other.peer = description.peer ∧ other.HasAddress address := by
    intro address
    cases hpeer : peers.get? description.peer with
    | none =>
      have hnone : ¬ ∃ other ∈ read, other.peer = description.peer ∧ other.HasAddress address := by
        rintro ⟨other, hother, heq, -⟩
        obtain ⟨addresses, haddresses⟩ := (h.peers description.peer).mpr ⟨other, hother, heq⟩
        rw [haddresses] at hpeer
        cases hpeer
      simp only [Option.getD_none, PeerAddresses.has_new, hnone, or_false]
    | some addresses =>
      obtain ⟨other, hother, heq⟩ := (h.peers description.peer).mp ⟨addresses, hpeer⟩
      rw [Option.getD_some, h.addresses _ _ address hpeer]
      refine ⟨Or.inr, ?_⟩
      rintro ((rfl | rfl) | hread)
      · exact ⟨other, hother, heq, heq ▸ .builtinIpv4⟩
      · exact ⟨other, hother, heq, heq ▸ .builtinIpv6⟩
      · exact hread
  refine ⟨fun peer => ?_, fun peer addresses address hpeer => ?_⟩
  · simp only [HashMap.get?_insert, List.mem_append, List.mem_singleton, or_and_right, exists_or,
      exists_eq_left, ← h.peers]
    by_cases hpeer : peer = description.peer
    · simp [hpeer]
    · simp [hpeer, Ne.symm hpeer]
  · simp only [List.mem_append, List.mem_singleton, or_and_right, exists_or, exists_eq_left]
    rw [HashMap.get?_insert] at hpeer
    split at hpeer
    · rename_i heq
      obtain rfl := Option.some.inj hpeer
      subst heq
      rw [has_addHostRoutes hfinal, has_addExplicitIp hexplicit, hbefore,
        Description.hasAddress_iff, or_assoc, or_assoc, or_left_comm]
      simp only [true_and, or_assoc]
    · rename_i hne
      rw [h.addresses _ _ address hpeer]
      simp [Ne.symm hne]

lemma collected_foldlM {rest : List Description} (h : Collected peers read)
    (hadd : rest.foldlM addDescription peers = .ok after) :
    Collected after (read ++ rest) := by
  induction rest generalizing peers read with
  | nil =>
    obtain rfl := Except.ok.inj hadd
    simpa using h
  | cons description rest ih =>
    obtain ⟨next, hnext, hadd⟩ := foldlM_cons_eq_ok.mp hadd
    have hrest := ih (h.addDescription hnext) hadd
    rwa [List.append_assoc] at hrest

/-- The passes of the zone over the sources collect the addresses of all peers. -/
lemma collected_descriptions {start configured : HashMap PeerId PeerAddresses}
    (hstart : addAddresses ∅ localPeer transportPeer config.network.vpnIp config.network.routes
      = .ok start) (hconfigured : config.peers.foldlM (addConfigured env membership localPeer) start
      = .ok configured)
    (hpeers : (allowedMembers membership localPeer order).foldlM (addMember env) configured
      = .ok peers) :
    Collected peers (descriptions env config membership localPeer transportPeer order) := by
  have hall : (descriptions env config membership localPeer transportPeer order).foldlM
      addDescription ∅ = .ok peers := by
    refine foldlM_cons_eq_ok.mpr ⟨start, hstart, ?_⟩
    rw [List.foldlM_append, bind_eq_ok]
    exact ⟨configured, addConfigured_foldlM_eq hconfigured, by rw [List.foldlM_map]; exact hpeers⟩
  have hempty : Collected ∅ [] := ⟨by simp, by simp⟩
  simpa using collected_foldlM hempty hall

end P2pVpn.Dns
