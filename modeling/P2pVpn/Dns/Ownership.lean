/-
# Names and routes

The addresses that a zone hands out should be routed to the peers that they are handed out for.  Both
the zone and the route table read the same descriptions of peers, but the grants of a member without
route authority are served and not routed.  Names agree with routes exactly when each address that
such a grant adds to a served peer lies in a block of that peer (`addresses_routed_iff`).
-/
import Mathlib.Data.List.TakeWhile
import P2pVpn.Dns.Fallback
import P2pVpn.Net.Resolve

namespace P2pVpn.Dns

open Lib Net P2pVpn.Membership P2pVpn.Checkpoint P2pVpn.Forward

/-! ## Blocks of a description -/

/-- The routes that a description adds to the table. -/
def Description.attempts (description : Description) : List RouteAttempt :=
  builtinRoutes description.peer ++ aliasRoutes description.peer description.vpnIp ++
    if description.routed then configuredRoutes description.peer description.routes else []

lemma mem_builtinRoutes {owner : PeerId} {attempt : RouteAttempt} :
    attempt ∈ builtinRoutes owner ↔ attempt = .ok ⟨owner, ⟨builtinIpv4 owner, 32, le_rfl⟩, 0⟩ ∨
      attempt = .ok ⟨owner, ⟨builtinIpv6 owner, 128, le_rfl⟩, 0⟩ := by
  simp [builtinRoutes]

lemma mem_aliasRoutes {owner : PeerId} {vpnIp : Option String} {route : Route} :
    Except.ok route ∈ aliasRoutes owner vpnIp ↔
      ∃ input ∈ vpnIp, ∃ cidr, vpnIpHostRoute input = .ok cidr ∧ route = ⟨owner, cidr, 0⟩ := by
  simp only [aliasRoutes, List.mem_map, Option.mem_toList, bind_eq_ok]
  refine exists_congr fun input => and_congr_right fun _ => exists_congr fun cidr =>
    and_congr_right fun _ => ?_
  exact ⟨fun h => (Except.ok.inj h).symm, fun h => congrArg Except.ok h.symm⟩

lemma mem_configuredRoutes {owner : PeerId} {routes : List RouteConfig} {route : Route} :
    Except.ok route ∈ configuredRoutes owner routes ↔
      ∃ config ∈ routes, ∃ cidr, config.cidr = .ok cidr ∧ route = ⟨owner, cidr, config.metric⟩ := by
  simp only [configuredRoutes, List.mem_map, bind_eq_ok, mapError_eq_ok_iff]
  refine exists_congr fun config => and_congr_right fun _ => exists_congr fun cidr =>
    and_congr_right fun _ => ?_
  exact ⟨fun h => (Except.ok.inj h).symm, fun h => congrArg Except.ok h.symm⟩

variable {description : Description} {address : IpAddr}

/-- The routes of a description are its blocks. -/
lemma Description.hasBlock_iff {cidr : IpCidr} :
    description.HasBlock cidr ↔
      ∃ route, Except.ok route ∈ description.attempts ∧ route.cidr = cidr := by
  constructor
  · intro h
    cases h with
    | builtinIpv4 =>
      exact ⟨_, List.mem_append_left _ (List.mem_append_left _ (mem_builtinRoutes.mpr (Or.inl rfl))), rfl⟩
    | builtinIpv6 =>
      exact ⟨_, List.mem_append_left _ (List.mem_append_left _ (mem_builtinRoutes.mpr (Or.inr rfl))), rfl⟩
    | explicit hinput hparse =>
      exact ⟨_, List.mem_append_left _ (List.mem_append_right _
        (mem_aliasRoutes.mpr ⟨_, hinput, cidr, hparse, rfl⟩)), rfl⟩
    | route hrouted hroute hcidr =>
      rename_i config
      refine ⟨⟨description.peer, cidr, config.metric⟩, List.mem_append_right _ ?_, rfl⟩
      rw [if_pos hrouted]
      exact mem_configuredRoutes.mpr ⟨_, hroute, cidr, hcidr, rfl⟩
  · rintro ⟨route, hroute, rfl⟩
    rcases List.mem_append.mp hroute with hroute | hroute
    · rcases List.mem_append.mp hroute with hroute | hroute
      · rcases mem_builtinRoutes.mp hroute with heq | heq
        · obtain rfl := Except.ok.inj heq
          exact .builtinIpv4
        · obtain rfl := Except.ok.inj heq
          exact .builtinIpv6
      · obtain ⟨input, hinput, cidr, hparse, rfl⟩ := mem_aliasRoutes.mp hroute
        exact .explicit hinput hparse
    · split at hroute
      · rename_i hrouted
        obtain ⟨config, hconfig, cidr, hcidr, rfl⟩ := mem_configuredRoutes.mp hroute
        exact .route hrouted hconfig hcidr
      · cases hroute

lemma Description.ownedBy_attempts (description : Description) :
    OwnedBy description.peer description.attempts := by
  refine ((ownedBy_builtinRoutes _).append (ownedBy_aliasRoutes _ _)).append ?_
  split
  · exact ownedBy_configuredRoutes _ _
  · intro route hroute
    cases hroute

variable {T K : Type} {env : SigningPlatform T K} {config : Config}
  {membership : EffectiveMembership T} {localPeer : PeerId} {transportPeer : String}
  {order : KeyOrder PeerId}

/-- The compiler reads the descriptions, and fails on peers whose identifiers cannot be read. -/
lemma mem_routeAttempts_iff {attempt : RouteAttempt} :
    attempt ∈ config.routing.routeAttempts env localPeer membership order ↔
      (∃ description ∈ descriptions env config membership localPeer transportPeer order,
        attempt ∈ description.attempts) ∨
      ∃ configured ∈ config.peers, ∃ error, configured.peerId env = .error error ∧
        attempt = .error error := by
  have hconfigured : ∀ configured : PeerConfig,
      attempt ∈ peerAttempts env membership localPeer configured.toPeerConfig ↔
        (∃ description ∈ configuredDescription env membership localPeer configured,
          attempt ∈ description.attempts) ∨
        ∃ error, configured.peerId env = .error error ∧ attempt = .error error := by
    intro configured
    unfold peerAttempts configuredDescription
    cases configured.peerId env with
    | error error => simp
    | ok peer =>
      simp only
      split
      · simp [Description.attempts]
      · simp
  have hmember : ∀ member : EffectiveMember T,
      (memberDescription env member).attempts = memberAttempts member := by
    intro member
    cases hrole : EffectiveMember.hasRole member .routeAuthority <;>
      simp [Description.attempts, memberDescription, memberAttempts, aliasRoutes, hrole]
  have hown : (ownDescription config localPeer transportPeer).attempts =
      builtinRoutes localPeer ++ aliasRoutes localPeer config.network.vpnIp ++
        configuredRoutes localPeer config.network.routes := by
    simp [Description.attempts, ownDescription]
  simp only [Config.routeAttempts, Config.routing, descriptions, List.mem_append, List.mem_cons,
    List.mem_flatMap, List.mem_map, or_and_right, exists_or, exists_eq_left, hown,
    exists_exists_and_eq_and, hconfigured, hmember]
  constructor
  · rintro ((h | ⟨configured, hmem, ⟨description, hdescription, h⟩ | h⟩) | h)
    · exact Or.inl (Or.inl h)
    · exact Or.inl (Or.inr (Or.inl ⟨description, ⟨configured, hmem, hdescription⟩, h⟩))
    · exact Or.inr ⟨configured, hmem, h⟩
    · exact Or.inl (Or.inr (Or.inr h))
  · rintro ((h | ⟨description, ⟨configured, hmem, hdescription⟩, h⟩ | h) | ⟨configured, hmem, h⟩)
    · exact Or.inl (Or.inl h)
    · exact Or.inl (Or.inr ⟨configured, hmem, Or.inl ⟨description, hdescription, h⟩⟩)
    · exact Or.inr h
    · exact Or.inl (Or.inr ⟨configured, hmem, Or.inr h⟩)

/-! ## Addresses in blocks -/

lemma contains_self (address : IpAddr) (len : ℕ) (h : len ≤ address.width) :
    IpCidr.contains ⟨address, len, h⟩ address = true := by
  cases address <;> simp [IpCidr.contains]

lemma contains_normalizeAddress {len : ℕ} (h : len ≤ (normalizeAddress address len).width) :
    IpCidr.contains ⟨normalizeAddress address len, len, h⟩ address = true := by
  cases address <;> simp [IpCidr.contains, normalizeAddress, BitVec.and_assoc]

/-- The block that is routed for an explicit address contains the address. -/
lemma contains_of_vpnIpHostRoute {input : String} {cidr : IpCidr}
    (hcidr : vpnIpHostRoute input = .ok cidr) (haddress : parseExplicitIp input = .ok address) :
    cidr.contains address = true := by
  have hparsed : parseIpAddr (input.toList.takeWhile (· ≠ '/')) = some address := by
    unfold parseExplicitIp at haddress
    simp only at haddress
    split at haddress
    · cases haddress
    · rename_i parsed hparsed
      rw [hparsed, Except.ok.inj haddress]
  unfold vpnIpHostRoute at hcidr
  split at hcidr
  · have hcidr := mapError_eq_ok_iff.mp hcidr
    unfold parseCidr at hcidr
    simp only [hparsed] at hcidr
    split at hcidr
    · cases hcidr
    · split at hcidr
      · cases hcidr
      · rename_i len _
        by_cases hlen : len ≤ (normalizeAddress address len).width
        · rw [IpCidr.new, dif_pos hlen] at hcidr
          rw [← Except.ok.inj hcidr]
          exact contains_normalizeAddress hlen
        · rw [IpCidr.new, dif_neg hlen] at hcidr
          cases hcidr
  · rename_i hslash
    have hwhole : input.toList.takeWhile (· ≠ '/') = input.toList :=
      List.takeWhile_eq_self_iff.mpr fun c hc => by
        simpa using fun heq : c = '/' => hslash (heq ▸ hc)
    rw [hwhole] at hparsed
    rw [hparsed] at hcidr
    rw [← Except.ok.inj hcidr]
    exact contains_self _ _ _

/-! ## Routes to the addresses of a zone -/

section Routed

variable {table : RouteTable} (hlocal : config.routing.localPeerId env = .ok localPeer)
  (htransport : config.routing.localPeer env = .ok transportPeer)
  (htable : config.routing.compileRoutesWithMembership env membership order = .ok table)

include hlocal htransport htable

/-- An address is routed to a peer exactly when a block of the peer contains it. -/
lemma resolves_iff {address : IpAddr} {peer : PeerId} :
    (∃ route, table.resolve address = some route ∧ route.owner = peer) ↔
      ∃ description, Described env config membership description ∧ description.peer = peer ∧
        ∃ block, description.HasBlock block ∧ block.contains address = true := by
  have hmem : ∀ route, route ∈ table.routes ↔ ∃ description,
      Described env config membership description ∧ Except.ok route ∈ description.attempts := by
    intro route
    rw [mem_routes_of_compileRoutes hlocal htable,
      @mem_routeAttempts_iff _ _ _ _ _ _ transportPeer, exists_described_iff hlocal htransport]
    simp
  have hfree : ConflictFree table.routes := by
    obtain ⟨_, -, -, hinsert⟩ := compileRoutes_eq_ok.mp htable
    obtain ⟨hfree, rfl⟩ := insertAll_eq_ok.mp hinsert
    intro a ha b hb
    rw [(perm_sortBy _).mem_iff, mem_distinctRoutes] at ha hb
    exact hfree a ha b hb
  rw [resolve_owner_iff hfree]
  constructor
  · rintro ⟨route, hroute, rfl, hcontains⟩
    obtain ⟨description, hdescribed, hattempt⟩ := (hmem route).mp hroute
    exact ⟨description, hdescribed, (description.ownedBy_attempts route hattempt).symm, route.cidr,
      Description.hasBlock_iff.mpr ⟨route, hattempt, rfl⟩, hcontains⟩
  · rintro ⟨description, hdescribed, rfl, block, hblock, hcontains⟩
    obtain ⟨route, hattempt, rfl⟩ := Description.hasBlock_iff.mp hblock
    exact ⟨route, (hmem route).mpr ⟨description, hdescribed, hattempt⟩,
      description.ownedBy_attempts route hattempt, hcontains⟩

/-- The addresses of a description lie in its blocks, but for those of grants that are not routed. -/
lemma exists_block_of_hasAddress (hdescribed : Described env config membership description)
    (haddress : description.HasAddress address) :
    (∃ block, description.HasBlock block ∧ block.contains address = true) ∨
      description.routed = false ∧ ∃ route ∈ description.routes, ∃ cidr, route.cidr = .ok cidr ∧
        isHostRoute cidr = true ∧ cidr.address = address := by
  cases haddress with
  | builtinIpv4 => exact Or.inl ⟨_, .builtinIpv4, contains_self _ _ _⟩
  | builtinIpv6 => exact Or.inl ⟨_, .builtinIpv6, contains_self _ _ _⟩
  | explicit hinput hparse =>
    rename_i input
    obtain ⟨localPeer', hlocal', hread, -⟩ := compileRoutes_eq_ok.mp htable
    obtain rfl := Except.ok.inj (hlocal'.symm.trans hlocal)
    have hattempt : (do let cidr ← vpnIpHostRoute input; pure ⟨description.peer, cidr, 0⟩) ∈
        description.attempts :=
      List.mem_append_left _ (List.mem_append_right _
        (List.mem_map.mpr ⟨input, Option.mem_toList.mpr hinput, rfl⟩))
    obtain ⟨route, hroute⟩ := hread _ (mem_routeAttempts_iff.mpr
      (Or.inl ⟨description, (mem_descriptions hlocal htransport).mpr hdescribed, hattempt⟩))
    obtain ⟨cidr, hcidr, -⟩ := bind_eq_ok.mp hroute
    exact Or.inl ⟨cidr, .explicit hinput hcidr, contains_of_vpnIpHostRoute hcidr hparse⟩
  | host hroute hcidr hhost =>
    cases hrouted : description.routed with
    | true => exact Or.inl ⟨_, .route hrouted hroute hcidr, contains_self _ _ _⟩
    | false => exact Or.inr ⟨rfl, _, hroute, _, hcidr, hhost, rfl⟩

end Routed

/-- Only members have grants that are not routed, and only if the local peer is authorized. -/
lemma not_silenced_of_not_routed (hlocal : config.routing.localPeerId env = .ok localPeer)
    (hdescribed : Described env config membership description)
    (hrouted : description.routed = false) : ¬ Silenced membership localPeer := by
  obtain ⟨localPeer', transportPeer, hlocal', -, order, hmem⟩ := hdescribed
  obtain rfl := Except.ok.inj (hlocal'.symm.trans hlocal)
  rcases List.mem_cons.mp hmem with rfl | hmem
  · cases hrouted
  · rcases List.mem_append.mp hmem with hmem | hmem
    · obtain ⟨configured, -, hmem⟩ := List.mem_flatMap.mp hmem
      unfold configuredDescription at hmem
      split at hmem
      · cases hmem
      · split at hmem
        · rw [List.mem_singleton.mp hmem] at hrouted
          cases hrouted
        · cases hmem
    · obtain ⟨member, hmember, rfl⟩ := List.mem_map.mp hmem
      intro hsilenced
      exact absurd (hsilenced.2.symm.trans (mem_allowedMembers.mp hmember).2) (by simp)

variable (env) in
/-- The peer has a label to itself. -/
def Named (config : Config) (membership : EffectiveMembership T)
    (hostnameRecords : HashMap PeerId String) (peer : PeerId) : Prop :=
  ∃ label, ∀ other, Owns env config membership hostnameRecords other label ↔ other = peer

variable (env) in
/-- The grants of members without route authority stay within the blocks of the members: each single
address that such a grant names lies in a block that is routed to the member anyhow. -/
def UnroutedGrantsCovered (config : Config) (membership : EffectiveMembership T)
    (hostnameRecords : HashMap PeerId String) : Prop :=
  ∀ description, Described env config membership description → description.routed = false →
    Named env config membership hostnameRecords description.peer →
    ∀ route ∈ description.routes, ∀ cidr, route.cidr = .ok cidr → isHostRoute cidr = true →
      ∃ other, Described env config membership other ∧ other.peer = description.peer ∧
        ∃ block, other.HasBlock block ∧ block.contains cidr.address = true

/-- **Names agree with routes** exactly when the grants of members without route authority add no
address to a served member beyond its blocks. -/
theorem addresses_routed_iff {memberRecords : List SignedMembershipRecord}
    {hostnameRecords : HashMap PeerId String} {now : ℕ} {zoneOrder : ZoneOrder} {zone : DnsZone}
    {table : RouteTable}
    (htable : config.routing.compileRoutesWithMembership env membership order = .ok table)
    (hzone : DnsZone.fromMembershipSourceAt env config memberRecords hostnameRecords now
      (.ok membership) zoneOrder = .ok zone) :
    (∀ record ∈ zone.records, ∀ address, record.Has address →
      ∃ route, table.resolve address = some route ∧ route.owner = record.peer) ↔
    UnroutedGrantsCovered env config membership hostnameRecords := by
  obtain ⟨localPeer, transportPeer, _, _, _, _, hlocal, htransport, -⟩ :=
    fromMembershipSourceAt_eq_ok hzone
  have hresolves := @resolves_iff _ _ env config membership localPeer transportPeer order table hlocal
    htransport htable
  constructor
  · intro hrouted description hdescribed hunrouted ⟨label, hlabel⟩ route hroute cidr hcidr hhost
    have hserves := serves_of_fromMembershipSourceAt hlocal
      (not_silenced_of_not_routed hlocal hdescribed hunrouted) hzone
    refine hresolves.mp ?_
    rcases hserves.complete description.peer label ((hlabel _).mpr rfl) with
      ⟨record, hrecord, rfl⟩ | ⟨conflict, hconflict, rfl⟩
    · obtain ⟨-, howner, haddresses⟩ := hserves.record record hrecord
      have hpeer : description.peer = record.peer := (howner _).mp ((hlabel _).mpr rfl)
      rw [hpeer]
      exact hrouted record hrecord _ ((haddresses _).mpr
        ⟨description, hdescribed, hpeer, .host hroute hcidr hhost⟩)
    · obtain ⟨-, p, q, hne, hp, hq⟩ := hserves.conflict conflict hconflict
      exact absurd (((hlabel p).mp hp).trans ((hlabel q).mp hq).symm) hne
  · intro hcovered record hrecord address haddress
    have hopen : ¬ Silenced membership localPeer := by
      intro hsilenced
      rw [records_of_silenced hlocal hsilenced hzone] at hrecord
      cases hrecord
    obtain ⟨-, howner, haddresses⟩ :=
      (serves_of_fromMembershipSourceAt hlocal hopen hzone).record record hrecord
    obtain ⟨description, hdescribed, hpeer, hhas⟩ := (haddresses address).mp haddress
    refine hresolves.mpr ?_
    rcases exists_block_of_hasAddress hlocal htransport htable hdescribed hhas with
      ⟨block, hblock, hcontains⟩ | ⟨hunrouted, route, hroute, cidr, hcidr, hhost, rfl⟩
    · exact ⟨description, hdescribed, hpeer, block, hblock, hcontains⟩
    · rw [← hpeer]
      exact hcovered description hdescribed hunrouted ⟨record.label, hpeer ▸ howner⟩ route hroute cidr
        hcidr hhost

/-- `A` admits `B` without route authority, and with a grant of the address of `A`. -/
def unroutedHistory : List SignedMembershipRecord :=
  [sampleGrant .A .A 1 1 1 none "A1",
    { payload := { (sampleGrant .A .B 1 1 10 none "A2").payload with
        routeGrants := [⟨"10.0.0.1/32", 0⟩] }
      signature := "A2" }]

/-- The node of `A`, which routes the network of the grant to `B` by configuration. -/
def coveringNames : Config :=
  { sampleNames with
    network := { sampleNames.network with vpnIp := none }
    peers := [⟨⟨SamplePeer.text .B, none, [⟨"10.0.0.0/24", 0⟩]⟩, some "laptop"⟩] }

/-- The descriptions that the node goes by. -/
def coveringDescriptions (membership : EffectiveMembership SamplePeer) : List Description :=
  descriptions sampleSigning coveringNames membership (sampleOverlay .A) (SamplePeer.text .A) .sorted

/-- Some description routes a block with the address to the peer. -/
def coveredBy (described : List Description) (peer : PeerId) (address : IpAddr) : Bool :=
  described.any fun other => other.peer == peer && other.routed &&
    other.routes.any fun route => route.cidr.toOption.any (·.contains address)

/-- `B` has no route authority.  Its grant is served, and the address is routed to it as a part of a
configured block. -/
theorem sample_addresses_routed :
    ∃ membership zone table,
      effectiveMembershipAt samplePlatform .sorted unroutedHistory "lab" 20 = .ok membership ∧
      coveringNames.routing.compileRoutesWithMembership sampleSigning membership .sorted = .ok table ∧
      DnsZone.fromMembershipSourceAt sampleSigning coveringNames unroutedHistory ∅ 20 (.ok membership)
        sampleZoneOrder = .ok zone ∧
      (∃ description ∈ coveringDescriptions membership,
        description.routed = false ∧ description.routes ≠ []) ∧
      ∀ record ∈ zone.records, ∀ address, record.Has address →
        ∃ route, table.resolve address = some route ∧ route.owner = record.peer := by
  obtain ⟨membership, hmembership, hfacts⟩ := exists_ok_of_any
    (p := fun membership =>
      ((coveringNames.routing.compileRoutesWithMembership sampleSigning membership
        .sorted).toOption.any fun _ => true) &&
      ((DnsZone.fromMembershipSourceAt sampleSigning coveringNames unroutedHistory ∅ 20 (.ok membership)
        sampleZoneOrder).toOption.any fun _ => true) &&
      ((coveringDescriptions membership).any fun description =>
        !description.routed && !description.routes.isEmpty) &&
      (coveringDescriptions membership).all fun description => description.routes.all fun route =>
        route.cidr.toOption.all fun cidr =>
          coveredBy (coveringDescriptions membership) description.peer cidr.address)
    (x := effectiveMembershipAt samplePlatform .sorted unroutedHistory "lab" 20) (by decide +kernel)
  simp only [Bool.and_eq_true] at hfacts
  obtain ⟨⟨⟨htable, hzone⟩, hunrouted⟩, hcovered⟩ := hfacts
  obtain ⟨table, htable, -⟩ := exists_ok_of_any htable
  obtain ⟨zone, hzone, -⟩ := exists_ok_of_any hzone
  have hdescriptions : ∀ description, description ∈ coveringDescriptions membership ↔
      Described sampleSigning coveringNames membership description := fun _ =>
    mem_descriptions (by decide +kernel) (by decide +kernel)
  refine ⟨membership, zone, table, hmembership, htable, hzone, by simpa using hunrouted,
    (addresses_routed_iff htable hzone).mpr ?_⟩
  intro description hdescribed _ _ route hroute cidr hcidr _
  have hblock := List.all_eq_true.mp (List.all_eq_true.mp hcovered description
    ((hdescriptions _).mpr hdescribed)) route hroute
  rw [hcidr] at hblock
  obtain ⟨other, hother, hfacts⟩ := List.any_eq_true.mp hblock
  simp only [Bool.and_eq_true, beq_iff_eq] at hfacts
  obtain ⟨⟨hpeer, hrouted⟩, hroutes⟩ := hfacts
  obtain ⟨route', hroute', hcontains⟩ := List.any_eq_true.mp hroutes
  obtain ⟨block, hcidr', hcontains⟩ := exists_ok_of_any hcontains
  exact ⟨other, (hdescriptions _).mp hother, hpeer, block, .route hrouted hroute' hcidr', hcontains⟩

/-! ## A grant that is served and not routed -/

/-- The node of `A`, without configured peers. -/
def unroutedNames : Config := { sampleNames with peers := [] }

/-- **A name can lead to another peer.**  The grant of `B` is in effect, and under the name of `B` the
zone serves the address of `A`, which is routed to `A`. -/
theorem unrouted_grant_served :
    ∃ membership zone table,
      effectiveMembershipAt samplePlatform .sorted unroutedHistory "lab" 20 = .ok membership ∧
      unroutedNames.routing.compileRoutesWithMembership sampleSigning membership .sorted = .ok table ∧
      DnsZone.fromMembershipSourceAt sampleSigning unroutedNames unroutedHistory ∅ 20 (.ok membership)
        sampleZoneOrder = .ok zone ∧
      ∃ record ∈ zone.records, ∃ address, record.Has address ∧
        ∃ route, table.resolve address = some route ∧ route.owner ≠ record.peer := by
  obtain ⟨membership, hmembership, htable⟩ := exists_ok_of_any
    (p := fun membership => (unroutedNames.routing.compileRoutesWithMembership sampleSigning membership
      .sorted).toOption.any fun table => (DnsZone.fromMembershipSourceAt sampleSigning unroutedNames
        unroutedHistory ∅ 20 (.ok membership) sampleZoneOrder).toOption.any fun zone =>
          zone.records.any fun record => record.ipv4.any fun bits =>
            (table.resolve (.v4 bits)).any fun route => route.owner != record.peer)
    (x := effectiveMembershipAt samplePlatform .sorted unroutedHistory "lab" 20) (by decide +kernel)
  obtain ⟨table, htable, hzone⟩ := exists_ok_of_any htable
  obtain ⟨zone, hzone, hrecords⟩ := exists_ok_of_any hzone
  obtain ⟨record, hrecord, hbits⟩ := List.any_eq_true.mp hrecords
  obtain ⟨bits, hbits, hroute⟩ := List.any_eq_true.mp hbits
  obtain ⟨route, hroute, howner⟩ := (Option.any_eq_true ..).mp hroute
  exact ⟨membership, zone, table, hmembership, htable, hzone, record, hrecord, .v4 bits, hbits, route,
    hroute, by simpa using howner⟩

end P2pVpn.Dns
