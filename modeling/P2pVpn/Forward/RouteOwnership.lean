/-
# Who owns an address

The configuration and the membership give blocks of addresses to peers.  `Admitted` says which, with
no order among the members.  Compiling fails exactly when a peer or a block cannot be read, or when
two peers are given an address in common; otherwise an address has one owner at most, and it is the
one that the table resolves the address to and that may send from it (`routes_owned_once`).
-/
import P2pVpn.Checkpoint.Sample
import P2pVpn.Forward.Compile
import P2pVpn.Net.Resolve

namespace P2pVpn.Forward

open Lib Net P2pVpn.Membership P2pVpn.Checkpoint

variable {T K : Type} (env : SigningPlatform T K) (config : Config)
  (membership : EffectiveMembership T)

/-- What is given to a peer: a route, or the reason why its block cannot be read. -/
inductive Admitted (localPeer : PeerId) : RouteAttempt → Prop
  | own {attempt : RouteAttempt}
      (hgiven : attempt ∈ builtinRoutes localPeer ++ aliasRoutes localPeer config.network.vpnIp ++
        configuredRoutes localPeer config.network.routes) : Admitted localPeer attempt
  | configured {attempt : RouteAttempt} (peer : PeerConfig) (owner : PeerId)
      (hpeer : peer ∈ config.peers) (howner : peer.peerId env = .ok owner)
      (hallowed : allowsConfiguredPeer membership localPeer owner = true)
      (hgiven : attempt ∈ builtinRoutes owner ++ aliasRoutes owner peer.vpnIp ++
        configuredRoutes owner peer.routes) : Admitted localPeer attempt
  | member {attempt : RouteAttempt} (key : PeerId) (member : EffectiveMember T)
      (hmember : membership.members.get? key = some member)
      (hoverlay : EffectiveMember.hasRole member .overlayMember = true)
      (hlocal : authorizesConfiguredPeer membership localPeer = true)
      (hgiven : attempt ∈ memberAttempts member) : Admitted localPeer attempt

/-- A peer of the configuration cannot be read. -/
def PeerUnread : Prop :=
  (∃ error, config.localPeerId env = .error error) ∨
    ∃ peer ∈ config.peers, ∃ error, peer.peerId env = .error error

/-- A block that is given to a peer cannot be read. -/
def BlockUnread (localPeer : PeerId) : Prop :=
  ∃ error, Admitted env config membership localPeer (.error error)

/-- An address is given to two peers. -/
def SharedAddress (localPeer : PeerId) : Prop :=
  ∃ a b, Admitted env config membership localPeer (.ok a) ∧
    Admitted env config membership localPeer (.ok b) ∧ a.owner ≠ b.owner ∧
    ∃ address, a.cidr.contains address = true ∧ b.cidr.contains address = true

variable {env config membership} {localPeer : PeerId} {order : KeyOrder PeerId}

/-! ## What is attempted -/

/-- The routes that compiling attempts, in terms of what is given to the peers. -/
lemma mem_routeAttempts {attempt : RouteAttempt} :
    attempt ∈ config.routeAttempts env localPeer membership order ↔
      Admitted env config membership localPeer attempt ∨
        ∃ peer ∈ config.peers, ∃ error, peer.peerId env = .error error ∧ attempt = .error error := by
  rw [Config.routeAttempts, List.mem_append, List.mem_append, List.mem_flatMap, List.mem_flatMap]
  constructor
  · rintro ((hown | ⟨peer, hpeer, hattempt⟩) | ⟨member, hmember, hattempt⟩)
    · exact Or.inl (.own hown)
    · unfold peerAttempts at hattempt
      split at hattempt
      · rename_i error herror
        exact Or.inr ⟨peer, hpeer, error, herror, List.mem_singleton.mp hattempt⟩
      · rename_i owner howner
        split at hattempt
        · rename_i hallowed
          exact Or.inl (.configured peer owner hpeer howner hallowed hattempt)
        · cases hattempt
    · obtain ⟨⟨⟨key, hkey⟩, hoverlay⟩, hlocal⟩ := mem_allowedMembers.mp hmember
      exact Or.inl (.member key member hkey hoverlay hlocal hattempt)
  · rintro (hadmitted | ⟨peer, hpeer, error, herror, rfl⟩)
    · cases hadmitted with
      | own hgiven => exact Or.inl (Or.inl hgiven)
      | configured peer owner hpeer howner hallowed hgiven =>
        refine Or.inl (Or.inr ⟨peer, hpeer, ?_⟩)
        simpa only [peerAttempts, howner, if_pos hallowed] using hgiven
      | member key member hmember hoverlay hlocal hgiven =>
        exact Or.inr ⟨member, mem_allowedMembers.mpr ⟨⟨⟨key, hmember⟩, hoverlay⟩, hlocal⟩, hgiven⟩
    · refine Or.inl (Or.inr ⟨peer, hpeer, ?_⟩)
      rw [peerAttempts, herror]
      exact List.mem_singleton_self _

lemma ok_mem_routeAttempts {route : Route} :
    Except.ok route ∈ config.routeAttempts env localPeer membership order ↔
      Admitted env config membership localPeer (.ok route) := by
  rw [mem_routeAttempts]
  refine ⟨fun h => h.resolve_right ?_, Or.inl⟩
  rintro ⟨_, _, _, _, h⟩
  cases h

/-- Every attempt can be read, once the peers and the blocks can. -/
lemma allRead_iff (hlocal : config.localPeerId env = .ok localPeer) :
    AllRead (config.routeAttempts env localPeer membership order) ↔
      ¬PeerUnread env config ∧ ¬BlockUnread env config membership localPeer := by
  constructor
  · intro hread
    refine ⟨?_, ?_⟩
    · rintro (⟨error, herror⟩ | ⟨peer, hpeer, error, herror⟩)
      · exact absurd (hlocal.symm.trans herror) (by simp)
      · obtain ⟨route, hroute⟩ := hread (.error error)
          (mem_routeAttempts.mpr (Or.inr ⟨peer, hpeer, error, herror, rfl⟩))
        cases hroute
    · rintro ⟨error, hadmitted⟩
      obtain ⟨route, hroute⟩ := hread (.error error) (mem_routeAttempts.mpr (Or.inl hadmitted))
      cases hroute
  · rintro ⟨hpeers, hblocks⟩ attempt hattempt
    cases attempt with
    | ok route => exact ⟨route, rfl⟩
    | error error =>
      rcases mem_routeAttempts.mp hattempt with hadmitted | ⟨peer, hpeer, error', herror, -⟩
      · exact absurd ⟨error, hadmitted⟩ hblocks
      · exact absurd (Or.inr ⟨peer, hpeer, error', herror⟩) hpeers

lemma conflictFree_iff :
    ConflictFree (readRoutes (config.routeAttempts env localPeer membership order)) ↔
      ¬SharedAddress env config membership localPeer := by
  constructor
  · rintro hfree ⟨a, b, ha, hb, hne, hshared⟩
    have hconflict : a.conflicts b = true := decide_eq_true ⟨hne, overlaps_iff.mpr hshared⟩
    rw [hfree a (mem_readRoutes.mpr (ok_mem_routeAttempts.mpr ha)) b
      (mem_readRoutes.mpr (ok_mem_routeAttempts.mpr hb))] at hconflict
    cases hconflict
  · intro hnone a ha b hb
    by_contra hconflict
    obtain ⟨hne, hoverlaps⟩ := of_decide_eq_true (Bool.not_eq_false _ ▸ hconflict)
    exact hnone ⟨a, b, ok_mem_routeAttempts.mp (mem_readRoutes.mp ha),
      ok_mem_routeAttempts.mp (mem_readRoutes.mp hb), hne, overlaps_iff.mp hoverlaps⟩

/-- Compiling succeeds exactly when everything can be read and no address is given twice. -/
lemma compileRoutes_isOk_iff :
    (∃ table, config.compileRoutesWithMembership env membership order = .ok table) ↔
      ¬PeerUnread env config ∧ ∀ localPeer, config.localPeerId env = .ok localPeer →
        ¬BlockUnread env config membership localPeer ∧ ¬SharedAddress env config membership localPeer := by
  rw [compileRoutes_succeeds_iff]
  constructor
  · rintro ⟨localPeer, hlocal, hread, hfree⟩
    obtain ⟨hpeers, hblocks⟩ := (allRead_iff hlocal).mp hread
    refine ⟨hpeers, fun localPeer' hlocal' => ?_⟩
    obtain rfl : localPeer = localPeer' := Except.ok.inj (hlocal.symm.trans hlocal')
    exact ⟨hblocks, conflictFree_iff.mp hfree⟩
  · rintro ⟨hpeers, hall⟩
    cases hlocal : config.localPeerId env with
    | error error => exact absurd (Or.inl ⟨error, hlocal⟩) hpeers
    | ok localPeer =>
      obtain ⟨hblocks, hshared⟩ := hall localPeer hlocal
      exact ⟨localPeer, rfl, (allRead_iff hlocal).mpr ⟨hpeers, hblocks⟩, conflictFree_iff.mpr hshared⟩

/-- A compiled table is sorted and has no conflicts. -/
lemma sorted_of_compileRoutes {table : RouteTable}
    (h : config.compileRoutesWithMembership env membership order = .ok table) :
    ∃ routes, ConflictFree table.routes ∧ table = ⟨sortBy Route.sortKey routes⟩ := by
  obtain ⟨localPeer, -, -, hinsert⟩ := compileRoutes_eq_ok.mp h
  obtain ⟨hfree, rfl⟩ := insertAll_eq_ok.mp hinsert
  refine ⟨_, fun a ha b hb => ?_, rfl⟩
  rw [(perm_sortBy _).mem_iff, mem_distinctRoutes] at ha hb
  exact hfree a ha b hb

/-- **Ownership of addresses.**  Whatever the order of the members, compiling fails exactly when a peer
cannot be read, or a block given to a peer cannot be read, or two peers are given an address in common.
In a compiled table an address lies in the blocks of one owner at most; a peer may send from an address
exactly when the address resolves to a route of this peer; and the address resolves to a route with the
longest prefix, and of these the smallest metric, among the routes whose block contains it. -/
theorem routes_owned_once :
    ((∃ error, config.compileRoutesWithMembership env membership order = .error error) ↔
      PeerUnread env config ∨ ∃ localPeer, config.localPeerId env = .ok localPeer ∧
        (BlockUnread env config membership localPeer ∨
          SharedAddress env config membership localPeer)) ∧
      ∀ table, config.compileRoutesWithMembership env membership order = .ok table → ∀ address,
        (∀ a ∈ table.routes, ∀ b ∈ table.routes, a.cidr.contains address = true →
          b.cidr.contains address = true → a.owner = b.owner) ∧
        (∀ peer, table.authorizeSource peer address = .ok () ↔
          ∃ route, table.resolve address = some route ∧ route.owner = peer) ∧
        ((table.resolve address).isSome = true ↔
          ∃ route ∈ table.routes, route.cidr.contains address = true) ∧
        ∀ route, table.resolve address = some route →
          route ∈ table.routes ∧ route.cidr.contains address = true ∧
          ∀ other ∈ table.routes, other.cidr.contains address = true →
            other.cidr.prefixLen < route.cidr.prefixLen ∨
              other.cidr.prefixLen = route.cidr.prefixLen ∧ route.metric ≤ other.metric := by
  constructor
  · have hfails : (∃ error, config.compileRoutesWithMembership env membership order = .error error) ↔
        ¬∃ table, config.compileRoutesWithMembership env membership order = .ok table := by
      cases config.compileRoutesWithMembership env membership order with
      | error error => simp
      | ok table => simp
    rw [hfails, compileRoutes_isOk_iff, not_and_or, not_not]
    simp only [not_forall, not_and_or, not_not, exists_prop]
  · intro table htable address
    obtain ⟨routes, hfree, htable⟩ := sorted_of_compileRoutes htable
    refine ⟨fun a ha b hb hina hinb => ?_, fun peer => ?_, ?_, fun route hroute => ⟨?_, ?_, ?_⟩⟩
    · by_contra hne
      have hconflict : a.conflicts b = true := decide_eq_true ⟨hne, overlaps_of_contains hina hinb⟩
      rw [hfree a ha b hb] at hconflict
      cases hconflict
    · rw [authorizeSource_eq_ok, resolve_owner_iff hfree]
    · rw [RouteTable.resolve, List.find?_isSome]
    · exact List.mem_of_find?_eq_some hroute
    · exact contains_of_resolve hroute
    · intro other hother hcontains
      rw [htable] at hroute hother
      exact resolve_best hroute hother hcontains

/-- `A` with a block of its own and one peer. -/
def oneBlockConfig (peer : String) : Config where
  network := ⟨"lab", SamplePeer.text .A, none, [], none, [⟨"10.1.0.0/16", 5⟩]⟩
  peers := [⟨peer, none, []⟩]

/-- Nothing is signed. -/
def unsigned : EffectiveMembership SamplePeer := ⟨∅, ∅, false⟩

theorem routes_owned_once_sample :
    ∃ table, (oneBlockConfig (SamplePeer.text .B)).compileRoutesWithMembership sampleSigning unsigned
        .sorted = .ok table ∧
      (table.resolve (.v4 0x0a010203#32)).map (·.metric) = some 5 ∧
      ∀ peer, table.authorizeSource peer (.v4 0x0a010203#32) = .ok () ↔
        ∃ route, table.resolve (.v4 0x0a010203#32) = some route ∧ route.owner = peer := by
  obtain ⟨table, htable, hmetric⟩ := exists_ok_of_any
    (p := fun table => (table.resolve (.v4 0x0a010203#32)).map (·.metric) == some 5)
    (x := (oneBlockConfig (SamplePeer.text .B)).compileRoutesWithMembership sampleSigning unsigned
      .sorted) (by decide +kernel)
  exact ⟨table, htable, beq_iff_eq.mp hmetric, (routes_owned_once.2 table htable _).2.1⟩

/-- With a peer that cannot be read nothing is compiled, though every block can be read and no address
is given twice. -/
theorem unread_peer_not_compiled :
    ∃ localPeer, (oneBlockConfig "?").localPeerId sampleSigning = .ok localPeer ∧
      ¬((∃ error, (oneBlockConfig "?").compileRoutesWithMembership sampleSigning unsigned .sorted =
          .error error) ↔
        BlockUnread sampleSigning (oneBlockConfig "?") unsigned localPeer ∨
          SharedAddress sampleSigning (oneBlockConfig "?") unsigned localPeer) := by
  obtain ⟨localPeer, hlocal, -⟩ := exists_ok_of_any (p := fun _ => true)
    (x := (oneBlockConfig "?").localPeerId sampleSigning) (by decide +kernel)
  refine ⟨localPeer, hlocal, fun hiff => ?_⟩
  -- only the local peer is given anything, and all of it can be read
  have hgiven : ∀ attempt, Admitted sampleSigning (oneBlockConfig "?") unsigned localPeer attempt →
      ∃ route : Route, attempt = .ok route ∧ route.owner = localPeer := by
    intro attempt hadmitted
    cases hadmitted with
    | own hgiven =>
      have hblock : RouteConfig.cidr ⟨"10.1.0.0/16", 5⟩ = .ok ⟨.v4 0x0a010000#32, 16, by decide⟩ := by
        decide +kernel
      simp only [oneBlockConfig, builtinRoutes, aliasRoutes, configuredRoutes, Option.toList,
        List.map_nil, List.append_nil, List.map_cons, hblock, List.cons_append, List.nil_append,
        List.mem_cons, List.not_mem_nil, or_false] at hgiven
      rcases hgiven with rfl | rfl | rfl
      · exact ⟨_, rfl, rfl⟩
      · exact ⟨_, rfl, rfl⟩
      · exact ⟨_, rfl, rfl⟩
    | configured peer owner hpeer howner hallowed hgiven =>
      obtain rfl := List.mem_singleton.mp hpeer
      have hunread : ((⟨"?", none, []⟩ : PeerConfig).peerId sampleSigning).isOk = false := by
        decide +kernel
      rw [howner] at hunread
      cases hunread
    | member key member hmember => cases hmember
  have hfails : ∃ error, (oneBlockConfig "?").compileRoutesWithMembership sampleSigning unsigned
      .sorted = .error error := by
    have hnot : ((oneBlockConfig "?").compileRoutesWithMembership sampleSigning unsigned
        .sorted).isOk = false := by decide +kernel
    cases hcompile : (oneBlockConfig "?").compileRoutesWithMembership sampleSigning unsigned .sorted with
    | error error => exact ⟨error, rfl⟩
    | ok table =>
      rw [hcompile] at hnot
      cases hnot
  rcases hiff.mp hfails with ⟨error, hadmitted⟩ | ⟨a, b, ha, hb, hne, -⟩
  · obtain ⟨route, hroute, -⟩ := hgiven _ hadmitted
    cases hroute
  · obtain ⟨_, hroute, howner⟩ := hgiven _ ha
    cases hroute
    obtain ⟨_, hroute, howner'⟩ := hgiven _ hb
    cases hroute
    exact hne (howner.trans howner'.symm)

end P2pVpn.Forward
