/-
# What compiling a configuration gives

Compiling succeeds exactly when every route can be read and no two conflict, so a smaller set of
routes compiles whenever a larger one does (`compileRoutes_of_shrinks`).  Neither the routes nor the
transport peers depend on the order in which the members are handed out.
-/
import P2pVpn.Forward.Config
import P2pVpn.Membership.Elapse

namespace P2pVpn.Forward

open Lib Net P2pVpn.Membership P2pVpn.Checkpoint

/-! ## Attempts -/

/-- Every route can be read. -/
def AllRead (attempts : List RouteAttempt) : Prop := ∀ attempt ∈ attempts, ∃ route, attempt = .ok route

/-- The routes that can be read. -/
def readRoutes (attempts : List RouteAttempt) : List Route := attempts.filterMap Except.toOption

variable {attempts : List RouteAttempt} {table : RouteTable} {config : Config} {peer : PeerId}

lemma mem_readRoutes {route : Route} :
    route ∈ readRoutes attempts ↔ Except.ok route ∈ attempts := by
  rw [readRoutes, List.mem_filterMap]
  constructor
  · rintro ⟨attempt, hattempt, hroute⟩
    cases attempt with
    | error error => cases hroute
    | ok route' =>
      obtain rfl := Option.some.inj hroute
      exact hattempt
  · intro h
    exact ⟨_, h, rfl⟩

/-- Inserting attempts is inserting routes, once they have all been read. -/
lemma foldlM_attempts_eq_ok {start : RouteTable} :
    attempts.foldlM (fun table attempt => do
        let route ← attempt
        (table.insertAuthorized route).mapError ConfigError.route) start = .ok table ↔
      AllRead attempts ∧ start.insertAll (readRoutes attempts) = .ok table := by
  induction attempts generalizing start with
  | nil => simp [AllRead, RouteTable.insertAll, readRoutes, pure, Except.pure]
  | cons attempt attempts ih =>
    rw [List.foldlM_cons, bind_eq_ok]
    constructor
    · rintro ⟨next, hnext, hrest⟩
      obtain ⟨route, rfl, hinsert⟩ := bind_eq_ok.mp hnext
      obtain ⟨hread, hall⟩ := ih.mp hrest
      refine ⟨List.forall_mem_cons.mpr ⟨⟨route, rfl⟩, hread⟩, ?_⟩
      show (route :: readRoutes attempts).foldlM RouteTable.insertAuthorized start = .ok table
      rw [List.foldlM_cons]
      exact bind_eq_ok.mpr ⟨next, mapError_eq_ok_iff.mp hinsert, hall⟩
    · rintro ⟨hread, hall⟩
      obtain ⟨⟨route, rfl⟩, hread'⟩ := List.forall_mem_cons.mp hread
      change (route :: readRoutes attempts).foldlM RouteTable.insertAuthorized start = .ok table at hall
      rw [List.foldlM_cons] at hall
      obtain ⟨next, hinsert, hall⟩ := bind_eq_ok.mp hall
      exact ⟨next, bind_eq_ok.mpr ⟨route, rfl, mapError_eq_ok_iff.mpr hinsert⟩, ih.mpr ⟨hread', hall⟩⟩

variable {T K : Type} {env : SigningPlatform T K} {membership : EffectiveMembership T}
  {order order' : KeyOrder PeerId} {member : EffectiveMember T}

lemma compileRoutes_eq_ok :
    config.compileRoutesWithMembership env membership order = .ok table ↔
      ∃ localPeer, config.localPeerId env = .ok localPeer ∧
        AllRead (config.routeAttempts env localPeer membership order) ∧
        RouteTable.insertAll ⟨[]⟩ (readRoutes (config.routeAttempts env localPeer membership order))
          = .ok table := by
  rw [Config.compileRoutesWithMembership, bind_eq_ok]
  simp only [foldlM_attempts_eq_ok]

/-- Compiling succeeds exactly when every route can be read and no two conflict. -/
lemma compileRoutes_succeeds_iff :
    (∃ table, config.compileRoutesWithMembership env membership order = .ok table) ↔
      ∃ localPeer, config.localPeerId env = .ok localPeer ∧
        AllRead (config.routeAttempts env localPeer membership order) ∧
        ConflictFree (readRoutes (config.routeAttempts env localPeer membership order)) := by
  constructor
  · rintro ⟨table, htable⟩
    obtain ⟨localPeer, hlocal, hread, hinsert⟩ := compileRoutes_eq_ok.mp htable
    exact ⟨localPeer, hlocal, hread, (insertAll_eq_ok.mp hinsert).1⟩
  · rintro ⟨localPeer, hlocal, hread, hfree⟩
    exact ⟨_, compileRoutes_eq_ok.mpr ⟨localPeer, hlocal, hread, insertAll_eq_ok.mpr ⟨hfree, rfl⟩⟩⟩

/-- The compiled table has the routes that were read. -/
lemma mem_routes_of_compileRoutes {localPeer : PeerId}
    (hlocal : config.localPeerId env = .ok localPeer)
    (h : config.compileRoutesWithMembership env membership order = .ok table) {route : Route} :
    route ∈ table.routes ↔ Except.ok route ∈ config.routeAttempts env localPeer membership order := by
  obtain ⟨localPeer', hlocal', -, hinsert⟩ := compileRoutes_eq_ok.mp h
  obtain rfl : localPeer' = localPeer := Except.ok.inj (hlocal'.symm.trans hlocal)
  obtain ⟨-, rfl⟩ := insertAll_eq_ok.mp hinsert
  rw [(perm_sortBy _).mem_iff, mem_distinctRoutes, mem_readRoutes]

/-! ## The order of the members -/

/-- Every member is filed under its own address. -/
def WellFiled (membership : EffectiveMembership T) : Prop :=
  ∀ peer member, membership.members.get? peer = some member → member.peer = peer

/-- Every member is filed under the address of its transport peer. -/
def Addressed (env : Platform T K) (members : HashMap Bytes32 (EffectiveMember T)) : Prop :=
  ∀ peer member, members.get? peer = some member →
    member.peer = peer ∧ fromLibp2p env member.transportPeer = peer

section Addressed

variable {env : Platform T K} {members : HashMap Bytes32 (EffectiveMember T)}

lemma addressed_empty : Addressed env ∅ := by
  intro peer member hmember
  rw [HashMap.get?_empty] at hmember
  cases hmember

lemma Addressed.insert (h : Addressed env members)
    (hmember : member.peer = fromLibp2p env member.transportPeer) :
    Addressed env (members.insert member.peer member) := by
  intro peer found hfound
  rw [HashMap.get?_insert] at hfound
  split_ifs at hfound with hpeer
  · obtain rfl := Option.some.inj hfound
    exact ⟨hpeer.symm, by rw [hpeer, hmember]⟩
  · exact h peer found hfound

lemma Addressed.wellFiled (h : Addressed env membership.members) : WellFiled membership :=
  fun peer member hmember => (h peer member hmember).1

/-- The members of a ledger are filed so. -/
lemma addressed_effectiveMembershipAt [DecidableEq T] {order : KeyOrder String}
    {records : List SignedMembershipRecord} {name : String} {now : ℕ}
    (h : effectiveMembershipAt env order records name now = .ok membership) :
    Addressed env membership.members := by
  simp only [effectiveMembershipAt, effectiveMembershipUnder, bind_eq_ok] at h
  obtain ⟨_, -, _, -, evaluation, -, h⟩ := h
  refine foldlM_invariant (P := fun membership : EffectiveMembership T =>
    Addressed env membership.members) (fun entry _ before after hbefore hstep => ?_)
    addressed_empty h
  obtain ⟨_, -, hstep⟩ := bind_eq_ok.mp hstep
  split at hstep
  · obtain ⟨candidate, hcandidate, hstep⟩ := bind_eq_ok.mp hstep
    obtain rfl := Except.ok.inj hstep
    simp only [effectiveMemberOf, EffectiveMember.tryFromPayload, bind_eq_ok, pure, Except.pure,
      Except.ok.injEq] at hcandidate
    obtain ⟨_, -, _, -, _, -, _, -, rfl⟩ := hcandidate
    exact hbefore.insert rfl
  · obtain rfl := Except.ok.inj hstep
    exact hbefore

end Addressed

variable {localPeer : PeerId}

lemma mem_overlayMembers :
    member ∈ overlayMembers membership order ↔
      (∃ peer, membership.members.get? peer = some member) ∧
        EffectiveMember.hasRole member .overlayMember = true := by
  simp [overlayMembers]

lemma isOverlayMember_iff :
    isOverlayMember membership peer = true ↔
      ∃ member, membership.members.get? peer = some member ∧
        EffectiveMember.hasRole member .overlayMember = true := by
  rw [isOverlayMember, Option.any_eq_true]

lemma mem_allowedMembers :
    member ∈ allowedMembers membership localPeer order ↔
      ((∃ peer, membership.members.get? peer = some member) ∧
        EffectiveMember.hasRole member .overlayMember = true) ∧
        authorizesConfiguredPeer membership localPeer = true := by
  rw [allowedMembers, List.mem_filter, mem_overlayMembers]

lemma allowedMembers_perm :
    (allowedMembers membership localPeer order).Perm (allowedMembers membership localPeer order') :=
  (((KeyOrder.entries_perm order' membership.members).map Prod.snd).filter _).filter _

lemma pairwise_allowedMembers (h : WellFiled membership) :
    (allowedMembers membership localPeer order).Pairwise fun a b => a.peer ≠ b.peer := by
  refine List.Pairwise.filter _ (List.Pairwise.filter _ (List.pairwise_map.mpr ?_))
  refine (KeyOrder.entries_pairwise membership.members).imp_of_mem fun {a b} ha hb hne => ?_
  rw [h a.1 a.2 (order.mem_entries.mp ha), h b.1 b.2 (order.mem_entries.mp hb)]
  exact hne

/-- Every route that can be read belongs to one peer. -/
def OwnedBy (owner : PeerId) (attempts : List RouteAttempt) : Prop :=
  ∀ route, Except.ok route ∈ attempts → route.owner = owner

lemma OwnedBy.append {owner : PeerId} {attempts' : List RouteAttempt} (h : OwnedBy owner attempts)
    (h' : OwnedBy owner attempts') :
    OwnedBy owner (attempts ++ attempts') :=
  fun route hroute => (List.mem_append.mp hroute).elim (h route) (h' route)

lemma ownedBy_builtinRoutes (owner : PeerId) : OwnedBy owner (builtinRoutes owner) := by
  intro route hroute
  simp only [builtinRoutes, List.mem_cons, List.not_mem_nil, or_false, Except.ok.injEq] at hroute
  rcases hroute with rfl | rfl <;> rfl

lemma ownedBy_aliasRoutes (owner : PeerId) (vpnIp : Option String) :
    OwnedBy owner (aliasRoutes owner vpnIp) := by
  intro route hroute
  obtain ⟨ip, -, hip⟩ := List.mem_map.mp hroute
  obtain ⟨cidr, -, hcidr⟩ := bind_eq_ok.mp hip
  rw [← Except.ok.inj hcidr]

lemma ownedBy_configuredRoutes (owner : PeerId) (routes : List RouteConfig) :
    OwnedBy owner (configuredRoutes owner routes) := by
  intro route hroute
  obtain ⟨config, -, hconfig⟩ := List.mem_map.mp hroute
  obtain ⟨cidr, -, hcidr⟩ := bind_eq_ok.mp hconfig
  rw [← Except.ok.inj hcidr]

lemma ownedBy_memberAttempts (member : EffectiveMember T) :
    OwnedBy member.peer (memberAttempts member) := by
  refine (ownedBy_builtinRoutes _).append ?_
  split
  · exact ownedBy_configuredRoutes _ _
  · intro route hroute
    cases hroute

/-- The compiled routes do not depend on the order of the members. -/
lemma compileRoutes_order (hfiled : WellFiled membership)
    (h : config.compileRoutesWithMembership env membership order = .ok table) :
    config.compileRoutesWithMembership env membership order' = .ok table := by
  obtain ⟨localPeer, hlocal, hread, hinsert⟩ := compileRoutes_eq_ok.mp h
  refine compileRoutes_eq_ok.mpr ⟨localPeer, hlocal, ?_, insertAll_congr (fun owner => ?_) hinsert⟩
  · intro attempt hattempt
    refine hread attempt ?_
    simp only [Config.routeAttempts, List.mem_append, List.mem_flatMap] at hattempt ⊢
    refine hattempt.imp_right fun ⟨member, hmember, hattempt⟩ => ⟨member, ?_, hattempt⟩
    exact allowedMembers_perm.mem_iff.mp hmember
  · simp only [Config.routeAttempts, readRoutes, List.filterMap_append, List.filter_append,
      List.filterMap_flatMap, List.filter_flatMap]
    congr 1
    refine flatMap_eq_of_perm (k := owner) allowedMembers_perm (pairwise_allowedMembers hfiled)
      fun member hne => List.filter_eq_nil_iff.mpr fun route hroute => ?_
    rw [ownedBy_memberAttempts member route (mem_readRoutes.mp hroute)]
    simpa using hne

/-! ## The transport peers -/

variable {peers start : HashMap PeerId T}

lemma get?_insertMembers_of_notMem {members : List (EffectiveMember T)}
    (h : ∀ member ∈ members, member.peer = peer → peer = localPeer) :
    (members.foldl (insertMember localPeer) start).get? peer = start.get? peer := by
  induction members generalizing start with
  | nil => rfl
  | cons member members ih =>
    obtain ⟨hhead, htail⟩ := List.forall_mem_cons.mp h
    rw [List.foldl_cons, ih htail, insertMember]
    split
    · rename_i hne
      refine HashMap.get?_insert_of_ne _ ?_ _
      rintro rfl
      exact hne (hhead rfl)
    · rfl

lemma get?_insertMembers_of_mem {members : List (EffectiveMember T)}
    (hdistinct : members.Pairwise fun a b => a.peer ≠ b.peer) (hmem : member ∈ members)
    (hne : member.peer ≠ localPeer) :
    (members.foldl (insertMember localPeer) start).get? member.peer = some member.transportPeer := by
  induction members generalizing start with
  | nil => cases hmem
  | cons first members ih =>
    obtain ⟨hfirst, hrest⟩ := List.pairwise_cons.mp hdistinct
    rw [List.foldl_cons]
    rcases List.mem_cons.mp hmem with rfl | hmem
    · rw [get?_insertMembers_of_notMem fun other hother heq => absurd heq.symm (hfirst other hother),
        insertMember, if_pos hne, HashMap.get?_insert_self]
    · exact ih hrest hmem

lemma insertConfiguredPeer_eq_ok {peer : PeerConfig} {before after : HashMap PeerId T} :
    insertConfiguredPeer env membership localPeer before peer = .ok after ↔
      ∃ transportPeer, env.parsePeerId peer.id = some transportPeer ∧
        after = if allowsConfiguredPeer membership localPeer (fromLibp2p env.toPlatform transportPeer)
          then before.insert (fromLibp2p env.toPlatform transportPeer) transportPeer else before := by
  unfold insertConfiguredPeer
  cases env.parsePeerId peer.id with
  | none => simp
  | some transportPeer =>
    simp only [Option.some.injEq, exists_eq_left']
    split
    · exact ⟨fun h => (Except.ok.inj h).symm, fun h => congrArg Except.ok h.symm⟩
    · exact ⟨fun h => (Except.ok.inj h).symm, fun h => congrArg Except.ok h.symm⟩

/-- What the configured peers contribute to the transport peers. -/
def configuredPeers (env : SigningPlatform T K) (config : Config) (membership : EffectiveMembership T)
    (localPeer : PeerId) : Except ConfigError (HashMap PeerId T) :=
  config.peers.foldlM (insertConfiguredPeer env membership localPeer) ∅

lemma transportPeers_eq_ok :
    transportPeersFromMembership env config membership order = .ok peers ↔
      ∃ localPeer start, config.localPeerId env = .ok localPeer ∧
        configuredPeers env config membership localPeer = .ok start ∧
        (allowedMembers membership localPeer order).foldl (insertMember localPeer) start = peers := by
  simp only [transportPeersFromMembership, bind_eq_ok, configuredPeers, pure_eq_ok, exists_and_left,
    @eq_comm _ peers]

/-- The transport peers: a member keeps its own peer, others that of the configuration. -/
lemma get?_transportPeers (hfiled : WellFiled membership) (peer : PeerId) :
    ((allowedMembers membership localPeer order).foldl (insertMember localPeer) start).get? peer =
      if peer ≠ localPeer ∧ authorizesConfiguredPeer membership localPeer ∧
          isOverlayMember membership peer then
        (membership.members.get? peer).map (·.transportPeer)
      else start.get? peer := by
  split
  · rename_i h
    obtain ⟨hne, hauthorized, hoverlay⟩ := h
    obtain ⟨member, hmember, hrole⟩ := isOverlayMember_iff.mp hoverlay
    obtain rfl := hfiled peer member hmember
    rw [hmember, Option.map_some]
    exact get?_insertMembers_of_mem (pairwise_allowedMembers hfiled)
      (mem_allowedMembers.mpr ⟨⟨⟨_, hmember⟩, hrole⟩, hauthorized⟩) hne
  · rename_i h
    refine get?_insertMembers_of_notMem fun member hmember hpeer => ?_
    obtain ⟨⟨⟨key, hkey⟩, hrole⟩, hauthorized⟩ := mem_allowedMembers.mp hmember
    obtain rfl : peer = key := hpeer.symm.trans (hfiled key member hkey)
    by_contra hne
    exact h ⟨hne, hauthorized, isOverlayMember_iff.mpr ⟨member, hkey, hrole⟩⟩

/-- The transport peers do not depend on the order of the members. -/
lemma transportPeers_order (hfiled : WellFiled membership)
    (h : transportPeersFromMembership env config membership order = .ok peers) :
    transportPeersFromMembership env config membership order' = .ok peers := by
  obtain ⟨localPeer, start, hlocal, hstart, rfl⟩ := transportPeers_eq_ok.mp h
  refine transportPeers_eq_ok.mpr ⟨localPeer, start, hlocal, hstart, ?_⟩
  ext peer : 1
  rw [get?_transportPeers hfiled, get?_transportPeers hfiled]

/-- Whether the transport peers can be read does not depend on the membership. -/
lemma transportPeers_succeeds_iff :
    (∃ peers, transportPeersFromMembership env config membership order = .ok peers) ↔
      (∃ localPeer, config.localPeerId env = .ok localPeer) ∧
        ∀ peer ∈ config.peers, ∃ transportPeer, env.parsePeerId peer.id = some transportPeer := by
  constructor
  · rintro ⟨peers, hpeers⟩
    obtain ⟨localPeer, start, hlocal, hstart, -⟩ := transportPeers_eq_ok.mp hpeers
    refine ⟨⟨localPeer, hlocal⟩, fun peer hpeer => ?_⟩
    obtain ⟨before, after, hstep⟩ := exists_step_of_foldlM hstart hpeer
    obtain ⟨transportPeer, hparse, -⟩ := insertConfiguredPeer_eq_ok.mp hstep
    exact ⟨transportPeer, hparse⟩
  · rintro ⟨⟨localPeer, hlocal⟩, hall⟩
    have hsucceeds : ∃ start, configuredPeers env config membership localPeer = .ok start := by
      refine foldlM_succeeds (P := fun _ => True) (fun peer hpeer before _ => ?_) trivial
      obtain ⟨transportPeer, hparse⟩ := hall peer hpeer
      exact ⟨_, insertConfiguredPeer_eq_ok.mpr ⟨transportPeer, hparse, rfl⟩, trivial⟩
    obtain ⟨start, hstart⟩ := hsucceeds
    exact ⟨_, transportPeers_eq_ok.mpr ⟨localPeer, start, hlocal, hstart, rfl⟩⟩

/-! ## Peers without authority -/

/-- A peer that the ledger knows and that is no member is not allowed. -/
lemma not_allows_of_governed (hgoverned : peer ∈ membership.governedPeers)
    (hnone : membership.members.get? peer = none) :
    allowsConfiguredPeer membership localPeer peer = false := by
  simp [allowsConfiguredPeer, authorizesConfiguredPeer, isOverlayMember, hgoverned, hnone]

lemma allows_of_mem_allowedMembers (hfiled : WellFiled membership)
    (h : member ∈ allowedMembers membership localPeer order) :
    allowsConfiguredPeer membership localPeer member.peer = true := by
  obtain ⟨⟨⟨peer, hpeer⟩, hrole⟩, hlocal⟩ := mem_allowedMembers.mp h
  obtain rfl := hfiled peer member hpeer
  have hoverlay := isOverlayMember_iff.mpr ⟨member, hpeer, hrole⟩
  simp [allowsConfiguredPeer, hlocal, hoverlay]

/-- Routes belong to the local peer and to peers that are allowed. -/
lemma allows_of_mem_routeAttempts (hfiled : WellFiled membership) {route : Route}
    (h : Except.ok route ∈ config.routeAttempts env localPeer membership order) :
    route.owner = localPeer ∨ allowsConfiguredPeer membership localPeer route.owner = true := by
  simp only [Config.routeAttempts, List.mem_append, List.mem_flatMap] at h
  rcases h with (((h | h) | h) | ⟨peer, -, h⟩) | ⟨member, hmember, h⟩
  · exact Or.inl (ownedBy_builtinRoutes _ _ h)
  · exact Or.inl (ownedBy_aliasRoutes _ _ _ h)
  · exact Or.inl (ownedBy_configuredRoutes _ _ _ h)
  · unfold peerAttempts at h
    split at h
    · simp at h
    · rename_i owner howner
      split at h
      · rename_i hallowed
        have hroutes := ((ownedBy_builtinRoutes owner).append (ownedBy_aliasRoutes owner _)).append
          (ownedBy_configuredRoutes owner _) route h
        exact Or.inr (hroutes ▸ hallowed)
      · cases h
  · rw [ownedBy_memberAttempts member route h]
    exact Or.inr (allows_of_mem_allowedMembers hfiled hmember)

/-- A configured peer that is found is allowed, and filed under the address of an entry. -/
lemma exists_entry_of_configuredPeers {transportPeer : T}
    (hstart : configuredPeers env config membership localPeer = .ok start)
    (h : start.get? peer = some transportPeer) :
    allowsConfiguredPeer membership localPeer peer = true ∧ ∃ entry ∈ config.peers,
      env.parsePeerId entry.id = some transportPeer ∧
      fromLibp2p env.toPlatform transportPeer = peer := by
  refine foldlM_invariant (P := fun peers : HashMap PeerId T =>
    peers.get? peer = some transportPeer → _) ?_ (by simp) hstart h
  intro entry hentry before after hbefore hstep hpeer
  obtain ⟨parsed, hparsed, rfl⟩ := insertConfiguredPeer_eq_ok.mp hstep
  split_ifs at hpeer with hallowed
  · rw [HashMap.get?_insert] at hpeer
    split_ifs at hpeer with heq
    · obtain rfl := Option.some.inj hpeer
      exact ⟨heq ▸ hallowed, entry, hentry, hparsed, heq.symm⟩
    · exact hbefore hpeer
  · exact hbefore hpeer

/-- Transport peers are filed under their addresses. -/
lemma fromLibp2p_of_transportPeers (haddressed : Addressed env.toPlatform membership.members)
    (hpeers : transportPeersFromMembership env config membership order = .ok peers)
    {transportPeer : T} (h : peers.get? peer = some transportPeer) :
    fromLibp2p env.toPlatform transportPeer = peer := by
  obtain ⟨localPeer, start, -, hstart, rfl⟩ := transportPeers_eq_ok.mp hpeers
  rw [get?_transportPeers haddressed.wellFiled] at h
  split_ifs at h
  · obtain ⟨member, hmember, rfl⟩ := Option.map_eq_some_iff.mp h
    exact (haddressed peer member hmember).2
  · obtain ⟨-, -, -, -, hfiled⟩ := exists_entry_of_configuredPeers hstart h
    exact hfiled

/-- Transport peers are allowed. -/
lemma allows_of_transportPeers (hfiled : WellFiled membership)
    (hlocal : config.localPeerId env = .ok localPeer)
    (hpeers : transportPeersFromMembership env config membership order = .ok peers)
    {transportPeer : T} (h : peers.get? peer = some transportPeer) :
    allowsConfiguredPeer membership localPeer peer = true := by
  obtain ⟨localPeer', start, hlocal', hstart, rfl⟩ := transportPeers_eq_ok.mp hpeers
  obtain rfl : localPeer' = localPeer := Except.ok.inj (hlocal'.symm.trans hlocal)
  rw [get?_transportPeers hfiled] at h
  split at h
  · rename_i hmember
    simp [allowsConfiguredPeer, hmember.2.1, hmember.2.2]
  · exact (exists_entry_of_configuredPeers hstart h).1

/-! ## Fewer members -/

section Shrinks

variable {later earlier : EffectiveMembership T}

lemma isOverlayMember_of_shrinks (h : Shrinks later earlier)
    (hpeer : isOverlayMember later peer = true) : isOverlayMember earlier peer = true := by
  obtain ⟨member, hmember, hrole⟩ := isOverlayMember_iff.mp hpeer
  exact isOverlayMember_iff.mpr ⟨member, h.members peer member hmember, hrole⟩

lemma authorizes_of_shrinks (h : Shrinks later earlier)
    (hpeer : authorizesConfiguredPeer later peer = true) :
    authorizesConfiguredPeer earlier peer = true := by
  rw [authorizesConfiguredPeer, Bool.or_eq_true] at hpeer ⊢
  rw [← h.governed, ← h.authoritative]
  exact hpeer.imp_right (isOverlayMember_of_shrinks h)

lemma allows_of_shrinks (h : Shrinks later earlier)
    (hpeer : allowsConfiguredPeer later localPeer peer = true) :
    allowsConfiguredPeer earlier localPeer peer = true := by
  rw [allowsConfiguredPeer, Bool.and_eq_true, Bool.or_eq_true] at hpeer ⊢
  exact ⟨authorizes_of_shrinks h hpeer.1, hpeer.2.imp (authorizes_of_shrinks h) (isOverlayMember_of_shrinks h)⟩

/-- With fewer members, no other routes are attempted. -/
lemma routeAttempts_subset (h : Shrinks later earlier) (config : Config) :
    config.routeAttempts env localPeer later order ⊆ config.routeAttempts env localPeer earlier order' := by
  intro attempt hattempt
  simp only [Config.routeAttempts, List.mem_append, List.mem_flatMap] at hattempt ⊢
  refine hattempt.imp (Or.imp_right ?_) ?_
  · rintro ⟨peer, hpeer, hattempt⟩
    refine ⟨peer, hpeer, ?_⟩
    unfold peerAttempts at hattempt ⊢
    split at hattempt
    · exact hattempt
    · split at hattempt
      · rename_i hallowed
        rw [if_pos (allows_of_shrinks h hallowed)]
        exact hattempt
      · cases hattempt
  · rintro ⟨member, hmember, hattempt⟩
    obtain ⟨⟨⟨peer, hpeer⟩, hrole⟩, hlocal⟩ := mem_allowedMembers.mp hmember
    exact ⟨member, mem_allowedMembers.mpr ⟨⟨⟨peer, h.members peer member hpeer⟩, hrole⟩,
      authorizes_of_shrinks h hlocal⟩, hattempt⟩

/-- A membership that has only lost members compiles if the earlier one does. -/
lemma compileRoutes_of_shrinks (h : Shrinks later earlier)
    (hcompiles : ∃ table, config.compileRoutesWithMembership env earlier order' = .ok table) :
    ∃ table, config.compileRoutesWithMembership env later order = .ok table := by
  obtain ⟨localPeer, hlocal, hread, hfree⟩ := compileRoutes_succeeds_iff.mp hcompiles
  have hsubset : config.routeAttempts env localPeer later order ⊆
      config.routeAttempts env localPeer earlier order' := routeAttempts_subset h config
  refine compileRoutes_succeeds_iff.mpr ⟨localPeer, hlocal, fun attempt hattempt => ?_, ?_⟩
  · exact hread attempt (hsubset hattempt)
  · intro a ha b hb
    exact hfree a (mem_readRoutes.mpr (hsubset (mem_readRoutes.mp ha))) b
      (mem_readRoutes.mpr (hsubset (mem_readRoutes.mp hb)))

end Shrinks

end P2pVpn.Forward
