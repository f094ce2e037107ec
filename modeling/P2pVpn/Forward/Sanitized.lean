/-
# Sanitized configurations

A configuration that was sanitized for a checkpoint authorizes what the members of the checkpoint
authorize, and nothing else: its routes are those of the members (`mem_routeAttempts_sanitized`), and
its transport peers are the members, but for the local peer itself, which is among them only if the
configuration lists it (`get?_transportPeers_sanitized`).
-/
import P2pVpn.Forward.Projection

namespace P2pVpn.Forward

open Lib Net P2pVpn.Membership P2pVpn.Checkpoint

variable {T K : Type} {env : SigningPlatform T K}

/-! ## Reading configured entries -/

/-- The address that a configuration gives to a peer can be read, if there is one. -/
def AliasReadable (vpnIp : Option String) : Prop :=
  ∀ ip, vpnIp = some ip → ∃ cidr, vpnIpHostRoute ip = .ok cidr

lemma retainAlias_succeeds_iff {vpnIp : Option String} {routes : List RouteConfig} :
    (∃ kept, CheckpointProjection.retainAlias vpnIp routes = .ok kept) ↔ AliasReadable vpnIp := by
  cases vpnIp with
  | none => exact ⟨fun _ ip h => absurd h (by simp), fun _ => ⟨none, rfl⟩⟩
  | some ip =>
    constructor
    · rintro ⟨kept, hkept⟩ ip' hip
      obtain rfl := Option.some.inj hip
      obtain ⟨cidr, hcidr, -⟩ := bind_eq_ok.mp hkept
      exact ⟨cidr, mapError_eq_ok_iff.mp hcidr⟩
    · intro h
      obtain ⟨cidr, hcidr⟩ := h ip rfl
      by_cases hgranted : (routes.any fun route => route.metric = 0 ∧ route.cidr = .ok cidr) = true
      · exact ⟨some ip, bind_eq_ok.mpr ⟨cidr, mapError_eq_ok_iff.mpr hcidr, if_pos hgranted⟩⟩
      · exact ⟨none, bind_eq_ok.mpr ⟨cidr, mapError_eq_ok_iff.mpr hcidr, if_neg hgranted⟩⟩

/-- What a retained address is good for: nothing that the grants do not give. -/
lemma aliasRoutes_subset {owner : PeerId} {vpnIp kept : Option String} {routes : List RouteConfig}
    (h : CheckpointProjection.retainAlias vpnIp routes = .ok kept) :
    aliasRoutes owner kept ⊆ configuredRoutes owner routes := by
  intro attempt hattempt
  obtain ⟨ip, hip, rfl⟩ := List.mem_map.mp hattempt
  obtain rfl := Option.mem_toList.mp hip
  obtain ⟨cidr, hcidr, hkept⟩ := bind_eq_ok.mp (retainAlias_retained h)
  rw [mapError_eq_ok_iff] at hcidr
  split at hkept
  · rename_i hgranted
    obtain ⟨route, hroute, hgrant⟩ := List.any_eq_true.mp hgranted
    obtain ⟨hmetric, hgrantCidr⟩ := of_decide_eq_true hgrant
    refine List.mem_map.mpr ⟨route, hroute, ?_⟩
    rw [hcidr, hgrantCidr, hmetric]
    rfl
  · cases hkept

section Sanitized

variable {projection : CheckpointProjection T} {membership : EffectiveMembership T} {now : ℕ}

/-- What sanitizing keeps of the configured peers. -/
lemma mem_of_fold {peers kept : List PeerConfig}
    (h : peers.foldlM (projection.sanitizePeer env membership now) [] = .ok kept) :
    (∀ peer' ∈ kept, ∃ peer ∈ peers, ∃ id, peer.peerId env = .ok id ∧
      projection.activeAt id now = true ∧ peer'.id = peer.id) ∧
    ∀ peer ∈ peers, ∃ id, peer.peerId env = .ok id ∧ (projection.activeAt id now = true →
      AliasReadable peer.vpnIp ∧ ∃ peer' ∈ kept, peer'.id = peer.id) := by
  induction peers using List.reverseRecOn generalizing kept with
  | nil =>
    obtain rfl := Except.ok.inj h
    exact ⟨by simp, by simp⟩
  | append_singleton peers peer ih =>
    rw [List.foldlM_append, bind_eq_ok] at h
    obtain ⟨before, hbefore, hstep⟩ := h
    obtain ⟨hkept, hsurvive⟩ := ih hbefore
    simp only [List.foldlM_cons, List.foldlM_nil, bind_pure] at hstep
    obtain ⟨id, hid, ⟨hinactive, rfl⟩ | ⟨hactive, vpnIp, hvpnIp, rfl⟩⟩ :=
      sanitizePeer_eq_ok.mp hstep
    · refine ⟨fun peer' hpeer' => ?_, fun other hother => ?_⟩
      · obtain ⟨source, hsource, hfacts⟩ := hkept peer' hpeer'
        exact ⟨source, List.mem_append_left _ hsource, hfacts⟩
      · rcases List.mem_append.mp hother with hother | hother
        · exact hsurvive other hother
        · obtain rfl := List.mem_singleton.mp hother
          exact ⟨id, hid, fun h => absurd h (by simp [hinactive])⟩
    · refine ⟨fun peer' hpeer' => ?_, fun other hother => ?_⟩
      · rcases List.mem_append.mp hpeer' with hpeer' | hpeer'
        · obtain ⟨source, hsource, hfacts⟩ := hkept peer' hpeer'
          exact ⟨source, List.mem_append_left _ hsource, hfacts⟩
        · obtain rfl := List.mem_singleton.mp hpeer'
          exact ⟨peer, by simp, id, hid, hactive, rfl⟩
      · rcases List.mem_append.mp hother with hother | hother
        · obtain ⟨id', hid', hfacts⟩ := hsurvive other hother
          refine ⟨id', hid', fun h => ?_⟩
          obtain ⟨hreadable, peer', hpeer', hsame⟩ := hfacts h
          exact ⟨hreadable, peer', List.mem_append_left _ hpeer', hsame⟩
        · obtain rfl := List.mem_singleton.mp hother
          exact ⟨id, hid, fun _ => ⟨retainAlias_succeeds_iff.mp ⟨vpnIp, hvpnIp⟩, _,
            List.mem_append_right _ (List.mem_singleton_self _), rfl⟩⟩

/-- When sanitizing succeeds. -/
lemma fold_succeeds_iff {peers : List PeerConfig} :
    (∃ kept, peers.foldlM (projection.sanitizePeer env membership now) [] = .ok kept) ↔
      ∀ peer ∈ peers, ∃ id, peer.peerId env = .ok id ∧
        (projection.activeAt id now = true → AliasReadable peer.vpnIp) := by
  constructor
  · rintro ⟨kept, hkept⟩ peer hpeer
    obtain ⟨id, hid, hfacts⟩ := (mem_of_fold hkept).2 peer hpeer
    exact ⟨id, hid, fun h => (hfacts h).1⟩
  · intro h
    refine foldlM_succeeds (P := fun _ => True) (fun peer hpeer before _ => ?_) trivial
    obtain ⟨id, hid, hreadable⟩ := h peer hpeer
    cases hactive : projection.activeAt id now with
    | false => exact ⟨before, sanitizePeer_eq_ok.mpr ⟨id, hid, Or.inl ⟨hactive, rfl⟩⟩, trivial⟩
    | true =>
      obtain ⟨vpnIp, hvpnIp⟩ := retainAlias_succeeds_iff.mpr (hreadable hactive)
      exact ⟨_, sanitizePeer_eq_ok.mpr ⟨id, hid, Or.inr ⟨hactive, vpnIp, hvpnIp, rfl⟩⟩, trivial⟩

end Sanitized

/-! ## Members of a checkpoint -/

/-- The memberships that checkpoints project to. -/
structure CheckpointMembership (env : SigningPlatform T K) (membership : EffectiveMembership T) :
    Prop where
  authoritative : membership.checkpointAuthoritative = true
  filed : Addressed env.toPlatform membership.members
  overlay : ∀ peer member, membership.members.get? peer = some member →
    EffectiveMember.hasRole member .overlayMember = true
  authority : ∀ peer member, membership.members.get? peer = some member → member.routeGrants ≠ [] →
    EffectiveMember.hasRole member .routeAuthority = true

variable {projection : CheckpointProjection T}

lemma checkpointMembership_of_projected [DecidableEq T] {state : CooperativeMembershipState}
    {localPeer : PeerId} (h : Projected env state localPeer projection)
    (hdistinct : DistinctRoster env state) (now : ℕ) :
    CheckpointMembership env (projection.membershipAt localPeer now) := by
  obtain ⟨members, hmembers, hget⟩ := get?_effectiveMembershipAt hdistinct h.valid now
  rw [membershipAt_eq_effectiveMembershipAt h hdistinct] at hmembers
  rw [Except.ok.inj hmembers]
  have hfacts : ∀ peer effective, members.get? peer = some effective →
      ∃ member transportPeer, MemberValid env member ∧ memberOverlay env member = some peer ∧
        env.parsePeerId member.peerId = some transportPeer ∧
        effective = state.effectiveMember env.toCheckpointPlatform member transportPeer := by
    intro peer effective heffective
    obtain ⟨-, member, hmember, -, hoverlay, transportPeer, hparse, rfl⟩ :=
      (hget peer effective).mp heffective
    exact ⟨member, transportPeer, memberValid_of_snapshot h.valid hmember, hoverlay, hparse, rfl⟩
  refine ⟨rfl, fun peer effective heffective => ?_, fun peer effective heffective => ?_,
    fun peer effective heffective hgrants => ?_⟩
  · obtain ⟨member, transportPeer, -, hoverlay, hparse, rfl⟩ := hfacts peer effective heffective
    have hpeer : some (fromLibp2p env.toPlatform transportPeer) = some peer :=
      (congrArg (Option.map (fromLibp2p env.toPlatform)) hparse).symm.trans hoverlay
    exact ⟨Option.some.inj hpeer, Option.some.inj hpeer⟩
  · obtain ⟨member, transportPeer, hvalid, -, -, rfl⟩ := hfacts peer effective heffective
    refine List.contains_iff_mem.mpr ?_
    unfold CooperativeMembershipState.effectiveMember
    split
    · exact hvalid.overlay
    · exact List.mem_filter.mpr ⟨hvalid.overlay, by decide⟩
  · obtain ⟨member, transportPeer, hvalid, -, -, rfl⟩ := hfacts peer effective heffective
    refine List.contains_iff_mem.mpr ?_
    unfold CooperativeMembershipState.effectiveMember at hgrants ⊢
    by_cases henabled : state.current.payload.policy.routeGrantsEnabled = true
    · simp only [henabled, if_true] at hgrants ⊢
      exact hvalid.authority hgrants
    · simp [henabled] at hgrants

/-- The local peer is a member while it takes part and is active. -/
lemma isOverlayMember_local [DecidableEq T] {state : CooperativeMembershipState}
    {localPeer : PeerId} (h : Projected env state localPeer projection)
    (hdistinct : DistinctRoster env state) (now : ℕ) :
    isOverlayMember (projection.membershipAt localPeer now) localPeer = true ↔
      state.syncState = .participating ∧ projection.activeAt localPeer now = true := by
  obtain ⟨members, hmembers, hget⟩ := get?_effectiveMembershipAt hdistinct h.valid now
  have hprojection : projection.membershipAt localPeer now = ⟨members, ∅, true⟩ := Except.ok.inj
    ((membershipAt_eq_effectiveMembershipAt h hdistinct now).symm.trans hmembers)
  have hm := checkpointMembership_of_projected h hdistinct now
  rw [h.localActive hdistinct, ← requireParticipation_eq_ok h.valid, isOverlayMember_iff]
  rw [hprojection] at hm ⊢
  constructor
  · rintro ⟨member, hmember, -⟩
    exact ((hget _ _).mp hmember).1
  · intro hparticipation
    obtain ⟨-, member, hmember, hkey, hactive⟩ := (requireParticipation_eq_ok h.valid).mp hparticipation
    obtain ⟨transportPeer, hparse⟩ := (memberValid_of_snapshot h.valid hmember).parses
    have hlocal : memberOverlay env member = some localPeer := by
      rw [memberOverlay, hkey]
      exact h.localOverlay
    have hown := (hget localPeer _).mpr
      ⟨hparticipation, member, hmember, hactive, hlocal, transportPeer, hparse, rfl⟩
    exact ⟨_, hown, hm.overlay _ _ hown⟩

section Authority

variable {membership : EffectiveMembership T} {config : Config} {localPeer peer : PeerId}
  {order : KeyOrder PeerId}

section

variable (hm : CheckpointMembership env membership)
include hm

lemma CheckpointMembership.wellFiled :
    WellFiled membership := hm.filed.wellFiled

/-- Under a checkpoint, members are authorized and nobody else. -/
lemma CheckpointMembership.authorizes (peer : PeerId) :
    authorizesConfiguredPeer membership peer = isOverlayMember membership peer := by
  simp [authorizesConfiguredPeer, hm.authoritative]

lemma CheckpointMembership.allows (localPeer peer : PeerId) :
    allowsConfiguredPeer membership localPeer peer
      = (isOverlayMember membership localPeer && isOverlayMember membership peer) := by
  simp [allowsConfiguredPeer, hm.authorizes]

lemma CheckpointMembership.grants
    {member : EffectiveMember T} (h : membership.members.get? peer = some member) :
    CheckpointProjection.grants membership peer = member.routeGrants := by
  simp [CheckpointProjection.grants, h, Option.filter, hm.overlay peer member h]

/-- The routes of the grants of a member are among its routes. -/
lemma CheckpointMembership.configuredRoutes_subset
    {member : EffectiveMember T} (h : membership.members.get? peer = some member) :
    configuredRoutes peer (CheckpointProjection.grants membership peer) ⊆ memberAttempts member := by
  intro attempt hattempt
  rw [hm.grants h] at hattempt
  have hgrants : member.routeGrants ≠ [] := by
    rintro hnil
    rw [hnil] at hattempt
    cases hattempt
  refine List.mem_append_right _ ?_
  rw [if_pos (hm.authority peer member h hgrants), (hm.filed peer member h).1]
  exact hattempt

end

/-- A configuration after it was sanitized. -/
structure SanitizedFor (env : SigningPlatform T K) (membership : EffectiveMembership T)
    (localPeer : PeerId) (config : Config) : Prop where
  own : config.localPeerId env = .ok localPeer
  routes : config.network.routes = CheckpointProjection.grants membership localPeer
  vpnIp : CheckpointProjection.retainAlias config.network.vpnIp
    (CheckpointProjection.grants membership localPeer) = .ok config.network.vpnIp
  peers : ∀ entry ∈ config.peers, ∃ id, entry.peerId env = .ok id ∧
    entry.routes = CheckpointProjection.grants membership id ∧
    CheckpointProjection.retainAlias entry.vpnIp (CheckpointProjection.grants membership id)
      = .ok entry.vpnIp

lemma sanitizedFor_of_sanitizeConfig {before : Config} {now : ℕ}
    (hlocal : before.localPeerId env = .ok localPeer)
    (h : projection.sanitizeConfig env before now = .ok config) :
    SanitizedFor env (projection.membershipAt localPeer now) localPeer config := by
  have hlocal' := localPeerId_of_sanitizeConfig h
  obtain ⟨localPeer', vpnIp, peers, hlocal'', hvpnIp, hpeers, rfl⟩ := sanitizeConfig_eq_ok.mp h
  obtain rfl : localPeer' = localPeer := Except.ok.inj (hlocal''.symm.trans hlocal)
  refine ⟨hlocal'.trans hlocal, rfl, retainAlias_retained hvpnIp, fun entry hentry => ?_⟩
  obtain ⟨id, hid⟩ := sanitizedPeer_of_fold hpeers entry hentry
  exact ⟨id, hid.peerId, hid.routes, hid.vpnIp⟩

/-- While the local peer is a member, the routes are those of the members. -/
lemma mem_routeAttempts_sanitized (hm : CheckpointMembership env membership)
    (hs : SanitizedFor env membership localPeer config)
    (hlocal : isOverlayMember membership localPeer = true) {attempt : RouteAttempt} :
    attempt ∈ config.routeAttempts env localPeer membership order ↔
      ∃ member ∈ allowedMembers membership localPeer order, attempt ∈ memberAttempts member := by
  have hallowed : ∀ {peer : PeerId} {member : EffectiveMember T},
      membership.members.get? peer = some member →
      member ∈ allowedMembers membership localPeer order := fun h =>
    mem_allowedMembers.mpr ⟨⟨⟨_, h⟩, hm.overlay _ _ h⟩, (hm.authorizes localPeer).trans hlocal⟩
  have howned : ∀ {peer : PeerId} {member : EffectiveMember T} {vpnIp : Option String},
      membership.members.get? peer = some member →
      CheckpointProjection.retainAlias vpnIp (CheckpointProjection.grants membership peer)
        = .ok vpnIp →
      builtinRoutes peer ++ aliasRoutes peer vpnIp ++
        configuredRoutes peer (CheckpointProjection.grants membership peer)
          ⊆ memberAttempts member := by
    intro peer member vpnIp hmember hvpnIp
    have hroutes := hm.configuredRoutes_subset hmember
    refine List.append_subset.mpr ⟨List.append_subset.mpr ⟨?_, ?_⟩, hroutes⟩
    · rw [← (hm.filed peer member hmember).1]
      exact List.subset_append_left _ _
    · exact List.Subset.trans (aliasRoutes_subset hvpnIp) hroutes
  simp only [Config.routeAttempts, List.mem_append, List.mem_flatMap]
  constructor
  · rintro ((hown | ⟨entry, hentry, hattempt⟩) | hmember)
    · obtain ⟨own, hown', -⟩ := isOverlayMember_iff.mp hlocal
      refine ⟨own, hallowed hown', howned hown' hs.vpnIp ?_⟩
      rw [← hs.routes]
      simpa only [List.mem_append] using hown
    · obtain ⟨id, hid, hroutes, hvpnIp⟩ := hs.peers entry hentry
      rw [peerAttempts, hid] at hattempt
      simp only [hm.allows, hlocal, Bool.true_and] at hattempt
      split at hattempt
      · rename_i hoverlay
        obtain ⟨member, hmember, -⟩ := isOverlayMember_iff.mp hoverlay
        refine ⟨member, hallowed hmember, howned hmember hvpnIp ?_⟩
        rwa [hroutes] at hattempt
      · cases hattempt
    · exact hmember
  · exact fun h => Or.inr h

/-- Configurations that were sanitized for one membership have the same routes. -/
lemma compileRoutes_sanitized (hm : CheckpointMembership env membership) {config' : Config}
    (hs : SanitizedFor env membership localPeer config)
    (hs' : SanitizedFor env membership localPeer config')
    (hlocal : isOverlayMember membership localPeer = true) {order' : KeyOrder PeerId}
    {table : RouteTable} (h : config.compileRoutesWithMembership env membership order = .ok table) :
    ∃ table', config'.compileRoutesWithMembership env membership order' = .ok table' ∧
      ∀ route, route ∈ table'.routes ↔ route ∈ table.routes := by
  have hsame : ∀ attempt, attempt ∈ config'.routeAttempts env localPeer membership order' ↔
      attempt ∈ config.routeAttempts env localPeer membership order := by
    intro attempt
    rw [mem_routeAttempts_sanitized hm hs' hlocal, mem_routeAttempts_sanitized hm hs hlocal]
    exact exists_congr fun member => and_congr_left fun _ => allowedMembers_perm.mem_iff
  obtain ⟨localPeer', hlocal', hread, hfree⟩ := compileRoutes_succeeds_iff.mp ⟨table, h⟩
  obtain rfl : localPeer' = localPeer := Except.ok.inj (hlocal'.symm.trans hs.own)
  obtain ⟨table', htable'⟩ : ∃ table',
      config'.compileRoutesWithMembership env membership order' = .ok table' := by
    refine compileRoutes_succeeds_iff.mpr ⟨localPeer', hs'.own, fun attempt hattempt =>
      hread attempt ((hsame attempt).mp hattempt), fun a ha b hb => hfree a ?_ b ?_⟩
    · exact mem_readRoutes.mpr ((hsame _).mp (mem_readRoutes.mp ha))
    · exact mem_readRoutes.mpr ((hsame _).mp (mem_readRoutes.mp hb))
  refine ⟨table', htable', fun route => ?_⟩
  rw [mem_routes_of_compileRoutes hs'.own htable', mem_routes_of_compileRoutes hs.own h,
    hsame]

/-! ### Transport peers -/

variable {peers start : HashMap PeerId T}

/-- Entries with the same address are entries of the same peer. -/
def DistinctConfigured (env : SigningPlatform T K) (config : Config) : Prop :=
  ∀ entry ∈ config.peers, ∀ entry' ∈ config.peers, ∀ peer peer', env.parsePeerId entry.id = some peer →
    env.parsePeerId entry'.id = some peer' →
    fromLibp2p env.toPlatform peer = fromLibp2p env.toPlatform peer' → peer = peer'

variable {transportPeer : T}

/-- An entry of an allowed peer is found. -/
lemma get?_configuredPeers_of_mem (hdistinct : DistinctConfigured env config)
    (hstart : configuredPeers env config membership localPeer = .ok start) {entry : PeerConfig}
    (hentry : entry ∈ config.peers) (hparse : env.parsePeerId entry.id = some transportPeer)
    (hallowed : allowsConfiguredPeer membership localPeer
      (fromLibp2p env.toPlatform transportPeer) = true) :
    start.get? (fromLibp2p env.toPlatform transportPeer) = some transportPeer := by
  obtain ⟨found, hfound⟩ :
      ∃ found, start.get? (fromLibp2p env.toPlatform transportPeer) = some found := by
    unfold configuredPeers at hstart
    obtain ⟨before, after, hsplit⟩ := List.append_of_mem hentry
    rw [hsplit, List.foldlM_append, bind_eq_ok] at hstart
    obtain ⟨middle, -, hrest⟩ := hstart
    rw [List.foldlM_cons, bind_eq_ok] at hrest
    obtain ⟨inserted, hinserted, hrest⟩ := hrest
    -- once an entry is there, it can only be overwritten
    refine foldlM_invariant (P := fun peers : HashMap PeerId T =>
      ∃ found, peers.get? (fromLibp2p env.toPlatform transportPeer) = some found) ?_ ?_ hrest
    · rintro other - before after ⟨found, hfound⟩ hstep
      obtain ⟨parsed, -, rfl⟩ := insertConfiguredPeer_eq_ok.mp hstep
      split
      · rw [HashMap.get?_insert]
        split
        · exact ⟨_, rfl⟩
        · exact ⟨found, hfound⟩
      · exact ⟨found, hfound⟩
    · obtain ⟨parsed, hparsed, rfl⟩ := insertConfiguredPeer_eq_ok.mp hinserted
      obtain rfl := Option.some.inj (hparsed.symm.trans hparse)
      rw [if_pos hallowed]
      exact ⟨parsed, HashMap.get?_insert_self _ _ _⟩
  obtain ⟨-, entry', hentry', hparse', hsame⟩ := exists_entry_of_configuredPeers hstart hfound
  obtain rfl := hdistinct entry' hentry' entry hentry _ _ hparse' hparse hsame
  exact hfound

/-- Under a checkpoint, the transport peers other than the local peer are the members. -/
lemma get?_transportPeers_sanitized (hm : CheckpointMembership env membership)
    (hlocal : config.localPeerId env = .ok localPeer)
    (h : transportPeersFromMembership env config membership order = .ok peers)
    (hne : peer ≠ localPeer) :
    peers.get? peer = if isOverlayMember membership localPeer then
      (membership.members.get? peer).map (·.transportPeer) else none := by
  obtain ⟨localPeer', start, hlocal', hstart, rfl⟩ := transportPeers_eq_ok.mp h
  obtain rfl : localPeer' = localPeer := Except.ok.inj (hlocal'.symm.trans hlocal)
  rw [get?_transportPeers hm.wellFiled, hm.authorizes]
  have hconfigured : ∀ transportPeer, start.get? peer = some transportPeer →
      isOverlayMember membership localPeer' = true ∧ isOverlayMember membership peer = true := by
    intro transportPeer hpeer
    have hallowed := (exists_entry_of_configuredPeers hstart hpeer).1
    rwa [hm.allows, Bool.and_eq_true] at hallowed
  by_cases hmember : isOverlayMember membership localPeer' = true
  · rw [if_pos hmember]
    by_cases hoverlay : isOverlayMember membership peer = true
    · rw [if_pos ⟨hne, hmember, hoverlay⟩]
    · rw [if_neg fun h => hoverlay h.2.2]
      have habsent : membership.members.get? peer = none := by
        refine Option.eq_none_iff_forall_ne_some.mpr fun member hget => hoverlay ?_
        exact isOverlayMember_iff.mpr ⟨member, hget, hm.overlay _ _ hget⟩
      rw [habsent, Option.map_none]
      exact Option.eq_none_iff_forall_ne_some.mpr fun transportPeer hpeer =>
        hoverlay (hconfigured transportPeer hpeer).2
  · rw [if_neg hmember, if_neg fun h => hmember h.2.1]
    exact Option.eq_none_iff_forall_ne_some.mpr fun transportPeer hpeer =>
      hmember (hconfigured transportPeer hpeer).1

/-- The local peer is among the transport peers if it is configured. -/
lemma get?_transportPeers_local (hm : CheckpointMembership env membership)
    (hdistinct : DistinctConfigured env config) (hlocal : config.localPeerId env = .ok localPeer)
    (h : transportPeersFromMembership env config membership order = .ok peers) :
    peers.get? localPeer = some transportPeer ↔
      isOverlayMember membership localPeer = true ∧ ∃ entry ∈ config.peers,
        env.parsePeerId entry.id = some transportPeer ∧
        fromLibp2p env.toPlatform transportPeer = localPeer := by
  obtain ⟨localPeer', start, hlocal', hstart, rfl⟩ := transportPeers_eq_ok.mp h
  obtain rfl : localPeer' = localPeer := Except.ok.inj (hlocal'.symm.trans hlocal)
  rw [get?_transportPeers hm.wellFiled, if_neg fun h => h.1 rfl]
  constructor
  · intro hpeer
    obtain ⟨hallowed, hentry⟩ := exists_entry_of_configuredPeers hstart hpeer
    rw [hm.allows, Bool.and_self] at hallowed
    exact ⟨hallowed, hentry⟩
  · rintro ⟨hmember, entry, hentry, hparse, rfl⟩
    refine get?_configuredPeers_of_mem hdistinct hstart hentry hparse ?_
    rw [hm.allows, Bool.and_self, hmember]

lemma mem_authorizedPeersFromTransportPeers [DecidableEq T] :
    transportPeer ∈ authorizedPeersFromTransportPeers peers ↔
      ∃ peer, peers.get? peer = some transportPeer := by
  rw [authorizedPeersFromTransportPeers, Multiset.mem_toFinset, Multiset.mem_map]
  constructor
  · rintro ⟨⟨peer, found⟩, hentry, rfl⟩
    exact ⟨peer, Finmap.mem_lookup_iff.mpr hentry⟩
  · rintro ⟨peer, hpeer⟩
    exact ⟨⟨peer, transportPeer⟩, Finmap.mem_lookup_iff.mp hpeer, rfl⟩

end Authority

end P2pVpn.Forward
