/-
# A migration keeps the authority of every member

The replay of a legacy history and the roster of the checkpoint that it is migrated to are two models
of who may do what.  They agree when the migration is made and at every later time: the same peers are
members, with the same roles, and the routes of a member compile to the same ones
(`migration_preserves_authority`).  What the migration gives does not depend on the order in which the
records were stored.
-/
import P2pVpn.Checkpoint.Legacy
import P2pVpn.Checkpoint.Sample
import P2pVpn.Forward.Projection

namespace P2pVpn.Forward

open Lib Net P2pVpn.Membership P2pVpn.Checkpoint

variable {T K : Type} [DecidableEq T] {env : SigningPlatform T K}
  {legacyJson : NetworkAnchor × SignedMembershipRecord → List UInt8}
  {records : List SignedMembershipRecord} {order : KeyOrder String}
  {capability : NetworkCapability} {localPeer name : String} {now t : ℕ}
  {state : CooperativeMembershipState}

/-! ## Agreement -/

/-- A member with the authority of another: one peer with the same roles, whose routes compile to the
same ones. -/
structure KeepsAuthority (member legacy : EffectiveMember T) : Prop where
  transportPeer : member.transportPeer = legacy.transportPeer
  roles : ∀ role, role ∈ member.roles ↔ role ∈ legacy.roles
  routes : ∀ attempt, attempt ∈ memberAttempts member ↔ attempt ∈ memberAttempts legacy

/-- A checkpoint and a history have the same members at a time, with the same authority. -/
def AgreesAt (env : SigningPlatform T K) (state : CooperativeMembershipState)
    (records : List SignedMembershipRecord) (name : String) (t : ℕ) : Prop :=
  ∀ order, ∃ legacy migrated,
    Membership.effectiveMembershipAt env.toPlatform order records name t = .ok legacy ∧
      state.effectiveMembershipAt env.toCheckpointPlatform t = .ok migrated ∧
      ∀ peer, Option.Rel KeepsAuthority (migrated.members.get? peer) (legacy.members.get? peer)

/-- The members of the roster that are active at a time are the members of the history. -/
def RosterAgreesAt (env : SigningPlatform T K) (state : CooperativeMembershipState)
    (records : List SignedMembershipRecord) (name : String) (t : ℕ) : Prop :=
  ∀ order, ∃ legacy,
    Membership.effectiveMembershipAt env.toPlatform order records name t = .ok legacy ∧
      ∀ peer, (∃ member ∈ state.current.payload.members, member.activeAt t = true ∧
        memberOverlay env member = some peer) ↔ (legacy.members.get? peer).isSome = true

/-! ## One member -/

lemma mem_configuredRoutes {owner : PeerId} {routes : List RouteConfig} {attempt : RouteAttempt} :
    attempt ∈ configuredRoutes owner routes ↔
      ∃ route ∈ routes, (do
        let cidr ← route.cidr.mapError ConfigError.routePrefix
        pure ⟨owner, cidr, route.metric⟩) = attempt := by
  rw [configuredRoutes, List.mem_map]

/-- Grants in canonical form compile to the same routes. -/
lemma mem_configuredRoutes_canonicalGrants {owner : PeerId} {grants routes : List RouteConfig}
    (h : canonicalGrants grants = .ok routes) (attempt : RouteAttempt) :
    attempt ∈ configuredRoutes owner routes ↔ attempt ∈ configuredRoutes owner grants := by
  rw [mem_configuredRoutes, mem_configuredRoutes]
  constructor
  · rintro ⟨route, hroute, rfl⟩
    obtain ⟨grant, hgrant, htext, hmetric⟩ := (mem_canonicalGrants h route).mp hroute
    refine ⟨grant, hgrant, ?_⟩
    rw [RouteConfig.cidr.eq_def route, cidr_of_canonicalRoute htext, hmetric]
  · rintro ⟨grant, hgrant, rfl⟩
    obtain ⟨text, htext⟩ : ∃ text, canonicalRoute grant = .ok text := exists_canonicalRoute h hgrant
    refine ⟨⟨text, grant.metric⟩, (mem_canonicalGrants h _).mpr ⟨grant, hgrant, htext, rfl⟩, ?_⟩
    rw [RouteConfig.cidr, cidr_of_canonicalRoute htext]

variable {member : CheckpointMember} {anchor : NetworkAnchor} {r : SignedMembershipRecord}

omit [DecidableEq T] in
/-- The entry of a roster has the authority of the record that it was made from. -/
lemma keepsAuthority_of_legacyMember {legacy : EffectiveMember T}
    {evaluation : MembershipLedgerEvaluation SignedMembershipRecord}
    {ledger : LedgerMemberState SignedMembershipRecord} {transportPeer : T}
    (hpolicy : state.current.payload.policy.routeGrantsEnabled = true)
    (hmember : legacyMember env.toCheckpointPlatform legacyJson anchor ledger.recordIndex = .ok member)
    (hlegacy : effectiveMemberOf env.toPlatform id evaluation ledger = .ok legacy)
    (hoverlay : .overlayMember ∈ ledger.recordIndex.payload.roles)
    (hparse : env.parsePeerId member.peerId = some transportPeer) :
    KeepsAuthority (state.effectiveMember env.toCheckpointPlatform member transportPeer) legacy := by
  obtain ⟨routes, hroutes, hpure⟩ := bind_eq_ok.mp hmember
  obtain rfl := Except.ok.inj hpure
  simp only [effectiveMemberOf, EffectiveMember.tryFromPayload, bind_eq_ok] at hlegacy
  obtain ⟨peer, hpeer, _, -, _, -, _, -, hlegacy⟩ := hlegacy
  obtain rfl := Except.ok.inj hlegacy
  obtain rfl := Option.some.inj (hparse.symm.trans (parsePeer_eq_ok.mp hpeer))
  have hroles := mem_canonicalRoles hoverlay
  refine ⟨rfl, fun role => ?_, fun attempt => ?_⟩
  · simp only [CooperativeMembershipState.effectiveMember, hpolicy, if_true]
    exact hroles role
  · simp only [memberAttempts, EffectiveMember.hasRole, CooperativeMembershipState.effectiveMember,
      hpolicy, if_true, List.contains_eq_mem, hroles, List.mem_append, id]
    refine or_congr_right ?_
    split
    · exact mem_configuredRoutes_canonicalGrants hroutes attempt
    · exact Iff.rfl

/-! ## The passing of time -/

omit [DecidableEq T] in
/-- A member of the roster runs out when its record does. -/
lemma activeAt_of_legacyMember
    (h : legacyMember env.toCheckpointPlatform legacyJson anchor r = .ok member) (t : ℕ) :
    member.activeAt t = !r.isExpiredAt t := by
  obtain ⟨routes, -, hpure⟩ := bind_eq_ok.mp h
  obtain rfl := Except.ok.inj hpure
  unfold CheckpointMember.activeAt SignedMembershipRecord.isExpiredAt
  cases r.payload.expiresAtUnixSeconds with
  | none => rfl
  | some expiry =>
    show decide (t < expiry) = !decide (expiry ≤ t)
    rw [← decide_not, decide_eq_decide, not_le]

omit [DecidableEq T] in
lemma peerId_of_legacyMember
    (h : legacyMember env.toCheckpointPlatform legacyJson anchor r = .ok member) :
    member.peerId = r.payload.memberPeer := by
  obtain ⟨routes, -, hpure⟩ := bind_eq_ok.mp h
  obtain rfl := Except.ok.inj hpure
  rfl

/-- With no record left to come, a member is active later on exactly if it is active now and its
record has not run out by then. -/
lemma active_later_iff {roots : Finset String} (hle : now ≤ t)
    (hordered : orderedRecords records t = orderedRecords records now) {m : String} :
    (∃ ledger, (replayRecords records roots t).states.get? m = some ledger ∧ ledger.active = true ∧
        ledger.recordIndex = r) ↔
      (∃ ledger, (replayRecords records roots now).states.get? m = some ledger ∧
        ledger.active = true ∧ ledger.recordIndex = r) ∧ r.isExpiredAt t = false := by
  have hmono : r.isExpiredAt t = false → r.isExpiredAt now = false := by
    intro hfalse
    by_contra htrue
    rw [isExpiredAt_mono hle (by simpa using htrue)] at hfalse
    cases hfalse
  simp only [get?_replayRecords, hordered]
  cases (evaluateGroups id roots (orderedRecords records now)).states.get? m with
  | none => simp
  | some base =>
    simp only [Option.map_some, Option.some.injEq, exists_eq_left', stateAt_active,
      stateAt_recordIndex, Bool.and_eq_true, Bool.not_eq_true']
    constructor
    · rintro ⟨⟨hactive, hexpired⟩, rfl⟩
      exact ⟨⟨⟨hactive, hmono hexpired⟩, rfl⟩, hexpired⟩
    · rintro ⟨⟨⟨hactive, -⟩, rfl⟩, hexpired⟩
      exact ⟨⟨hactive, hexpired⟩, rfl⟩

section Migrated

variable (hmigrate : migrateTrustedLegacyAt env.toCheckpointPlatform legacyJson order capability
  localPeer records name now = .ok state) (hle : now ≤ t)

include hmigrate hle

lemma orderedRecords_of_migrate : orderedRecords records t = orderedRecords records now :=
  orderedRecords_of_noIssue hle fun r hr h => absurd ((migrate_eq_ok.mp hmigrate).2.1 r hr) (by omega)

/-- The active members of the roster, by the replay at that time. -/
lemma active_roster_iff :
    member ∈ state.current.payload.members ∧ member.activeAt t = true ↔
      ∃ m ledger, (replayRecords records (trustRoots records) t).states.get? m = some ledger ∧
        ledger.active = true ∧
        legacyMember env.toCheckpointPlatform legacyJson capability.anchor ledger.recordIndex
          = .ok member := by
  have hordered := orderedRecords_of_migrate hmigrate hle
  constructor
  · rintro ⟨hmember, hactive⟩
    obtain ⟨m, ledger, hledger, hledgerActive, hentry⟩ := (mem_roster_of_migrate hmigrate).mp hmember
    rw [activeAt_of_legacyMember hentry, Bool.not_eq_true'] at hactive
    obtain ⟨ledger', hledger', hactive', hrecord⟩ := (active_later_iff hle hordered).mpr
      ⟨⟨ledger, hledger, hledgerActive, rfl⟩, hactive⟩
    exact ⟨m, ledger', hledger', hactive', hrecord ▸ hentry⟩
  · rintro ⟨m, ledger, hledger, hactive, hentry⟩
    obtain ⟨⟨ledger', hledger', hactive', hrecord⟩, hexpired⟩ :=
      (active_later_iff hle hordered).mp ⟨ledger, hledger, hactive, rfl⟩
    refine ⟨(mem_roster_of_migrate hmigrate).mpr ⟨m, ledger', hledger', hactive', hrecord ▸ hentry⟩, ?_⟩
    rw [activeAt_of_legacyMember hentry, hexpired]
    rfl

/-- A member that is active in the replay at a later time has an entry in the roster. -/
lemma exists_active_entry {m : String} {ledger : LedgerMemberState SignedMembershipRecord}
    (hledger : (replayRecords records (trustRoots records) t).states.get? m = some ledger)
    (hactive : ledger.active = true) :
    ∃ member, (member ∈ state.current.payload.members ∧ member.activeAt t = true) ∧
      legacyMember env.toCheckpointPlatform legacyJson capability.anchor ledger.recordIndex
        = .ok member := by
  obtain ⟨⟨ledger', hledger', hactive', hrecord⟩, -⟩ := (active_later_iff hle
    (orderedRecords_of_migrate hmigrate hle)).mp ⟨ledger, hledger, hactive, rfl⟩
  obtain ⟨member, -, hentry⟩ := exists_mem_roster_of_active hmigrate hledger' hactive'
  rw [hrecord] at hentry
  exact ⟨member, (active_roster_iff hmigrate hle).mpr ⟨m, ledger, hledger, hactive, hentry⟩, hentry⟩

/-- An active member of the roster is a member of the history, by the state that it was made from. -/
lemma legacy_of_active (haddresses : DistinctAddresses env.toPlatform records)
    {order' : KeyOrder String} {legacy : EffectiveMembership T}
    (hlegacy : Membership.effectiveMembershipAt env.toPlatform order' records name t = .ok legacy)
    {peer : PeerId} (hmember : member ∈ state.current.payload.members)
    (hactive : member.activeAt t = true) (hoverlay : memberOverlay env member = some peer) :
    ∃ ledger effective, legacy.members.get? peer = some effective ∧
      effectiveMemberOf env.toPlatform id (replayRecords records (trustRoots records) t) ledger
        = .ok effective ∧
      legacyMember env.toCheckpointPlatform legacyJson capability.anchor ledger.recordIndex
        = .ok member ∧
      .overlayMember ∈ ledger.recordIndex.payload.roles := by
  obtain ⟨hvalid, -⟩ := migrate_eq_ok.mp hmigrate
  have hprojects := projects_of_effectiveMembershipAt hvalid haddresses hlegacy
  have hverified := verifiedEvaluation_replayRecords (verify_of_valid hvalid) (trustRoots records) t
  obtain ⟨m, ledger, hledger, hledgerActive, hentry⟩ :=
    (active_roster_iff hmigrate hle).mp ⟨hmember, hactive⟩
  obtain ⟨effective, heffective⟩ := effectiveMemberOf_ok hverified hledger
  rw [memberOverlay, peerId_of_legacyMember hentry] at hoverlay
  have hpeer := Option.some.inj ((effectiveMemberOf_peer heffective).symm.trans hoverlay)
  refine ⟨ledger, effective, (hprojects.members peer effective).mpr
    ⟨(m, ledger), order'.mem_entries.mpr hledger, hledgerActive, heffective, hpeer⟩, heffective,
    hentry, ?_⟩
  simpa using ((hverified.states m ledger hledger).grant hledgerActive).2

/-- The active members of the roster are the members of the history. -/
lemma rosterAgreesAt_of_migrate (haddresses : DistinctAddresses env.toPlatform records) :
    RosterAgreesAt env state records name t := by
  intro order'
  obtain ⟨hvalid, -⟩ := migrate_eq_ok.mp hmigrate
  obtain ⟨legacy, hlegacy, hprojects⟩ := exists_effectiveMembershipAt hvalid haddresses order' t
  refine ⟨legacy, hlegacy, fun peer => ?_⟩
  rw [Option.isSome_iff_exists]
  constructor
  · rintro ⟨member, hmember, hactive, hoverlay⟩
    obtain ⟨-, effective, heffective, -⟩ :=
      legacy_of_active hmigrate hle haddresses hlegacy hmember hactive hoverlay
    exact ⟨effective, heffective⟩
  · rintro ⟨effective, hget⟩
    obtain ⟨⟨m, ledger⟩, hentry, hactive, heffective, rfl⟩ :=
      (hprojects.members peer effective).mp hget
    obtain ⟨member, ⟨hmember, hmemberActive⟩, hlegacyMember⟩ :=
      exists_active_entry hmigrate hle (order'.mem_entries.mp hentry) hactive
    refine ⟨member, hmember, hmemberActive, ?_⟩
    rw [memberOverlay, peerId_of_legacyMember hlegacyMember]
    exact effectiveMemberOf_peer heffective

omit hle in
/-- The members of the roster, and the local peer if it is one, have different addresses. -/
lemma distinctRoster_of_migrate (haddresses : DistinctAddresses env.toPlatform records)
    (hlocal : ∃ member ∈ state.current.payload.members, member.peerId = state.localPeer) :
    DistinctRoster env state := by
  obtain ⟨hvalid, -⟩ := migrate_eq_ok.mp hmigrate
  have hsound := (verifiedEvaluation_replayRecords (verify_of_valid hvalid) (trustRoots records)
    now).states
  have hrecord : ∀ member ∈ state.current.payload.members, ∃ r ∈ records,
      r.payload.memberPeer = member.peerId := by
    intro member hmember
    obtain ⟨m, ledger, hledger, -, hentry⟩ := (mem_roster_of_migrate hmigrate).mp hmember
    have haccepted := (hsound m ledger hledger).accepted
    exact ⟨ledger.recordIndex, (mem_orderedRecords.mp (accepted_subset_ordered _ _ haccepted)).1,
      (peerId_of_legacyMember hentry).symm⟩
  have hall : ∀ peer ∈ state.localPeer :: state.current.payload.members.map CheckpointMember.peerId,
      ∃ r ∈ records, r.payload.memberPeer = peer := by
    intro peer hpeer
    rcases List.mem_cons.mp hpeer with rfl | hpeer
    · obtain ⟨member, hmember, hkey⟩ := hlocal
      exact hkey ▸ hrecord member hmember
    · obtain ⟨member, hmember, rfl⟩ := List.mem_map.mp hpeer
      exact hrecord member hmember
  intro a ha b hb hsame
  obtain ⟨r, hr, rfl⟩ := hall a ha
  obtain ⟨r', hr', rfl⟩ := hall b hb
  exact haddresses r hr r' hr' hsame

/-- While the local peer is active, what a node acts on agrees with the history. -/
lemma agreesAt_of_migrate (haddresses : DistinctAddresses env.toPlatform records)
    (hparticipates : state.requireParticipation t = .ok ()) : AgreesAt env state records name t := by
  intro order'
  obtain ⟨hvalid, -, -, members, -, hbootstrap⟩ := migrate_eq_ok.mp hmigrate
  obtain ⟨hsnapshot, -, hpolicy, -⟩ := bootstrapAt_eq_ok hbootstrap
  obtain ⟨-, local', hlocal, hkey, -⟩ :=
    (requireParticipation_eq_ok hsnapshot).mp hparticipates
  have hdistinct := distinctRoster_of_migrate hmigrate haddresses ⟨local', hlocal, hkey⟩
  obtain ⟨legacy, hlegacy, hroster⟩ := rosterAgreesAt_of_migrate hmigrate hle haddresses order'
  obtain ⟨table, htable, hget⟩ := get?_effectiveMembershipAt hdistinct hsnapshot t
  refine ⟨legacy, _, hlegacy, htable, fun peer => ?_⟩
  show Option.Rel KeepsAuthority (table.get? peer) (legacy.members.get? peer)
  cases hmigrated : table.get? peer with
  | none =>
    cases hmember : legacy.members.get? peer with
    | none => exact .none
    | some effective =>
      obtain ⟨member, hmem, hactive, hoverlay⟩ := (hroster peer).mpr (by rw [hmember]; rfl)
      obtain ⟨transportPeer, hparse⟩ := (memberValid_of_snapshot hsnapshot hmem).parses
      have hsome := (hget peer _).mpr
        ⟨hparticipates, member, hmem, hactive, hoverlay, transportPeer, hparse, rfl⟩
      rw [hmigrated] at hsome
      cases hsome
  | some migrated =>
    obtain ⟨-, member, hmem, hactive, hoverlay, transportPeer, hparse, rfl⟩ :=
      (hget peer migrated).mp hmigrated
    obtain ⟨ledger, effective, hmember, heffective, hentry, hrole⟩ :=
      legacy_of_active hmigrate hle haddresses hlegacy hmem hactive hoverlay
    rw [hmember]
    exact .some (keepsAuthority_of_legacyMember (by rw [hpolicy]) hentry heffective hrole hparse)

end Migrated

/-! ## The migration -/

/-- **A migration preserves authority.**  If a legacy history is migrated to a checkpoint in which the
local peer is active, the effective membership of the checkpoint has the members of the history, each
with the same roles and the same routes; at every later time the members of the roster that are active
are the members of the history, and as long as the local peer is one of them both memberships agree.
The state does not depend on the order in which the records are stored, and a history without
conflicting records can be migrated from any order. -/
theorem migration_preserves_authority (env : SigningPlatform T K)
    (legacyJson : NetworkAnchor × SignedMembershipRecord → List UInt8)
    (capability : NetworkCapability) (localPeer name : String) (now : ℕ)
    (records : List SignedMembershipRecord) (order : KeyOrder String)
    (state : CooperativeMembershipState)
    (haddresses : DistinctAddresses env.toPlatform records) (hbinds : SignaturesBind records)
    (hmigrate : migrateTrustedLegacyAt env.toCheckpointPlatform legacyJson order capability localPeer
      records name now = .ok state)
    (hlocal : participation state.current.payload localPeer now = .participating) :
    AgreesAt env state records name now ∧
      (∀ t, now ≤ t → RosterAgreesAt env state records name t ∧
        (participation state.current.payload localPeer t = .participating →
          AgreesAt env state records name t)) ∧
      (∀ records' order' state', records.Perm records' →
        migrateTrustedLegacyAt env.toCheckpointPlatform legacyJson order' capability localPeer records'
          name now = .ok state' → state' = state) ∧
      (Membership.ConflictFree records → ∀ records' order', records.Perm records' →
        migrateTrustedLegacyAt env.toCheckpointPlatform legacyJson order' capability localPeer records'
          name now = .ok state) := by
  obtain ⟨hvalid, -, -, members, -, hbootstrap⟩ := migrate_eq_ok.mp hmigrate
  obtain ⟨-, hpeer, -, -, hsync, -⟩ := bootstrapAt_eq_ok hbootstrap
  have hparticipates : ∀ t, participation state.current.payload localPeer t = .participating →
      state.requireParticipation t = .ok () := by
    intro t ht
    rw [CooperativeMembershipState.requireParticipation, refuseIf_eq_ok, hsync, hpeer, hlocal, ht]
    simp
  refine ⟨agreesAt_of_migrate hmigrate le_rfl haddresses (hparticipates now hlocal),
    fun t hle => ⟨rosterAgreesAt_of_migrate hmigrate hle haddresses, fun ht =>
      agreesAt_of_migrate hmigrate hle haddresses (hparticipates t ht)⟩, ?_, ?_⟩
  · intro records' order' state' hperm hmigrate'
    obtain ⟨hvalid', -⟩ := migrate_eq_ok.mp hmigrate'
    have hsame : migrateTrustedLegacyAt env.toCheckpointPlatform legacyJson order' capability localPeer
        records' name now = .ok state :=
      migrate_congr hperm (orderedRecords_perm_of_binds hbinds hperm now) hvalid' hmigrate
    exact Except.ok.inj (hmigrate'.symm.trans hsame)
  · intro hfree records' order' hperm
    have hvalid' : validateMembershipRecordHistory env.toPlatform records' name = .ok () := by
      obtain ⟨hlength, hrecords, -⟩ := validateHistory_eq_ok.mp hvalid
      refine validateHistory_eq_ok.mpr ⟨hperm.length_eq ▸ hlength,
        fun r hr => hrecords r (hperm.mem_iff.mpr hr), latest_ok_of_conflictFree ?_⟩
      exact fun a ha b hb => hfree a (hperm.mem_iff.mpr ha) b (hperm.mem_iff.mpr hb)
    exact migrate_congr hperm (orderedRecords_perm hperm hfree now) hvalid' hmigrate

/-- `A` admits `B` for a while, with two spellings of one route, and `C`. -/
def routedHistory : List SignedMembershipRecord :=
  let grant := sampleGrant .A .B 1 1 10 (some 100) "A2"
  [sampleGrant .A .A 1 1 1 none "A1",
    { grant with payload := { grant.payload with
        roles := [.routeAuthority, .overlayMember]
        routeGrants := [⟨"10.1.2.3/16", 5⟩, ⟨"fd00:0:0::1/64", 7⟩, ⟨"10.1.9.9/16", 5⟩] } },
    sampleGrant .A .C 1 1 12 none "A3"]

def routedMigration (records : List SignedMembershipRecord) :
    Except CheckpointError CooperativeMembershipState :=
  migrateTrustedLegacyAt sampleSigning.toCheckpointPlatform
    (fun legacy => [legacy.2.signature.length.toUInt8]) .sorted sampleCapability SamplePeer.A.text records "lab" 20

/-- The network of `A`, `B` and `C` is migrated, from any order. -/
theorem routed_migration_preserves_authority :
    ∃ state, routedMigration routedHistory = .ok state ∧
      AgreesAt sampleSigning state routedHistory "lab" 20 ∧
      RosterAgreesAt sampleSigning state routedHistory "lab" 100 ∧
      routedMigration routedHistory.reverse = .ok state := by
  have hany : (routedMigration routedHistory).toOption.any (fun state =>
      participation state.current.payload SamplePeer.A.text 20 = .participating) = true := by
    decide +kernel
  obtain ⟨state, hstate, hlocal⟩ := exists_ok_of_any hany
  obtain ⟨hagrees, hlater, -, hfree⟩ := migration_preserves_authority sampleSigning _ sampleCapability
    SamplePeer.A.text "lab" 20 routedHistory .sorted state
    (by unfold DistinctAddresses; decide +kernel) (by unfold SignaturesBind; decide +kernel) hstate
    (by simpa using hlocal)
  refine ⟨state, hstate, hagrees, (hlater 100 (by decide)).1, hfree ?_ _ .sorted
    (List.reverse_perm _).symm⟩
  decide +kernel

end P2pVpn.Forward
