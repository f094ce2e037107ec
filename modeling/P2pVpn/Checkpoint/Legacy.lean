/-
# Migration of a legacy history

A network that has so far been governed by signed records is moved to checkpoints: the overlay
members that the replay of the records has at the time of the migration become the roster of the
first snapshot, with their roles and routes in canonical form.  The roster is read off the replay
(`mem_roster_of_migrate`), and neither the order of the records nor that of the hash map decides what
it is (`migrate_congr`).
-/
import Mathlib.Data.List.Destutter
import P2pVpn.Checkpoint.State
import P2pVpn.Lib.StableSort
import P2pVpn.Membership.StorageOrder
import P2pVpn.Net.AddressText

namespace P2pVpn.Checkpoint

open Lib Net P2pVpn.Membership

def legacyIncarnationDomain : List UInt8 := "p2p-vpn legacy incarnation v1\n".toUTF8.toList

/-! ## The program -/

/-- The key that route grants are sorted by. -/
def routeKey (route : RouteConfig) : String ×ₗ ℕ := toLex (route.prefixText, route.metric)

/-- Route grants with the text of `canonical_route`, sorted, and without the repetitions that stand
next to each other. -/
def canonicalGrants (grants : List RouteConfig) : Except CheckpointError (List RouteConfig) := do
  let routes ← grants.mapM fun route => do
    let text ← canonicalRoute route
    pure { route with prefixText := text }
  pure ((sortBy routeKey routes).destutter (· ≠ ·))

/-- The roles of a payload in canonical form. -/
def canonicalRoles (roles : List MembershipRole) : List MembershipRole :=
  .overlayMember :: if roles.contains .routeAuthority then [.routeAuthority] else []

section Program

variable {T K : Type} [DecidableEq T] (env : CheckpointPlatform T K)
  -- `serde_json::to_vec` of an anchor with a record
  (legacyJson : NetworkAnchor × SignedMembershipRecord → List UInt8)

/-- The entry of the roster for a member whose state rests on the given record. -/
def legacyMember (anchor : NetworkAnchor) (record : SignedMembershipRecord) :
    Except CheckpointError CheckpointMember := do
  let routes ← canonicalGrants record.payload.routeGrants
  pure
    { subject := ⟨record.payload.memberPeer, record.payload.memberPublicKey⟩
      incarnation := digest env legacyIncarnationDomain (legacyJson (anchor, record))
      roles := canonicalRoles record.payload.roles
      routeGrants := routes
      expiresAtUnixSeconds := record.payload.expiresAtUnixSeconds }

/-- The records that the states of active overlay members rest on, in the order of the iteration. -/
def overlayRecords {ι : Type} (record : ι → SignedMembershipRecord) (order : KeyOrder String)
    (states : LedgerStates ι) : List SignedMembershipRecord :=
  (((order.entries states).filter (·.2.active)).map fun entry => record entry.2.recordIndex).filter
    (·.payload.roles.contains .overlayMember)

/-- `migrate_trusted_legacy_at`.  The policy of the first snapshot is `SnapshotPolicy::default`. -/
def migrateTrustedLegacyAt (order : KeyOrder String) (capability : NetworkCapability)
    (localPeer : String) (records : List SignedMembershipRecord) (networkName : String) (now : ℕ) :
    Except CheckpointError CooperativeMembershipState := do
  liftRecord (validateMembershipRecordHistory env.toPlatform records networkName)
  refuseIf (records.any fun record => now < record.payload.issuedAtUnixSeconds)
    (.invalid "future legacy history")
  let roots ← liftRecord (membershipTrustAnchors env.toPlatform records networkName)
  let evaluation ← liftRecord (evaluateMembershipLedgerAt records roots now)
  refuseIf (evaluation.accepted.length ≠ records.length) (.invalid "unaccepted legacy history")
  let members ← (overlayRecords records.get order evaluation.states).mapM
    (legacyMember env legacyJson capability.anchor)
  CooperativeMembershipState.bootstrapAt env capability localPeer members
    ⟨maxCheckpointMembers, true⟩ now

end Program

/-! ## Canonical grants and roles -/

lemma mem_canonicalRoles {roles : List MembershipRole} (h : .overlayMember ∈ roles)
    (role : MembershipRole) : role ∈ canonicalRoles roles ↔ role ∈ roles := by
  cases role with
  | overlayMember => simp [canonicalRoles, h]
  | routeAuthority =>
    by_cases hrole : MembershipRole.routeAuthority ∈ roles
    · simp [canonicalRoles, hrole]
    · simp [canonicalRoles, hrole]

instance : Std.Antisymm fun a b : RouteConfig => routeKey a ≤ routeKey b where
  antisymm a b hab hba := by
    have hkey := le_antisymm hab hba
    simp only [routeKey, toLex_inj, Prod.mk.injEq] at hkey
    cases a
    cases b
    simp only at hkey
    rw [hkey.1, hkey.2]

/-- The canonical text of a route is read as the route itself. -/
lemma cidr_of_canonicalRoute {route : RouteConfig} {text : String}
    (h : canonicalRoute route = .ok text) : parseCidr text = route.cidr := by
  unfold canonicalRoute at h
  split at h
  · cases h
  · rename_i cidr hcidr
    obtain rfl := Except.ok.inj h
    have hclear := normalizeAddress_of_parseCidr hcidr
    rw [hclear, parseCidr_text hclear, hcidr]

/-- The canonical grants are those with the canonical texts of the grants. -/
lemma mem_canonicalGrants {grants routes : List RouteConfig} (h : canonicalGrants grants = .ok routes)
    (route : RouteConfig) :
    route ∈ routes ↔ ∃ grant ∈ grants, canonicalRoute grant = .ok route.prefixText ∧
      grant.metric = route.metric := by
  obtain ⟨canonical, hcanonical, hroutes⟩ := bind_eq_ok.mp h
  obtain rfl := Except.ok.inj hroutes
  rw [(pairwise_sortBy canonical).destutter_eq_dedup, List.mem_dedup, (perm_sortBy _).mem_iff]
  constructor
  · intro hroute
    obtain ⟨grant, hgrant, hstep⟩ := exists_of_mem_mapM hcanonical hroute
    obtain ⟨text, htext, hpure⟩ := bind_eq_ok.mp hstep
    obtain rfl := Except.ok.inj hpure
    exact ⟨grant, hgrant, htext, rfl⟩
  · rintro ⟨grant, hgrant, htext, hmetric⟩
    obtain ⟨route', hroute', hstep⟩ := exists_mem_of_mapM hcanonical hgrant
    obtain ⟨text, htext', hpure⟩ := bind_eq_ok.mp hstep
    obtain rfl := Except.ok.inj hpure
    obtain rfl := Except.ok.inj (htext'.symm.trans htext)
    rwa [hmetric] at hroute'

example : canonicalGrants [⟨"fd00:0:0::1/64", 7⟩, ⟨"10.1.2.3/16", 5⟩, ⟨"10.1.9.9/16", 5⟩]
    = .ok [⟨"10.1.0.0/16", 5⟩, ⟨"fd00::/64", 7⟩] := by
  decide +kernel

lemma exists_canonicalRoute {grants routes : List RouteConfig}
    (h : canonicalGrants grants = .ok routes) {grant : RouteConfig} (hgrant : grant ∈ grants) :
    ∃ text, canonicalRoute grant = .ok text := by
  obtain ⟨canonical, hcanonical, -⟩ := bind_eq_ok.mp h
  obtain ⟨_, -, hstep⟩ := exists_mem_of_mapM hcanonical hgrant
  obtain ⟨text, htext, -⟩ := bind_eq_ok.mp hstep
  exact ⟨text, htext⟩

/-! ## The records of active members -/

variable {T K : Type} [DecidableEq T] {env : CheckpointPlatform T K}
  {legacyJson : NetworkAnchor × SignedMembershipRecord → List UInt8}
  {records records' : List SignedMembershipRecord} {order order' : KeyOrder String}
  {capability : NetworkCapability} {localPeer name : String} {now : ℕ}
  {state state' : CooperativeMembershipState}

lemma overlayRecords_rename {ι κ : Type} {f : ι → κ} {record : ι → SignedMembershipRecord}
    {record' : κ → SignedMembershipRecord} (hf : ∀ i, record' (f i) = record i)
    {evaluation : MembershipLedgerEvaluation ι} {evaluation' : MembershipLedgerEvaluation κ}
    (h : Renames f evaluation evaluation') (order : KeyOrder String) :
    overlayRecords record' order evaluation'.states = overlayRecords record order evaluation.states := by
  unfold overlayRecords
  congr 1
  rw [h.states, KeyOrder.entries_mapValues, List.filter_map, List.map_map]
  simp only [Function.comp_def, LedgerMemberState.rename, hf]

/-- The overlay records of a replay do not depend on the order of the hash map. -/
lemma overlayRecords_perm {ι : Type} (record : ι → SignedMembershipRecord)
    (states : LedgerStates ι) (order order' : KeyOrder String) :
    (overlayRecords record order states).Perm (overlayRecords record order' states) :=
  ((((KeyOrder.entries_perm order' states).filter _).map _).filter _)

lemma mem_overlayRecords {evaluation : MembershipLedgerEvaluation SignedMembershipRecord}
    (hsound : StatesSound id evaluation) {r : SignedMembershipRecord} :
    r ∈ overlayRecords id order evaluation.states ↔
      ∃ m state, evaluation.states.get? m = some state ∧ state.active = true ∧
        state.recordIndex = r := by
  simp only [overlayRecords, List.mem_filter, List.mem_map, Prod.exists]
  constructor
  · rintro ⟨⟨m, state, ⟨hentry, hactive⟩, rfl⟩, -⟩
    exact ⟨m, state, order.mem_entries.mp hentry, hactive, rfl⟩
  · rintro ⟨m, state, hstate, hactive, rfl⟩
    exact ⟨⟨m, state, ⟨order.mem_entries.mpr hstate, hactive⟩, rfl⟩,
      ((hsound m state hstate).grant hactive).2⟩

/-! ## What a migration does -/

/-- A migration in terms of the replay of the records. -/
lemma migrate_eq_ok :
    migrateTrustedLegacyAt env legacyJson order capability localPeer records name now = .ok state ↔
      validateMembershipRecordHistory env.toPlatform records name = .ok () ∧
      (∀ r ∈ records, r.payload.issuedAtUnixSeconds ≤ now) ∧
      (replayRecords records (trustRoots records) now).accepted.length = records.length ∧
      ∃ members, (overlayRecords id order (replayRecords records (trustRoots records) now).states).mapM
          (legacyMember env legacyJson capability.anchor) = .ok members ∧
        CooperativeMembershipState.bootstrapAt env capability localPeer members
          ⟨maxCheckpointMembers, true⟩ now = .ok state := by
  have hrenames := renames_replayRecords records (trustRoots records) now
  have hlength : (replayRecords records (trustRoots records) now).accepted.length
      = (evaluateOrdered records.get (trustRoots records) (orderedIndices records now)
        now).accepted.length := by
    rw [hrenames.accepted, List.length_map]
  have hoverlay : overlayRecords id order (replayRecords records (trustRoots records) now).states
      = overlayRecords records.get order (evaluateOrdered records.get (trustRoots records)
          (orderedIndices records now) now).states :=
    overlayRecords_rename (fun _ => rfl) hrenames order
  rw [hlength, hoverlay]
  simp only [migrateTrustedLegacyAt, bind_eq_ok, exists_unit_iff, refuseIf_eq_ok, liftRecord,
    mapError_eq_ok_iff, membershipTrustAnchors_eq_ok, List.any_eq_true, decide_eq_true_eq, not_exists,
    not_and, not_lt, not_not]
  refine and_congr_right fun hvalid => and_congr_right fun _ => ?_
  simp only [hvalid, true_and, exists_eq_left, evaluate_of_valid hvalid, Except.ok.injEq, exists_eq_left']

/-- What a state that was made for a roster has. -/
lemma bootstrapAt_eq_ok {members : List CheckpointMember} {policy : SnapshotPolicy}
    (h : CooperativeMembershipState.bootstrapAt env capability localPeer members policy now
      = .ok state) :
    state.current.payload.validate env = .ok () ∧ state.localPeer = localPeer ∧
      state.current.payload.policy = policy ∧ state.names = [] ∧
      state.syncState = participation state.current.payload localPeer now ∧
      state.current.payload.members = members.insertionSort fun a b => a.peerId ≤ b.peerId := by
  obtain ⟨_, -, h⟩ := bind_eq_ok.mp h
  obtain ⟨current, hcurrent, h⟩ := bind_eq_ok.mp h
  obtain rfl := Except.ok.inj h
  obtain ⟨hpayload, hverify⟩ := NetworkCapability.authenticate_eq_ok hcurrent
  obtain ⟨-, hvalid, -⟩ := NetworkCapability.verify_eq_ok.mp hverify
  refine ⟨hvalid, rfl, ?_, rfl, rfl, ?_⟩
  · rw [hpayload]
  · rw [hpayload]

/-- The roster of the first snapshot: an entry for every active member of the replay. -/
lemma mem_roster_of_migrate
    (h : migrateTrustedLegacyAt env legacyJson order capability localPeer records name now
      = .ok state) {member : CheckpointMember} :
    member ∈ state.current.payload.members ↔
      ∃ m ledger, (replayRecords records (trustRoots records) now).states.get? m = some ledger ∧
        ledger.active = true ∧
        legacyMember env legacyJson capability.anchor ledger.recordIndex = .ok member := by
  obtain ⟨hvalid, -, -, members, hmembers, hstate⟩ := migrate_eq_ok.mp h
  obtain ⟨-, -, -, -, -, hroster⟩ := bootstrapAt_eq_ok hstate
  have hsound := (verifiedEvaluation_replayRecords (verify_of_valid hvalid) (trustRoots records)
    now).states
  rw [hroster, List.mem_insertionSort]
  constructor
  · intro hmember
    obtain ⟨r, hr, hstep⟩ := exists_of_mem_mapM hmembers hmember
    obtain ⟨m, ledger, hledger, hactive, rfl⟩ := (mem_overlayRecords hsound).mp hr
    exact ⟨m, ledger, hledger, hactive, hstep⟩
  · rintro ⟨m, ledger, hledger, hactive, hstep⟩
    obtain ⟨member', hmember', hstep'⟩ :=
      exists_mem_of_mapM hmembers ((mem_overlayRecords hsound).mpr ⟨m, ledger, hledger, hactive, rfl⟩)
    rwa [Except.ok.inj (hstep.symm.trans hstep')]

/-- Every active member of the replay has an entry. -/
lemma exists_mem_roster_of_active
    (h : migrateTrustedLegacyAt env legacyJson order capability localPeer records name now
      = .ok state) {m : String} {ledger : LedgerMemberState SignedMembershipRecord}
    (hledger : (replayRecords records (trustRoots records) now).states.get? m = some ledger)
    (hactive : ledger.active = true) :
    ∃ member ∈ state.current.payload.members,
      legacyMember env legacyJson capability.anchor ledger.recordIndex = .ok member := by
  obtain ⟨hvalid, -, -, members, hmembers, hstate⟩ := migrate_eq_ok.mp h
  have hsound := (verifiedEvaluation_replayRecords (verify_of_valid hvalid) (trustRoots records)
    now).states
  obtain ⟨member, -, hmember⟩ :=
    exists_mem_of_mapM hmembers ((mem_overlayRecords hsound).mpr ⟨m, ledger, hledger, hactive, rfl⟩)
  exact ⟨member, (mem_roster_of_migrate h).mpr ⟨m, ledger, hledger, hactive, hmember⟩, hmember⟩

/-! ## The order of the records -/

/-- No issuer has put one signature under two different payloads of the list: a signature is genuine
for one message only. -/
def SignaturesBind (records : List SignedMembershipRecord) : Prop :=
  ∀ a ∈ records, ∀ b ∈ records, a.payload.issuerPeer = b.payload.issuerPeer →
    a.signature = b.signature → a.payload = b.payload

/-- Records with different signatures are replayed in one order, however they are stored. -/
lemma orderedRecords_perm_of_binds (hbinds : SignaturesBind records) (hperm : records.Perm records')
    (now : ℕ) : orderedRecords records now = orderedRecords records' now := by
  refine orderedRecords_of_perm hperm (fun a ha b hb hab hba => ?_) now
  have hkey := le_antisymm hab hba
  simp only [membershipEventKey, toLex_inj, Prod.mk.injEq] at hkey
  obtain ⟨-, -, -, -, hissuer, -, hsignature⟩ := hkey
  have hpayload := hbinds a ha b hb hissuer hsignature
  cases a
  cases b
  simp only at hpayload hsignature
  rw [hpayload, hsignature]

/-- Rosters with the same members make the same state. -/
lemma bootstrapAt_perm {members members' : List CheckpointMember} {policy : SnapshotPolicy}
    (hperm : members.Perm members')
    (h : CooperativeMembershipState.bootstrapAt env capability localPeer members policy now
      = .ok state) :
    CooperativeMembershipState.bootstrapAt env capability localPeer members' policy now
      = .ok state := by
  have hsorted : members'.insertionSort (fun a b => a.peerId ≤ b.peerId)
      = members.insertionSort fun a b => a.peerId ≤ b.peerId := by
    obtain ⟨hvalid, -, -, -, -, hroster⟩ := bootstrapAt_eq_ok h
    have hstrict := (CheckpointSnapshot.validate_members hvalid).2
    rw [hroster] at hstrict
    have hmembers : (members'.insertionSort fun a b => a.peerId ≤ b.peerId).Perm
        (members.insertionSort fun a b => a.peerId ≤ b.peerId) :=
      (List.perm_insertionSort _ _).trans (hperm.symm.trans (List.perm_insertionSort _ _).symm)
    refine hmembers.eq_of_pairwise ?_ (pairwise_sortBy members') (pairwise_sortBy members)
    -- no two members of a valid roster have one identifier
    intro a b ha hb hab hba
    have hlookup := (lookup_eq_some_iff hstrict).mpr ⟨hmembers.mem_iff.mp ha, le_antisymm hab hba⟩
    exact Option.some.inj (hlookup.symm.trans ((lookup_eq_some_iff hstrict).mpr ⟨hb, rfl⟩))
  unfold CooperativeMembershipState.bootstrapAt at h ⊢
  rwa [hsorted]

/-- A replay of the same records in the same order migrates to the same state. -/
lemma migrate_congr (hperm : records.Perm records')
    (hordered : orderedRecords records now = orderedRecords records' now)
    (hvalid : validateMembershipRecordHistory env.toPlatform records' name = .ok ())
    (h : migrateTrustedLegacyAt env legacyJson order capability localPeer records name now
      = .ok state) :
    migrateTrustedLegacyAt env legacyJson order' capability localPeer records' name now
      = .ok state := by
  obtain ⟨-, hissued, haccepted, members, hmembers, hstate⟩ := migrate_eq_ok.mp h
  obtain ⟨members', hmembers', hmembersPerm⟩ :=
    mapM_perm (overlayRecords_perm id _ order order') hmembers
  rw [migrate_eq_ok, replayRecords_of_perm hperm hordered]
  exact ⟨hvalid, fun r hr => hissued r (hperm.mem_iff.mpr hr), hperm.length_eq ▸ haccepted, members',
    hmembers', bootstrapAt_perm hmembersPerm hstate⟩

end P2pVpn.Checkpoint
