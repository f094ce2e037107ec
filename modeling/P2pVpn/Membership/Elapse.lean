/-
# The passing of time

A replay at a later time differs from one at an earlier time by the records issued in between and by
the memberships that have run out.  Between issue times a membership can only lose members
(`shrinks_of_noIssue`), and it stays as it is if none runs out (`effectiveMembershipAt_stable`).
-/
import P2pVpn.Membership.Clock

namespace P2pVpn.Membership

open Lib

/-! ## Losing members -/

section Shrinks

variable {T : Type}

/-- A membership that differs from an earlier one in the members that it has lost. -/
structure Shrinks (later earlier : EffectiveMembership T) : Prop where
  members : ∀ peer member, later.members.get? peer = some member →
    earlier.members.get? peer = some member
  governed : later.governedPeers = earlier.governedPeers
  authoritative : later.checkpointAuthoritative = earlier.checkpointAuthoritative

/-- Two memberships of which each has lost members of the other are the same. -/
lemma Shrinks.antisymm {later earlier : EffectiveMembership T} (h : Shrinks later earlier)
    (h' : Shrinks earlier later) : later = earlier := by
  obtain ⟨members, governed, authoritative⟩ := later
  obtain ⟨members', governed', authoritative'⟩ := earlier
  obtain rfl : members = members' := by
    ext peer member
    exact ⟨h.members peer member, h'.members peer member⟩
  obtain rfl : governed = governed' := h.governed
  obtain rfl : authoritative = authoritative' := h.authoritative
  rfl

end Shrinks

/-! ## Replays at two times -/

/-- No record is issued after `earlier` and by `later`. -/
def NoIssue (records : List SignedMembershipRecord) (earlier later : ℕ) : Prop :=
  ∀ r ∈ records, ¬ (earlier < r.payload.issuedAtUnixSeconds ∧ r.payload.issuedAtUnixSeconds ≤ later)

variable {records : List SignedMembershipRecord} {roots : Finset String} {t t' : ℕ}

lemma orderedRecords_of_noIssue (hle : t ≤ t') (hissue : NoIssue records t t') :
    orderedRecords records t' = orderedRecords records t := by
  unfold orderedRecords
  congr 1
  refine List.filter_congr fun r hr => ?_
  have := hissue r hr
  simp only [decide_eq_decide]
  omega

/-- A state after the expiry at the end of a replay. -/
def stateAt (now : ℕ) (state : LedgerMemberState SignedMembershipRecord) :
    LedgerMemberState SignedMembershipRecord :=
  if state.active && state.recordIndex.isExpiredAt now then { state with active := false } else state

@[simp] lemma stateAt_recordIndex (now : ℕ) (state : LedgerMemberState SignedMembershipRecord) :
    (stateAt now state).recordIndex = state.recordIndex := by
  unfold stateAt
  split <;> rfl

@[simp] lemma stateAt_active (now : ℕ) (state : LedgerMemberState SignedMembershipRecord) :
    (stateAt now state).active = (state.active && !state.recordIndex.isExpiredAt now) := by
  unfold stateAt
  split
  · rename_i h
    simp only [Bool.and_eq_true] at h
    simp [h.2]
  · rename_i h
    simp only [Bool.and_eq_true, not_and, Bool.not_eq_true] at h
    cases hactive : state.active
    · rfl
    · simp [h hactive]

lemma get?_replayRecords (m : String) :
    (replayRecords records roots t).states.get? m =
      ((evaluateGroups id roots (orderedRecords records t)).states.get? m).map (stateAt t) :=
  get?_expireMembersAt _ _ _

/-- A state at one time has the record of a state at the other, and is active there if it has not
run out. -/
lemma exists_state_of_ordered (hordered : orderedRecords records t' = orderedRecords records t)
    {m : String} {state' : LedgerMemberState SignedMembershipRecord}
    (hstate : (replayRecords records roots t').states.get? m = some state') :
    ∃ state, (replayRecords records roots t).states.get? m = some state ∧
      state.recordIndex = state'.recordIndex ∧
      (state'.active = true → state'.recordIndex.isExpiredAt t' = false ∧
        (state'.recordIndex.isExpiredAt t = false → state.active = true)) := by
  rw [get?_replayRecords, hordered] at hstate
  obtain ⟨base, hbase, rfl⟩ := Option.map_eq_some_iff.mp hstate
  refine ⟨stateAt t base, by rw [get?_replayRecords, hbase]; rfl, by simp, fun hactive => ?_⟩
  simp only [stateAt_active, stateAt_recordIndex, Bool.and_eq_true, Bool.not_eq_true'] at hactive ⊢
  exact ⟨hactive.2, fun hexpired => ⟨hactive.1, hexpired⟩⟩

variable {T K : Type} [DecidableEq T] {env : Platform T K} {name : String} {order : KeyOrder String}
  {earlier later : EffectiveMembership T}

section Valid

variable (hvalid : validateMembershipRecordHistory env records name = .ok ())
  (haddresses : DistinctAddresses env records)
include hvalid haddresses

/-- The effective membership of a valid history can be computed at any time, and consists of the
contributions of the states. -/
lemma exists_effectiveMembershipAt (order : KeyOrder String) (now : ℕ) :
    ∃ membership, effectiveMembershipAt env order records name now = .ok membership ∧
      Projects env id (replayRecords records (trustRoots records) now)
        (order.entries (replayRecords records (trustRoots records) now).states) membership := by
  rw [effectiveMembershipAt_eq_under hvalid]
  exact exists_effectiveMembershipUnder hvalid haddresses order (trustRoots records) now

lemma projects_of_effectiveMembershipAt {membership : EffectiveMembership T}
    (h : effectiveMembershipAt env order records name t = .ok membership) :
    Projects env id (replayRecords records (trustRoots records) t)
      (order.entries (replayRecords records (trustRoots records) t).states) membership := by
  obtain ⟨membership', heq, hprojects⟩ := exists_effectiveMembershipAt hvalid haddresses order t
  rwa [← Except.ok.inj (heq.symm.trans h)]

/-- With the same records replayed, the time at which fewer of them have run out has more members. -/
lemma shrinks_of_expired (hordered : orderedRecords records t' = orderedRecords records t)
    (hexpired : ∀ r ∈ records, r.isExpiredAt t = true → r.isExpiredAt t' = true)
    {order' : KeyOrder String}
    (hearlier : effectiveMembershipAt env order records name t = .ok earlier)
    (hlater : effectiveMembershipAt env order' records name t' = .ok later) :
    Shrinks later earlier := by
  have hlater := projects_of_effectiveMembershipAt hvalid haddresses hlater
  have hearlier := projects_of_effectiveMembershipAt hvalid haddresses hearlier
  have hmem : ∀ {m : String} {state : LedgerMemberState SignedMembershipRecord},
      (replayRecords records (trustRoots records) t').states.get? m = some state →
      state.recordIndex ∈ records := by
    intro m state hstate
    have hsound := (verifiedEvaluation_replayRecords (verify_of_valid hvalid) (trustRoots records)
      t').states m state hstate
    exact (mem_orderedRecords.mp (accepted_subset_ordered _ _ hsound.accepted)).1
  -- the admissions are those of the records replayed
  have hadmissions : ∀ state, effectiveMemberOf env id (replayRecords records (trustRoots records) t')
      state = effectiveMemberOf env id (replayRecords records (trustRoots records) t) state := by
    intro state
    rw [replayRecords, hordered]
    rfl
  refine ⟨fun peer member hmember => ?_, ?_, ?_⟩
  · obtain ⟨⟨m, state'⟩, hentry, hactive, hmember, hpeer⟩ :=
      (hlater.members peer member).mp hmember
    have hstate' := order'.mem_entries.mp hentry
    obtain ⟨state, hstate, hrecord, hstay⟩ := exists_state_of_ordered hordered hstate'
    obtain ⟨hvalidLater, hstay⟩ := hstay hactive
    refine (hearlier.members peer member).mpr
      ⟨(m, state), order.mem_entries.mpr hstate, hstay ?_, ?_, hpeer⟩
    · by_contra h
      rw [hexpired _ (hmem hstate') (by simpa using h)] at hvalidLater
      cases hvalidLater
    · rw [hadmissions] at hmember
      unfold effectiveMemberOf at hmember ⊢
      rwa [hrecord]
  · ext peer
    rw [hlater.governed, hearlier.governed]
    constructor
    · rintro ⟨⟨m, state'⟩, hentry, hpeer⟩
      obtain ⟨state, hstate, hrecord, -⟩ :=
        exists_state_of_ordered hordered (order'.mem_entries.mp hentry)
      exact ⟨(m, state), order.mem_entries.mpr hstate, by rwa [hrecord]⟩
    · rintro ⟨⟨m, state⟩, hentry, hpeer⟩
      obtain ⟨state', hstate', hrecord, -⟩ :=
        exists_state_of_ordered hordered.symm (order.mem_entries.mp hentry)
      exact ⟨(m, state'), order'.mem_entries.mpr hstate', by rwa [hrecord]⟩
  · rw [hlater.unsealed, hearlier.unsealed]

/-- **Between issue times** a membership can only lose members. -/
theorem shrinks_of_noIssue (hle : t ≤ t') (hissue : NoIssue records t t') {order' : KeyOrder String}
    (hearlier : effectiveMembershipAt env order records name t = .ok earlier)
    (hlater : effectiveMembershipAt env order' records name t' = .ok later) :
    Shrinks later earlier :=
  shrinks_of_expired hvalid haddresses (orderedRecords_of_noIssue hle hissue)
    (fun _ _ h => isExpiredAt_mono hle h) hearlier hlater

/-- **Between issue and expiry times** the effective membership stays as it is. -/
theorem effectiveMembershipAt_stable (hle : t ≤ t') (hissue : NoIssue records t t')
    (hexpiry : ∀ r ∈ records, r.isExpiredAt t' = true → r.isExpiredAt t = true)
    (order order' : KeyOrder String) :
    effectiveMembershipAt env order' records name t' = effectiveMembershipAt env order records name t := by
  obtain ⟨earlier, hearlier, -⟩ := exists_effectiveMembershipAt hvalid haddresses order t
  obtain ⟨later, hlater, -⟩ := exists_effectiveMembershipAt hvalid haddresses order' t'
  have hordered := orderedRecords_of_noIssue hle hissue
  rw [hearlier, hlater, (shrinks_of_noIssue hvalid haddresses hle hissue hearlier hlater).antisymm
    (shrinks_of_expired hvalid haddresses hordered.symm hexpiry hlater hearlier)]

end Valid

/-! ## Members without authority -/

section SignedOut

variable {T K : Type} [LinearOrder T] {env : Platform T K} {name : String}

/-- The signed state of a peer is revoked, expired or inactive. -/
def SignedOut (env : Platform T K) (records : List SignedMembershipRecord) (name : String)
    (peer : Bytes32) (now : ℕ) : Prop :=
  ∃ order audit, membershipAuditAt env order records name now = .ok audit ∧
    ∃ member ∈ audit, member.peer = peer ∧ member.state ≠ .active

/-- A peer that is signed out has a state that is not active. -/
lemma exists_state_of_signedOut {peer : Bytes32} {now : ℕ}
    (hvalid : validateMembershipRecordHistory env records name = .ok ())
    (h : SignedOut env records name peer now) :
    ∃ m state, (replayRecords records (trustRoots records) now).states.get? m = some state ∧
      overlayPeer env state.recordIndex.payload.memberPeer = some peer ∧ state.active = false := by
  obtain ⟨order, audit, haudit, member, hmember, rfl, hstate⟩ := h
  rw [membershipAuditAt_eq hvalid, membershipAuditFromEvaluation, bind_eq_ok] at haudit
  obtain ⟨members, hmembers, hsorted⟩ := haudit
  obtain rfl := Except.ok.inj hsorted
  obtain ⟨⟨m, state⟩, hentry, hmember⟩ :=
    exists_of_mem_mapM hmembers ((List.mem_insertionSort _).mp hmember)
  refine ⟨m, state, order.mem_entries.mp hentry, ?_⟩
  simp only [auditMember, MembershipAuditMember.tryFromPayloads, bind_eq_ok] at hmember
  obtain ⟨transportPeer, hparse, _, -, _, -, _, -, hmember⟩ := hmember
  cases hmember
  refine ⟨?_, ?_⟩
  · exact congrArg (Option.map (fromLibp2p env)) (parsePeer_eq_ok.mp hparse)
  · by_contra hactive
    exact hstate (by simp [auditState, hactive])

/-- The ledger knows a peer that is signed out, and it is no member. -/
lemma governed_of_signedOut {peer : Bytes32} {now : ℕ} {membership : EffectiveMembership T}
    (hvalid : validateMembershipRecordHistory env records name = .ok ())
    (haddresses : DistinctAddresses env records) (h : SignedOut env records name peer now)
    (hmembership : effectiveMembershipAt env order records name now = .ok membership) :
    peer ∈ membership.governedPeers ∧ membership.members.get? peer = none := by
  obtain ⟨m, state, hstate, hpeer, hinactive⟩ := exists_state_of_signedOut hvalid h
  have hprojects := projects_of_effectiveMembershipAt hvalid haddresses hmembership
  refine ⟨(hprojects.governed peer).mpr ⟨(m, state), order.mem_entries.mpr hstate, hpeer⟩, ?_⟩
  rw [Option.eq_none_iff_forall_ne_some]
  intro member hmember
  obtain ⟨⟨m', state'⟩, hentry, hactive, heffective, rfl⟩ :=
    (hprojects.members peer member).mp hmember
  have hstate' := order.mem_entries.mp hentry
  -- states with one address belong to one member
  have hsound := (verifiedEvaluation_replayRecords (verify_of_valid hvalid) (trustRoots records)
    now).states
  have hsame : m = m' := by
    refine distinctStates_replayRecords haddresses (trustRoots records) now m m' state state' hstate
      hstate' ?_
    rw [← (hsound m state hstate).member, ← (hsound m' state' hstate').member]
    exact hpeer.trans (effectiveMemberOf_peer heffective).symm
  subst hsame
  rw [Option.some.inj (hstate.symm.trans hstate')] at hinactive
  exact absurd hactive (by simp [hinactive])

/-- Some record is about a peer that is signed out. -/
lemma exists_record_of_signedOut {peer : Bytes32} {now : ℕ}
    (hvalid : validateMembershipRecordHistory env records name = .ok ())
    (h : SignedOut env records name peer now) :
    ∃ r ∈ records, overlayPeer env r.payload.memberPeer = some peer := by
  obtain ⟨m, state, hstate, hpeer, -⟩ := exists_state_of_signedOut hvalid h
  have hsound := (verifiedEvaluation_replayRecords (verify_of_valid hvalid) (trustRoots records)
    now).states m state hstate
  exact ⟨_, (mem_orderedRecords.mp (accepted_subset_ordered _ _ hsound.accepted)).1, hpeer⟩

end SignedOut

/-! ## Merging what is there -/

/-- Merging records that are all retained changes nothing. -/
lemma mergeMembershipRecordsAt_retained
    (hvalid : validateMembershipRecordHistory env records name = .ok ())
    {incoming : List SignedMembershipRecord} (hincoming : incoming ⊆ records) (now : ℕ)
    (trustedIssuers : Finset String) :
    mergeMembershipRecordsAt env records incoming name now trustedIssuers maxMembershipRecords
      = .ok (records, ⟨0, incoming.length⟩) := by
  obtain ⟨hlen, hrecords, hlatest⟩ := validateHistory_eq_ok.mp hvalid
  exact merge_of_subset hlen hrecords hlatest hincoming now trustedIssuers

end P2pVpn.Membership
