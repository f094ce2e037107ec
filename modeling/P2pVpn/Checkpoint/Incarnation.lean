/-
# Incarnations are not used again

No trace of a removed member is kept, so that a member that comes back must be told apart by its
incarnation.  An admission gets an incarnation that is bound to the boundary at which it is made, and
the revision of the boundary grows with every mutation: along a branch, a member that was away comes
back under an incarnation it never had (`incarnations_not_reused`), and what was signed for an earlier
incarnation is worth nothing.
-/
import P2pVpn.Checkpoint.Effective
import P2pVpn.Checkpoint.Sample

namespace P2pVpn.Checkpoint

open Lib P2pVpn.Membership CooperativeMembershipState

/-- What happens on a branch: mutations are applied, and hostname claims are merged. -/
inductive BranchEvent where
  | applyMutationAt (mutation : SignedMembershipMutation) (now : ℕ)
  | mergeHostnameClaims (claims : List SignedHostnameClaim)

variable {T K : Type} [DecidableEq T] (env : CheckpointPlatform T K)

def BranchEvent.perform (state : CooperativeMembershipState) :
    BranchEvent → Except CheckpointError CooperativeMembershipState
  | .applyMutationAt mutation now => state.applyMutationAt env mutation now
  | .mergeHostnameClaims claims => state.mergeHostnameClaims env claims

/-- One event that succeeds. -/
def BranchStep (state next : CooperativeMembershipState) : Prop :=
  ∃ event : BranchEvent, event.perform env state = .ok next

/-- An incarnation that was given at some admission, when the revision had reached `low` and before it
reached `high`. -/
def AdmittedBetween (low high : ℕ) (incarnation : Bytes32) : Prop :=
  ∃ anchor base subject, incarnation = admissionIncarnation env anchor base subject ∧
    base.authorityRevision ≤ maxMembershipRecordInteger ∧
    low ≤ base.authorityRevision ∧ base.authorityRevision < high

/-- Admissions at different revisions get different incarnations, as a digest that tells its inputs
apart gives them. -/
def AdmissionsApart : Prop :=
  ∀ anchor base subject anchor' base' subject',
    base.authorityRevision ≤ maxMembershipRecordInteger →
    base'.authorityRevision ≤ maxMembershipRecordInteger →
    admissionIncarnation env anchor base subject = admissionIncarnation env anchor' base' subject' →
    base.authorityRevision = base'.authorityRevision

variable {env} {state next : CooperativeMembershipState}

/-! ## One mutation -/

/-- What a mutation does to the roster, and what it was checked for. -/
lemma applyMutationAt_content {mutation : SignedMembershipMutation} {now : ℕ}
    (h : state.applyMutationAt env mutation now = .ok next) :
    state.current.payload.validate env = .ok () ∧
      next.current.payload.validate env = .ok () ∧
      next.current.payload.members = (state.changedContent now mutation.payload.change).1 ∧
      next.current.payload.authorityRevision = state.current.payload.authorityRevision + 1 ∧
      mutation.payload.base.authorityRevision = state.current.payload.authorityRevision ∧
      state.validateChange env mutation.payload.base now mutation.payload.change = .ok () := by
  obtain ⟨next', -, hbase, hverified, -, hrevision, rfl⟩ := applyMutationAt_eq_ok h
  obtain ⟨-, hnext, -⟩ := NetworkCapability.verify_eq_ok.mp hverified
  simp only [CooperativeMembershipState.applyMutationAt, bind_eq_ok] at h
  obtain ⟨_, _, _, hmutation, _, _, _, _, _, _, changed, hchanged, hresult⟩ := h
  obtain rfl : changed = next' := congrArg CooperativeMembershipState.current (Except.ok.inj hresult)
  have hmembers : changed.payload.members = (state.changedContent now mutation.payload.change).1 := by
    simp only [changedSnapshot, bind_eq_ok] at hchanged
    obtain ⟨_, _, hchanged⟩ := hchanged
    split at hchanged
    · cases hchanged
    · obtain ⟨_, _, hauthenticated⟩ := bind_eq_ok.mp hchanged
      rw [(NetworkCapability.authenticate_eq_ok hauthenticated).1]
  simp only [validateMutation, bind_eq_ok, refuseIf_eq_ok, CheckpointSnapshot.boundary_eq_ok] at hmutation
  obtain ⟨_, _, _, _, _, ⟨hvalid, -⟩, _, _, _, _, hchange⟩ := hmutation
  refine ⟨hvalid, hnext, hmembers, hrevision, hbase, ?_⟩
  split at hchange
  · cases hchange
  · obtain ⟨_, _, hchange⟩ := bind_eq_ok.mp hchange
    obtain ⟨⟨⟩, hvalidated, -⟩ := bind_eq_ok.mp hchange
    exact hvalidated

variable {member : CheckpointMember}

/-- The incarnation that an admission was checked for. -/
lemma incarnation_of_validateChange {base : CheckpointBoundary} {now : ℕ}
    (h : state.validateChange env base now (.upsertMember member) = .ok ()) :
    member.incarnation = state.expectedIncarnation env base member.subject := by
  simp only [validateChange, bind_eq_ok, refuseIf_eq_ok, not_not, ne_eq] at h
  obtain ⟨_, _, _, _, hincarnation⟩ := h
  exact hincarnation

lemma mem_upsert {entry : CheckpointMember} {members : List CheckpointMember}
    (hsorted : Sorted CheckpointMember.peerId members)
    (h : entry ∈ upsert CheckpointMember.peerId (fun _ new => new) members member) :
    entry = member ∨ entry ∈ members := by
  have hcases := @upsert_cases _ _ _ CheckpointMember.peerId members (fun _ new => new) member hsorted
  rcases hcases with ⟨before, old, after, rfl, -, hupsert⟩ | ⟨before, after, rfl, -, -, hupsert⟩
  · rw [hupsert] at h
    simp only [List.mem_append, List.mem_cons] at h ⊢
    tauto
  · rw [hupsert] at h
    simp only [List.mem_append, List.mem_cons] at h ⊢
    tauto

lemma mem_upsert_self {members : List CheckpointMember}
    (hsorted : Sorted CheckpointMember.peerId members) :
    member ∈ upsert CheckpointMember.peerId (fun _ new => new) members member := by
  have hcases := @upsert_cases _ _ _ CheckpointMember.peerId members (fun _ new => new) member hsorted
  rcases hcases with ⟨before, old, after, -, -, hupsert⟩ | ⟨before, after, -, -, -, hupsert⟩
  · rw [hupsert]
    exact List.mem_append_right _ List.mem_cons_self
  · rw [hupsert]
    exact List.mem_append_right _ List.mem_cons_self

lemma portable_revision {snapshot : CheckpointSnapshot} (h : snapshot.validate env = .ok ()) :
    snapshot.authorityRevision ≤ maxMembershipRecordInteger := by
  simp only [CheckpointSnapshot.validate, bind_eq_ok, portable, refuseIf_eq_ok, not_lt] at h
  obtain ⟨_, _, _, _, _, hportable, -⟩ := h
  exact hportable

/-- An event leaves the snapshot as it is, or is a mutation. -/
lemma mutated_of_step (h : BranchStep env state next) : next.current = state.current ∨
    ∃ mutation now, state.applyMutationAt env mutation now = .ok next := by
  obtain ⟨event, hevent⟩ := h
  cases event with
  | mergeHostnameClaims claims =>
    simp only [BranchEvent.perform, CooperativeMembershipState.mergeHostnameClaims, bind_eq_ok] at hevent
    obtain ⟨_, _, _, _, hresult⟩ := hevent
    exact Or.inl (congrArg CooperativeMembershipState.current (Except.ok.inj hresult)).symm
  | applyMutationAt mutation now => exact Or.inr ⟨mutation, now, hevent⟩

/-- A member after an event was there before it, under the same incarnation, or it was not there and
is admitted at the boundary before the event. -/
lemma member_of_step (h : BranchStep env state next)
    (hmember : member ∈ next.current.payload.members) :
    (∃ old ∈ state.current.payload.members, old.peerId = member.peerId ∧
        old.incarnation = member.incarnation) ∨
      (∀ old ∈ state.current.payload.members, old.peerId ≠ member.peerId) ∧
        AdmittedBetween env state.current.payload.authorityRevision
          next.current.payload.authorityRevision member.incarnation := by
  rcases mutated_of_step h with hsame | ⟨mutation, now, happly⟩
  · rw [hsame] at hmember
    exact Or.inl ⟨member, hmember, rfl, rfl⟩
  · obtain ⟨hvalid, -, hmembers, hrevision, hbase, hchange⟩ := applyMutationAt_content happly
    obtain ⟨-, hsorted⟩ := CheckpointSnapshot.validate_members hvalid
    rw [hmembers] at hmember
    cases hkind : mutation.payload.change with
    | setPolicy policy =>
      rw [hkind] at hmember
      exact Or.inl ⟨member, hmember, rfl, rfl⟩
    | removeMember peer =>
      rw [hkind] at hmember
      exact Or.inl ⟨member, List.mem_of_mem_filter hmember, rfl, rfl⟩
    | pruneExpired =>
      rw [hkind] at hmember
      exact Or.inl ⟨member, List.mem_of_mem_filter hmember, rfl, rfl⟩
    | upsertMember upserted =>
      rw [hkind] at hmember hchange
      rcases mem_upsert hsorted hmember with rfl | hold
      · have hincarnation := incarnation_of_validateChange hchange
        rw [expectedIncarnation] at hincarnation
        cases hcurrent : state.current.payload.member member.subject.peerId with
        | some current =>
          rw [hcurrent] at hincarnation
          obtain ⟨hmem, hpeer⟩ := (lookup_eq_some_iff hsorted).mp hcurrent
          exact Or.inl ⟨current, hmem, hpeer, hincarnation.symm⟩
        | none =>
          rw [hcurrent] at hincarnation
          refine Or.inr ⟨(lookup_eq_none_iff hsorted).mp hcurrent, _, _, _, hincarnation, ?_, ?_, ?_⟩
          · exact hbase ▸ portable_revision hvalid
          · exact hbase.ge
          · rw [hbase, hrevision]
            exact Nat.lt_succ_self _
      · exact Or.inl ⟨member, hold, rfl, rfl⟩

lemma revision_le_of_step (h : BranchStep env state next) :
    state.current.payload.authorityRevision ≤ next.current.payload.authorityRevision := by
  rcases mutated_of_step h with hsame | ⟨mutation, now, happly⟩
  · rw [hsame]
  · obtain ⟨-, -, -, hrevision, -, -⟩ := applyMutationAt_content happly
    exact hrevision ▸ Nat.le_succ _

/-! ## Branches -/

/-- A run of events that succeed. -/
abbrev Branch (env : CheckpointPlatform T K) :
    CooperativeMembershipState → CooperativeMembershipState → Prop :=
  Relation.ReflTransGen (BranchStep env)

omit [DecidableEq T] in
lemma AdmittedBetween.mono {low low' high high' : ℕ} {incarnation : Bytes32}
    (h : AdmittedBetween env low high incarnation) (hlow : low' ≤ low) (hhigh : high ≤ high') :
    AdmittedBetween env low' high' incarnation := by
  obtain ⟨anchor, base, subject, hincarnation, hportable, hge, hlt⟩ := h
  exact ⟨anchor, base, subject, hincarnation, hportable, hlow.trans hge, hlt.trans_le hhigh⟩

lemma revision_le_of_branch (h : Branch env state next) :
    state.current.payload.authorityRevision ≤ next.current.payload.authorityRevision := by
  induction h with
  | refl => exact le_rfl
  | tail _ hstep ih => exact ih.trans (revision_le_of_step hstep)

/-- A branch leaves the snapshot as it is, or goes from a valid snapshot to a valid one. -/
lemma valid_of_branch (h : Branch env state next) :
    next.current = state.current ∨ state.current.payload.validate env = .ok () ∧
      next.current.payload.validate env = .ok () := by
  induction h with
  | refl => exact Or.inl rfl
  | tail _ hstep ih =>
    rcases mutated_of_step hstep with hsame | ⟨mutation, now, happly⟩
    · rw [hsame]
      exact ih
    · obtain ⟨hvalid, hvalid', -⟩ := applyMutationAt_content happly
      rcases ih with hsame | ⟨hfirst, -⟩
      · rw [hsame] at hvalid
        exact Or.inr ⟨hvalid, hvalid'⟩
      · exact Or.inr ⟨hfirst, hvalid'⟩

/-- Where the incarnation of a member comes from: the start of the branch, or an admission on it. -/
lemma origin_of_member (h : Branch env state next) (hmember : member ∈ next.current.payload.members) :
    (∃ first ∈ state.current.payload.members, first.incarnation = member.incarnation) ∨
      AdmittedBetween env 0 next.current.payload.authorityRevision member.incarnation := by
  induction h generalizing member with
  | refl => exact Or.inl ⟨member, hmember, rfl⟩
  | tail _ hstep ih =>
    rcases member_of_step hstep hmember with ⟨old, hold, -, hsame⟩ | ⟨-, hadmitted⟩
    · rw [← hsame]
      refine (ih hold).imp_right fun hadmitted => ?_
      exact hadmitted.mono le_rfl (revision_le_of_step hstep)
    · exact Or.inr (hadmitted.mono (Nat.zero_le _) le_rfl)

/-- A peer that is not there has been admitted since when it is there again. -/
lemma admitted_of_absent {peer : String}
    (habsent : ∀ member ∈ state.current.payload.members, member.peerId ≠ peer)
    (h : Branch env state next) (hmember : member ∈ next.current.payload.members)
    (hpeer : member.peerId = peer) :
    AdmittedBetween env state.current.payload.authorityRevision
      next.current.payload.authorityRevision member.incarnation := by
  induction h generalizing member with
  | refl => exact absurd hpeer (habsent member hmember)
  | tail hbranch hstep ih =>
    rcases member_of_step hstep hmember with ⟨old, hold, holdPeer, hsame⟩ | ⟨-, hadmitted⟩
    · rw [← hsame]
      exact (ih hold (holdPeer.trans hpeer)).mono le_rfl (revision_le_of_step hstep)
    · exact hadmitted.mono (revision_le_of_branch hbranch) le_rfl

/-! ## Names -/

omit [DecidableEq T] in
/-- A name in the effective membership comes from a claim for a member under its incarnation. -/
lemma claim_of_hostname {now : ℕ} {membership : EffectiveMembership T}
    (h : CooperativeMembershipState.effectiveMembershipAt env state now = .ok membership)
    {peer : Bytes32}
    {effective : EffectiveMember T} (hget : membership.members.get? peer = some effective)
    {hostname : String} (hname : hostname ∈ effective.hostnames) :
    ∃ claim ∈ state.names, claim.payload.hostname = hostname ∧
      ∃ member ∈ state.current.payload.members,
        parsePeer env.toPlatform member.peerId = .ok effective.transportPeer ∧
        claim.payload.subject = member.subject ∧ claim.payload.incarnation = member.incarnation := by
  unfold CooperativeMembershipState.effectiveMembershipAt at h
  split at h
  · obtain rfl := Except.ok.inj h
    cases hget
  · obtain ⟨members, hmembers, hresult⟩ := bind_eq_ok.mp h
    obtain rfl := Except.ok.inj hresult
    obtain ⟨member, hmember, hparse, hhostnames⟩ : ∃ member ∈ state.current.payload.members,
        parsePeer env.toPlatform member.peerId = .ok effective.transportPeer ∧
        effective.hostnames = state.memberHostnames member := by
      refine foldlM_invariant (P := fun members : HashMap Bytes32 (EffectiveMember T) =>
        members.get? peer = some effective → _) ?_ (by simp) hmembers hget
      intro member hmember before after hbefore hstep hentry
      obtain ⟨transportPeer, hparse, hafter⟩ := bind_eq_ok.mp hstep
      obtain rfl := Except.ok.inj hafter
      rw [HashMap.get?_insert] at hentry
      split_ifs at hentry
      · obtain rfl := Option.some.inj hentry
        exact ⟨member, List.mem_of_mem_filter hmember, mapError_eq_ok_iff.mp hparse, rfl⟩
      · exact hbefore hentry
    rw [hhostnames, memberHostnames, List.mem_map] at hname
    obtain ⟨claim, hclaim, rfl⟩ := hname
    obtain ⟨hclaim, hmatches⟩ := List.mem_filter.mp hclaim
    obtain ⟨hsubject, hincarnation⟩ := of_decide_eq_true hmatches
    exact ⟨claim, hclaim, rfl, member, hmember, hparse, hsubject, hincarnation⟩

omit [DecidableEq T] in
/-- An incarnation that was given since a revision is not one that was given before it. -/
lemma AdmittedBetween.ne (hapart : AdmissionsApart env) {low middle high : ℕ}
    {old new : Bytes32} (hold : AdmittedBetween env low middle old)
    (hnew : AdmittedBetween env middle high new) : new ≠ old := by
  obtain ⟨anchor, base, subject, rfl, hportable, -, hlt⟩ := hold
  obtain ⟨anchor', base', subject', rfl, hportable', hge, -⟩ := hnew
  intro heq
  have := hapart anchor' base' subject' anchor base subject hportable' hportable heq
  omega

/-- **Incarnations are not used again.**  Along every branch whose first incarnations were not given at
an admission: an admission of a member that is there keeps its incarnation; and a member that is there
again after it was not has an incarnation that differs from each that it had before.  A hostname claim
that verified before then verifies no longer, and every name of the effective membership comes from
another claim, which is for the member of that name and its incarnation. -/
theorem incarnations_not_reused (hapart : AdmissionsApart env) {start : CooperativeMembershipState}
    (hstart : ∀ member ∈ start.current.payload.members, ∀ anchor base subject,
      base.authorityRevision ≤ maxMembershipRecordInteger →
      member.incarnation ≠ admissionIncarnation env anchor base subject) :
    (∀ state mutation now next member old, Branch env start state →
      state.applyMutationAt env mutation now = .ok next →
      mutation.payload.change = .upsertMember member →
      state.current.payload.member member.peerId = some old →
      next.current.payload.member member.peerId = some member ∧
        member.incarnation = old.incarnation) ∧
    ∀ before gap after, Branch env start before → Branch env before gap → Branch env gap after →
      ∀ peer old new, before.current.payload.member peer = some old →
        gap.current.payload.member peer = none → after.current.payload.member peer = some new →
        new.incarnation ≠ old.incarnation ∧
        ∀ claim : SignedHostnameClaim, claim.peerId = peer →
          claim.verify env before.current.payload = .ok () →
          claim.verify env after.current.payload ≠ .ok () ∧
          ∀ now membership key effective hostname,
            CooperativeMembershipState.effectiveMembershipAt env after now = .ok membership →
            membership.members.get? key = some effective → hostname ∈ effective.hostnames →
            ∃ other ∈ after.names, other.payload.hostname = hostname ∧ other ≠ claim ∧
              ∃ member ∈ after.current.payload.members,
                parsePeer env.toPlatform member.peerId = .ok effective.transportPeer ∧
                other.payload.subject = member.subject ∧
                other.payload.incarnation = member.incarnation := by
  refine ⟨?_, ?_⟩
  · intro state mutation now next member old _ happly hupsert hold
    obtain ⟨hvalid, hvalid', hmembers, -, -, hchange⟩ := applyMutationAt_content happly
    obtain ⟨-, hsorted⟩ := CheckpointSnapshot.validate_members hvalid
    obtain ⟨-, hsorted'⟩ := CheckpointSnapshot.validate_members hvalid'
    rw [hupsert] at hmembers hchange
    refine ⟨(lookup_eq_some_iff hsorted').mpr ⟨?_, rfl⟩, ?_⟩
    · rw [hmembers]
      exact mem_upsert_self hsorted
    · rw [incarnation_of_validateChange hchange, expectedIncarnation]
      have hcurrent : state.current.payload.member member.subject.peerId = some old := hold
      rw [hcurrent]
  · intro before gap after hbefore hgap hafter peer old new hold hnone hnew
    -- the peer came and went, so these snapshots were checked
    have hvalid : before.current.payload.validate env = .ok () ∧
        gap.current.payload.validate env = .ok () := by
      rcases valid_of_branch hgap with hsame | hvalid
      · rw [hsame, hold] at hnone
        cases hnone
      · exact hvalid
    have hvalid' : after.current.payload.validate env = .ok () := by
      rcases valid_of_branch hafter with hsame | ⟨-, hvalid⟩
      · rw [hsame, hnone] at hnew
        cases hnew
      · exact hvalid
    obtain ⟨-, hsorted⟩ := CheckpointSnapshot.validate_members hvalid.1
    obtain ⟨-, hsortedGap⟩ := CheckpointSnapshot.validate_members hvalid.2
    obtain ⟨-, hsorted'⟩ := CheckpointSnapshot.validate_members hvalid'
    obtain ⟨hmem, -⟩ := (lookup_eq_some_iff hsorted).mp hold
    have habsent := (lookup_eq_none_iff hsortedGap).mp hnone
    have hfresh : ∀ member ∈ after.current.payload.members, member.peerId = peer →
        member.incarnation ≠ old.incarnation := by
      intro member hmember hpeer
      have hadmitted := admitted_of_absent habsent hafter hmember hpeer
      rcases origin_of_member hbefore hmem with ⟨first, hfirst, hsame⟩ | hadmitted'
      · obtain ⟨anchor, base, subject, hincarnation, hportable, -⟩ := hadmitted
        rw [hincarnation, ← hsame]
        exact (hstart first hfirst anchor base subject hportable).symm
      · exact AdmittedBetween.ne hapart (hadmitted'.mono le_rfl (revision_le_of_branch hgap)) hadmitted
    obtain ⟨hmem', hpeer'⟩ := (lookup_eq_some_iff hsorted').mp hnew
    refine ⟨hfresh new hmem' hpeer', fun claim hclaim hverify => ?_⟩
    -- the claim is for the old incarnation
    obtain ⟨-, hadmits⟩ := SignedHostnameClaim.verify_eq_ok.mp hverify
    obtain ⟨holder, hholder, hsubject, hincarnation⟩ := admits_iff.mp hadmits
    obtain rfl : holder = old := by
      have hlookup : before.current.payload.member claim.peerId = some holder := hholder
      rw [hclaim, hold] at hlookup
      exact (Option.some.inj hlookup).symm
    have hforeign : ∀ member ∈ after.current.payload.members, claim.payload.subject = member.subject →
        claim.payload.incarnation ≠ member.incarnation := by
      intro member hmember hsame heq
      refine hfresh member hmember ?_ (heq.symm.trans hincarnation.symm)
      rw [CheckpointMember.peerId, ← hsame]
      exact hclaim
    refine ⟨fun hagain => ?_, fun now membership key effective hostname hmembership hget hname => ?_⟩
    · obtain ⟨-, hadmits'⟩ := SignedHostnameClaim.verify_eq_ok.mp hagain
      obtain ⟨member, hmember, hsubject', hincarnation'⟩ := admits_iff.mp hadmits'
      obtain ⟨hin, -⟩ := (lookup_eq_some_iff hsorted').mp hmember
      exact hforeign member hin hsubject'.symm hincarnation'.symm
    · obtain ⟨other, hother, hhostname, member, hmember, hparse, hsubject', hincarnation'⟩ :=
        claim_of_hostname hmembership hget hname
      refine ⟨other, hother, hhostname, ?_, member, hmember, hparse, hsubject', hincarnation'⟩
      rintro rfl
      exact hforeign member hmember hsubject' hincarnation'

/-- A platform that encodes of an admission its revision, in unary, and whose digests of admissions tell
these apart. -/
def unaryEnv : CheckpointPlatform SamplePeer SamplePeer where
  toPlatform :=
    { sampleEnv.toPlatform with
      sha256 := fun bytes =>
        if admissionDomain.isPrefixOf bytes then
          Fin.ofNat (2 ^ 256) (2 ^ 64 + (bytes.length - admissionDomain.length))
        else tailNumber bytes }
  base64Encode := sampleEnv.base64Encode
  encodeProtobuf := sampleEnv.encodeProtobuf
  hmacSha256 := sampleEnv.hmacSha256
  snapshotJson := sampleEnv.snapshotJson
  mutationPayloadJson := sampleEnv.mutationPayloadJson
  hostnamePayloadJson := sampleEnv.hostnamePayloadJson
  offerPayloadJson := sampleEnv.offerPayloadJson
  admissionJson admission := List.replicate admission.2.1.authorityRevision 49
  mutationJsonLen := sampleEnv.mutationJsonLen
  offerJsonLen := sampleEnv.offerJsonLen
  maxInstant := sampleEnv.maxInstant

lemma admissionIncarnation_unaryEnv (anchor : NetworkAnchor) (base : CheckpointBoundary)
    (subject : SnapshotPublisher) :
    admissionIncarnation unaryEnv anchor base subject
      = Fin.ofNat (2 ^ 256) (2 ^ 64 + base.authorityRevision) := by
  simp [admissionIncarnation, digest, unaryEnv]

lemma admissionsApart_unaryEnv : AdmissionsApart unaryEnv := by
  intro anchor base subject anchor' base' subject' hportable hportable' heq
  rw [admissionIncarnation_unaryEnv, admissionIncarnation_unaryEnv] at heq
  have hval := congrArg Fin.val heq
  simp only [Fin.val_ofNat, maxMembershipRecordInteger] at hval hportable hportable'
  omega

/-- `A` admits `C` again. -/
def sampleReadmission (removed : CooperativeMembershipState) : SignedMembershipMutation where
  payload :=
    { version := 1
      anchor := sampleAnchor
      base := ⟨1, removed.current.payload.digest unaryEnv⟩
      issuer := SamplePeer.publisher .A
      change := .upsertMember { sampleMember .C with incarnation := Fin.ofNat (2 ^ 256) (2 ^ 64 + 1) } }
  signature := "A3"

theorem sample_readmission :
    ∃ removed returned old new,
      sampleState.applyMutationAt unaryEnv sampleMutation 100 = .ok removed ∧
      removed.applyMutationAt unaryEnv (sampleReadmission removed) 100 = .ok returned ∧
      sampleState.current.payload.member (SamplePeer.text .C) = some old ∧
      removed.current.payload.member (SamplePeer.text .C) = none ∧
      returned.current.payload.member (SamplePeer.text .C) = some new ∧
      new.incarnation ≠ old.incarnation := by
  obtain ⟨removed, hremoved, hchecks⟩ := exists_ok_of_any
    (p := fun removed => (removed.current.payload.member (SamplePeer.text .C)).isNone &&
      (removed.applyMutationAt unaryEnv (sampleReadmission removed) 100).toOption.any fun returned =>
        (returned.current.payload.member (SamplePeer.text .C)).isSome)
    (x := sampleState.applyMutationAt unaryEnv sampleMutation 100) (by decide +kernel)
  obtain ⟨hnone, hreturns⟩ := Bool.and_eq_true_iff.mp hchecks
  obtain ⟨returned, hreturned, hsome⟩ := exists_ok_of_any hreturns
  obtain ⟨new, hnew⟩ := Option.isSome_iff_exists.mp hsome
  have hold : sampleState.current.payload.member (SamplePeer.text .C) = some (sampleMember .C) := by
    decide +kernel
  have hstart : ∀ member ∈ sampleState.current.payload.members, ∀ anchor base subject,
      base.authorityRevision ≤ maxMembershipRecordInteger →
      member.incarnation ≠ admissionIncarnation unaryEnv anchor base subject := by
    intro member hmember anchor base subject hportable heq
    have hsmall : ∀ member ∈ sampleState.current.payload.members, member.incarnation.val < 256 := by
      decide +kernel
    have hval := hsmall member hmember
    rw [heq, admissionIncarnation_unaryEnv, Fin.val_ofNat] at hval
    simp only [maxMembershipRecordInteger] at hportable
    omega
  have hnone := Option.isNone_iff_eq_none.mp hnone
  obtain ⟨hfresh, -⟩ := (incarnations_not_reused admissionsApart_unaryEnv hstart).2 sampleState removed
    returned .refl (.single ⟨.applyMutationAt sampleMutation 100, hremoved⟩)
    (.single ⟨.applyMutationAt (sampleReadmission removed) 100, hreturned⟩) _ _ new hold hnone hnew
  exact ⟨removed, returned, _, new, hremoved, hreturned, hold, hnone, hnew, hfresh⟩

end P2pVpn.Checkpoint
