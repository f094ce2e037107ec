/-
# Projections refine checkpoints

The forwarder does not keep the checkpoint itself but the members that it has at time zero, and the
times at which they run out.  At any time, the members that have not run out by then are those of
the checkpoint (`membershipAt_eq_effectiveMembershipAt`).
-/
import P2pVpn.Checkpoint.Invariant
import P2pVpn.Forward.Window

namespace P2pVpn.Forward

open Lib Net P2pVpn.Membership P2pVpn.Checkpoint

variable {T K : Type} {env : SigningPlatform T K}

/-- The overlay address of a member of the roster. -/
def memberOverlay (env : SigningPlatform T K) (member : CheckpointMember) : Option PeerId :=
  overlayPeer env.toPlatform member.peerId

/-- The members of a roster and the local peer have different overlay addresses: their identifiers
are in canonical form and SHA-256 has no collision among them. -/
def DistinctRoster (env : SigningPlatform T K) (state : CooperativeMembershipState) : Prop :=
  ∀ a ∈ state.localPeer :: state.current.payload.members.map CheckpointMember.peerId,
    ∀ b ∈ state.localPeer :: state.current.payload.members.map CheckpointMember.peerId,
      overlayPeer env.toPlatform a = overlayPeer env.toPlatform b → a = b

/-! ## Valid rosters -/

section Valid

variable [DecidableEq T] {snapshot : CheckpointSnapshot} {member : CheckpointMember}

/-- What a member of a valid roster is like. -/
structure MemberValid (env : SigningPlatform T K) (member : CheckpointMember) : Prop where
  parses : ∃ transportPeer, env.parsePeerId member.peerId = some transportPeer
  overlay : .overlayMember ∈ member.roles
  authority : member.routeGrants ≠ [] → .routeAuthority ∈ member.roles

lemma memberValid_of_validate (h : member.validate env.toCheckpointPlatform = .ok ()) :
    MemberValid env member := by
  simp only [CheckpointMember.validate, bind_eq_ok, refuseIf_eq_ok] at h
  obtain ⟨key, hsubject, _, -, _, hroles, _, -, _, hauthority, -⟩ := h
  refine ⟨?_, ?_, fun hgrants => ?_⟩
  · simp only [SnapshotPublisher.validate, bind_eq_ok] at hsubject
    obtain ⟨_, -, _, -, transportPeer, hparse, -⟩ := hsubject
    exact ⟨transportPeer, parsePeer_eq_ok.mp (mapError_eq_ok_iff.mp hparse)⟩
  · by_contra hmem
    refine hroles ⟨fun h => hmem ?_, fun h => hmem ?_⟩ <;> simp [h]
  · by_contra hmem
    exact hauthority ⟨hgrants, hmem⟩

lemma memberValid_of_snapshot (h : snapshot.validate env.toCheckpointPlatform = .ok ())
    (hmember : member ∈ snapshot.members) : MemberValid env member := by
  simp only [CheckpointSnapshot.validate, bind_eq_ok, refuseIf_eq_ok, not_lt] at h
  obtain ⟨_, _, _, _, _, _, _, _, _, hlength, _, _, _, hmembers, _⟩ := h
  exact memberValid_of_validate (((forWithLast_eq_ok validateMember_eq_ok).mp hmembers).1 member hmember)

end Valid

/-! ## The roster of a projection -/

/-- The tables that the loop over a roster fills. -/
structure RosterTables (env : SigningPlatform T K) (members : List CheckpointMember)
    (roster : CheckpointProjection.Roster T) : Prop where
  incarnations : ∀ peer, (roster.incarnations.get? peer).isSome = true ↔
    ∃ member ∈ members, memberOverlay env member = some peer
  expiries : ∀ peer expiry, roster.expiries.get? peer = some expiry ↔
    ∃ member ∈ members, memberOverlay env member = some peer ∧
      member.expiresAtUnixSeconds = some expiry

lemma rosterTables_of_fold {state : CooperativeMembershipState} {members : List CheckpointMember}
    {roster : CheckpointProjection.Roster T}
    (hdistinct : members.Pairwise fun a b => memberOverlay env a ≠ memberOverlay env b)
    (h : members.foldlM (CheckpointProjection.addMember env state) ⟨∅, ∅, []⟩ = .ok roster) :
    RosterTables env members roster := by
  induction members using List.reverseRecOn generalizing roster with
  | nil =>
    obtain rfl := Except.ok.inj h
    exact ⟨by simp, by simp⟩
  | append_singleton members member ih =>
    rw [List.foldlM_append, bind_eq_ok] at h
    obtain ⟨before, hbefore, hstep⟩ := h
    obtain ⟨hpairs, -, hlast⟩ := List.pairwise_append.mp hdistinct
    obtain ⟨hincarnations, hexpiries⟩ := ih hpairs hbefore
    simp only [List.foldlM_cons, List.foldlM_nil, bind_pure] at hstep
    unfold CheckpointProjection.addMember at hstep
    split at hstep
    · cases hstep
    · rename_i transportPeer hparse
      obtain rfl := Except.ok.inj hstep
      have hoverlay : memberOverlay env member = some (fromLibp2p env.toPlatform transportPeer) :=
        congrArg (Option.map (fromLibp2p env.toPlatform)) hparse
      refine ⟨fun peer => ?_, fun peer expiry => ?_⟩
      · simp only [List.mem_append, List.mem_singleton, or_and_right, exists_or, exists_eq_left,
          hoverlay, ← hincarnations, HashMap.get?_insert]
        split
        · rename_i hpeer
          simp [hpeer]
        · rename_i hpeer
          simp [Ne.symm hpeer]
      · simp only [List.mem_append, List.mem_singleton, or_and_right, exists_or, exists_eq_left,
          hoverlay, ← hexpiries]
        cases hexpiry : member.expiresAtUnixSeconds with
        | none => simp
        | some time =>
          rw [HashMap.get?_insert]
          split
          · rename_i hpeer
            have hfresh : before.expiries.get? peer ≠ some expiry := by
              intro hbeforeExpiry
              obtain ⟨other, hother, hsame, -⟩ := (hexpiries peer expiry).mp hbeforeExpiry
              exact hlast other hother member List.mem_cons_self (by rw [hsame, hoverlay, hpeer])
            subst hpeer
            simp [hfresh]
          · rename_i hpeer
            simp [Ne.symm hpeer]

section Refinement

variable [DecidableEq T] {state : CooperativeMembershipState} {localPeer : PeerId}
  {anchor : NetworkAnchor} {projection : CheckpointProjection T}

/-- What a projection keeps of a valid roster. -/
structure Projected (env : SigningPlatform T K) (state : CooperativeMembershipState)
    (localPeer : PeerId) (projection : CheckpointProjection T) : Prop where
  localOverlay : overlayPeer env.toPlatform state.localPeer = some localPeer
  anchor : projection.anchor = state.current.payload.anchor
  rank : projection.rank = state.current.payload.rankOf env.toCheckpointPlatform
  syncState : projection.syncState = state.syncState
  valid : state.current.payload.validate env.toCheckpointPlatform = .ok ()
  members : state.effectiveMembershipAt env.toCheckpointPlatform 0 = .ok projection.members
  active : ∀ peer now, projection.activeAt peer now = true ↔
    ∃ member ∈ state.current.payload.members, memberOverlay env member = some peer ∧
      member.activeAt now = true

/-- Members with one address are one. -/
lemma eq_of_memberOverlay (hdistinct : DistinctRoster env state)
    (hvalid : state.current.payload.validate env.toCheckpointPlatform = .ok ())
    {a b : CheckpointMember} (ha : a ∈ state.current.payload.members)
    (hb : b ∈ state.current.payload.members) (h : memberOverlay env a = memberOverlay env b) :
    a = b := by
  have hsorted := (CheckpointSnapshot.validate_members hvalid).2
  have hkey : a.peerId = b.peerId := hdistinct _ (List.mem_cons_of_mem _ (List.mem_map_of_mem ha)) _
    (List.mem_cons_of_mem _ (List.mem_map_of_mem hb)) h
  have hlookup := (lookup_eq_some_iff hsorted).mpr ⟨ha, hkey⟩
  exact Option.some.inj (hlookup.symm.trans ((lookup_eq_some_iff hsorted).mpr ⟨hb, rfl⟩))

lemma pairwise_memberOverlay (hdistinct : DistinctRoster env state)
    (hvalid : state.current.payload.validate env.toCheckpointPlatform = .ok ()) :
    state.current.payload.members.Pairwise
      fun a b => memberOverlay env a ≠ memberOverlay env b := by
  have hsorted := (CheckpointSnapshot.validate_members hvalid).2
  refine hsorted.imp_of_mem fun {a b} ha hb hlt heq => ?_
  exact hlt.ne (congrArg CheckpointMember.peerId (eq_of_memberOverlay hdistinct hvalid ha hb heq))

lemma projected_of_fromState (hdistinct : DistinctRoster env state)
    (h : CheckpointProjection.fromState env state localPeer anchor = .ok projection) :
    Projected env state localPeer projection := by
  obtain ⟨transportPeer, roster, boundary, rank, members, hparse, rfl, hanchor, hroster, -, hrank,
    hmembers, rfl⟩ := fromState_eq_ok.mp h
  obtain ⟨hvalid, rfl⟩ := CheckpointSnapshot.rank_eq_ok.mp hrank
  have htables := rosterTables_of_fold (pairwise_memberOverlay hdistinct hvalid) hroster
  refine ⟨congrArg (Option.map (fromLibp2p env.toPlatform)) hparse, rfl, rfl, rfl, hvalid, hmembers,
    fun peer now => ?_⟩
  simp only [CheckpointProjection.activeAt, decide_eq_true_eq, htables.incarnations]
  constructor
  · rintro ⟨⟨member, hmember, hoverlay⟩, hexpiry⟩
    refine ⟨member, hmember, hoverlay, ?_⟩
    unfold CheckpointMember.activeAt
    split
    · rfl
    · rename_i expiry hmemberExpiry
      rw [(htables.expiries peer expiry).mpr ⟨member, hmember, hoverlay, hmemberExpiry⟩] at hexpiry
      exact hexpiry
  · rintro ⟨member, hmember, hoverlay, hactive⟩
    refine ⟨⟨member, hmember, hoverlay⟩, ?_⟩
    cases hexpiry : roster.expiries.get? peer with
    | none => rfl
    | some expiry =>
      obtain ⟨other, hother, hsame, hotherExpiry⟩ := (htables.expiries peer expiry).mp hexpiry
      obtain rfl := eq_of_memberOverlay hdistinct hvalid hother hmember (hsame.trans hoverlay.symm)
      rw [CheckpointMember.activeAt, hotherExpiry] at hactive
      exact hactive

omit [DecidableEq T] in
/-- The table that the loop over the active members fills. -/
lemma exists_insertMembers {roster : List CheckpointMember}
    (hparses : ∀ member ∈ roster, ∃ transportPeer, env.parsePeerId member.peerId = some transportPeer)
    (hdistinct : roster.Pairwise fun a b => memberOverlay env a ≠ memberOverlay env b) :
    ∃ table, roster.foldlM (state.insertMember env.toCheckpointPlatform) ∅ = .ok table ∧
      ∀ peer effective, table.get? peer = some effective ↔
        ∃ member ∈ roster, memberOverlay env member = some peer ∧
          ∃ transportPeer, env.parsePeerId member.peerId = some transportPeer ∧
            effective = state.effectiveMember env.toCheckpointPlatform member transportPeer := by
  induction roster using List.reverseRecOn with
  | nil => exact ⟨∅, rfl, by simp⟩
  | append_singleton roster member ih =>
    obtain ⟨hpairs, -, hlast⟩ := List.pairwise_append.mp hdistinct
    obtain ⟨before, hbefore, htable⟩ :=
      ih (fun m hm => hparses m (List.mem_append_left _ hm)) hpairs
    obtain ⟨transportPeer, hparse⟩ := hparses member (by simp)
    have hoverlay : memberOverlay env member = some (fromLibp2p env.toPlatform transportPeer) :=
      congrArg (Option.map (fromLibp2p env.toPlatform)) hparse
    refine ⟨before.insert (fromLibp2p env.toPlatform transportPeer)
      (state.effectiveMember env.toCheckpointPlatform member transportPeer), ?_, ?_⟩
    · rw [List.foldlM_append]
      refine bind_eq_ok.mpr ⟨before, hbefore, ?_⟩
      simp only [List.foldlM_cons, List.foldlM_nil, bind_pure]
      exact bind_eq_ok.mpr ⟨transportPeer,
        mapError_eq_ok_iff.mpr (parsePeer_eq_ok.mpr hparse), rfl⟩
    · intro peer effective
      simp only [List.mem_append, List.mem_singleton, or_and_right, exists_or, exists_eq_left,
        hoverlay, hparse, Option.some.injEq, exists_eq_left', ← htable]
      rw [HashMap.get?_insert]
      split
      · rename_i hpeer
        have hfresh : before.get? peer ≠ some effective := by
          intro hbeforePeer
          obtain ⟨other, hother, hsame, -⟩ := (htable peer effective).mp hbeforePeer
          exact hlast other hother member List.mem_cons_self (by rw [hsame, hoverlay, hpeer])
        subst hpeer
        simp [hfresh, eq_comm]
      · rename_i hpeer
        simp [Ne.symm hpeer]

/-- The members of a checkpoint at a time. -/
lemma get?_effectiveMembershipAt (hdistinct : DistinctRoster env state)
    (hvalid : state.current.payload.validate env.toCheckpointPlatform = .ok ()) (now : ℕ) :
    ∃ members : HashMap PeerId (EffectiveMember T),
      state.effectiveMembershipAt env.toCheckpointPlatform now = .ok ⟨members, ∅, true⟩ ∧
      ∀ peer effective, members.get? peer = some effective ↔
        state.requireParticipation now = .ok () ∧
        ∃ member ∈ state.current.payload.members, member.activeAt now = true ∧
          memberOverlay env member = some peer ∧
          ∃ transportPeer, env.parsePeerId member.peerId = some transportPeer ∧
            effective = state.effectiveMember env.toCheckpointPlatform member transportPeer := by
  unfold CooperativeMembershipState.effectiveMembershipAt
  cases hparticipation : state.requireParticipation now with
  | error error => exact ⟨∅, rfl, by simp⟩
  | ok _ =>
    obtain ⟨table, htable, hget⟩ := @exists_insertMembers _ _ env state
      (state.current.payload.members.filter (·.activeAt now))
      (fun member hmember => (memberValid_of_snapshot hvalid (List.mem_of_mem_filter hmember)).parses)
      ((pairwise_memberOverlay hdistinct hvalid).filter _)
    refine ⟨table, bind_eq_ok.mpr ⟨table, htable, rfl⟩, fun peer effective => ?_⟩
    rw [hget]
    simp only [List.mem_filter, true_and, and_assoc]

lemma requireParticipation_eq_ok
    (hvalid : state.current.payload.validate env.toCheckpointPlatform = .ok ()) {now : ℕ} :
    state.requireParticipation now = .ok () ↔ state.syncState = .participating ∧
      ∃ member ∈ state.current.payload.members, member.peerId = state.localPeer ∧
        member.activeAt now = true := by
  have hsorted := (CheckpointSnapshot.validate_members hvalid).2
  rw [CooperativeMembershipState.requireParticipation, refuseIf_eq_ok, not_or, not_not, not_not]
  refine and_congr_right fun _ => ?_
  unfold participation
  split
  · rename_i hactive
    obtain ⟨member, hmember, hactive⟩ := (Option.any_eq_true _ _).mp hactive
    obtain ⟨hmem, hkey⟩ := (lookup_eq_some_iff hsorted).mp hmember
    exact ⟨fun _ => ⟨member, hmem, hkey, hactive⟩, fun _ => rfl⟩
  · rename_i hactive
    refine ⟨fun h => absurd h (by simp), ?_⟩
    rintro ⟨member, hmem, hkey, hmemberActive⟩
    refine absurd ((Option.any_eq_true _ _).mpr ⟨member, ?_, hmemberActive⟩) hactive
    exact (lookup_eq_some_iff hsorted).mpr ⟨hmem, hkey⟩

lemma activeAt_zero {member : CheckpointMember} {now : ℕ} (h : member.activeAt now = true) :
    member.activeAt 0 = true := by
  unfold CheckpointMember.activeAt at h ⊢
  split at h
  · rfl
  · exact decide_eq_true (lt_of_le_of_lt (Nat.zero_le now) (of_decide_eq_true h))

/-- The local peer is active in a projection if its own entry of the roster is. -/
lemma Projected.localActive (h : Projected env state localPeer projection)
    (hdistinct : DistinctRoster env state) (now : ℕ) :
    projection.activeAt localPeer now = true ↔
      ∃ member ∈ state.current.payload.members, member.peerId = state.localPeer ∧
        member.activeAt now = true := by
  rw [h.active]
  constructor
  · rintro ⟨member, hmember, hoverlay, hactive⟩
    exact ⟨member, hmember, hdistinct _ (List.mem_cons_of_mem _ (List.mem_map_of_mem hmember)) _
      List.mem_cons_self (hoverlay.trans h.localOverlay.symm), hactive⟩
  · rintro ⟨member, hmember, hkey, hactive⟩
    refine ⟨member, hmember, ?_, hactive⟩
    rw [memberOverlay, hkey]
    exact h.localOverlay

/-- **A projection refines its checkpoint**: at any time it has the members of the checkpoint. -/
theorem membershipAt_eq_effectiveMembershipAt (h : Projected env state localPeer projection)
    (hdistinct : DistinctRoster env state) (now : ℕ) :
    state.effectiveMembershipAt env.toCheckpointPlatform now
      = .ok (projection.membershipAt localPeer now) := by
  obtain ⟨members, hmembers, hget⟩ := get?_effectiveMembershipAt hdistinct h.valid now
  obtain ⟨start, hstart, hgetStart⟩ := get?_effectiveMembershipAt hdistinct h.valid 0
  rw [hmembers]
  have hprojection : projection.members = ⟨start, ∅, true⟩ :=
    Except.ok.inj (h.members.symm.trans hstart)
  rw [CheckpointProjection.membershipAt, hprojection]
  refine congrArg Except.ok ?_
  congr 1
  ext peer effective
  have hpeerOf : ∀ {member : CheckpointMember} {transportPeer : T},
      env.parsePeerId member.peerId = some transportPeer → memberOverlay env member
        = some (state.effectiveMember env.toCheckpointPlatform member transportPeer).peer :=
    fun hparse => congrArg (Option.map (fromLibp2p env.toPlatform)) hparse
  rw [HashMap.get?_retain, Option.filter_eq_some_iff, hget, hgetStart,
    requireParticipation_eq_ok h.valid, requireParticipation_eq_ok h.valid]
  simp only [decide_eq_true_eq, h.syncState, h.localActive hdistinct]
  constructor
  · rintro ⟨⟨hsync, own, hown, hkey, hownActive⟩, member, hmember, hactive, hoverlay, transportPeer,
      hparse, rfl⟩
    refine ⟨⟨⟨hsync, own, hown, hkey, activeAt_zero hownActive⟩, member, hmember,
      activeAt_zero hactive, hoverlay, transportPeer, hparse, rfl⟩,
      ⟨hsync, own, hown, hkey, hownActive⟩, ?_⟩
    exact (h.active _ now).mpr ⟨member, hmember, hpeerOf hparse, hactive⟩
  · rintro ⟨⟨-, member, hmember, -, hoverlay, transportPeer, hparse, rfl⟩, hlocal, hactive⟩
    obtain ⟨other, hother, hotherOverlay, hotherActive⟩ := (h.active _ now).mp hactive
    obtain rfl := eq_of_memberOverlay hdistinct h.valid hother hmember
      (hotherOverlay.trans (hpeerOf hparse).symm)
    exact ⟨hlocal, other, hother, hotherActive, hoverlay, transportPeer, hparse, rfl⟩

end Refinement

end P2pVpn.Forward
