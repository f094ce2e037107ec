/-
# Hostnames across a resync round

A round restricts its names to the best branch at every offer.  A branch that is best for a while
and lacks a member therefore drops the member's claim, also when a later and better branch has the
member again.  This file says exactly when that does no harm: when the claims held before a round
survive it in a given order of offers (`resync_keeps_hostnames_iff`), and when the names after a
round are the greatest claims whatever the order (`resync_hostnames_order_free_iff`).
-/
import P2pVpn.Checkpoint.Resync

namespace P2pVpn.Checkpoint

open Lib CooperativeMembershipState

/-! ## The check before a state is stored -/

/-- The way in which a state that forgets hostnames is refused. -/
inductive MembershipStateStoreError where
  | hostnameRollback
deriving DecidableEq, Repr

/-- One turn of `validate_hostname_progress`: a claim for a member that the next snapshot still has
must be there, and not smaller. -/
def checkHostname (next : RetainedCheckpointState) (old : SignedHostnameClaim) :
    Except MembershipStateStoreError Unit :=
  if ¬ next.snapshot.payload.admits old.holder then .ok ()
  else
    match lookup SignedHostnameClaim.peerId next.hostnameClaims old.peerId with
    | none => .error .hostnameRollback
    | some name => refuseIf (name.version < old.version) .hostnameRollback

/-- `validate_hostname_progress`. -/
def validateHostnameProgress (previous next : RetainedCheckpointState) :
    Except MembershipStateStoreError Unit :=
  previous.hostnameClaims.forM (checkHostname next)

variable {T K : Type} [DecidableEq T] {env : CheckpointPlatform T K}
  {state final : CooperativeMembershipState} {schedule : RoundSchedule}
  {arrivals : List (Arrival T)}

/-- For names in order, the check compares with the claim for the same member. -/
lemma checkHostname_eq_ok {next : RetainedCheckpointState} {old : SignedHostnameClaim}
    (hnext : NamesValid env next.snapshot.payload next.hostnameClaims) :
    checkHostname next old = .ok () ↔ (next.snapshot.payload.admits old.holder = true →
      ↑old.version ≤ heldVersion next.hostnameClaims old.holder) := by
  rw [checkHostname, coe_le_heldVersion_iff]
  split
  · rename_i hadmits
    exact ⟨fun _ h => absurd h hadmits, fun _ => rfl⟩
  · rename_i hadmits
    rw [not_not] at hadmits
    simp only [hadmits, true_implies]
    -- a claim of the same peer is for the same member, as the snapshot has both
    have hholder : ∀ claim ∈ next.hostnameClaims, claim.peerId = old.peerId →
        claim.holder = old.holder := fun claim hclaim hpeer =>
      eq_of_admits (hnext.admitted claim hclaim) hadmits hpeer
    cases hlookup : lookup SignedHostnameClaim.peerId next.hostnameClaims old.peerId with
    | none =>
      have hnone := (lookup_eq_none_iff hnext.sorted).mp hlookup
      constructor
      · intro h
        cases h
      · rintro ⟨claim, hclaim, hsame, -⟩
        refine absurd ?_ (hnone claim hclaim)
        exact congrArg (fun holder => holder.1.peerId) hsame
    | some name =>
      obtain ⟨hname, hpeer⟩ := (lookup_eq_some_iff hnext.sorted).mp hlookup
      simp only [refuseIf_eq_ok, not_lt]
      constructor
      · intro hle
        exact ⟨name, hname, hholder name hname hpeer, hle⟩
      · rintro ⟨claim, hclaim, hsame, hle⟩
        have hpeer' : claim.peerId = old.peerId :=
          congrArg (fun holder => holder.1.peerId) hsame
        have : lookup SignedHostnameClaim.peerId next.hostnameClaims old.peerId = some claim :=
          (lookup_eq_some_iff hnext.sorted).mpr ⟨hclaim, hpeer'⟩
        rw [hlookup] at this
        obtain rfl := Option.some.inj this
        exact hle

/-- A round that succeeds ends with the names that its sources leave. -/
lemma names_of_resync (hstate : StateValid env state)
    (h : resync env state schedule arrivals = .ok final) (holder : SnapshotPublisher × Bytes32) :
    heldVersion final.names holder = table (Source.rank env) Source.admits Source.version
      state.ownSource (arrivals.map Arrival.source) holder := by
  obtain ⟨-, hall, rfl⟩ := (resync_eq_ok_iff hstate).mp h
  exact (closedRound_refines hstate hall).2 holder

lemma namesValid_of_resync (hstate : StateValid env state)
    (h : resync env state schedule arrivals = .ok final) :
    NamesValid env final.current.payload final.names := by
  obtain ⟨-, hall, rfl⟩ := (resync_eq_ok_iff hstate).mp h
  exact (closedRound_valid hstate hall).names

variable {snapshot : CheckpointSnapshot} {names : List SignedHostnameClaim} {source : Source}

/-- A table in order holds claims only for members of the snapshot. -/
lemma NamesValid.admits_of_heldVersion (h : NamesValid env snapshot names)
    {holder : SnapshotPublisher × Bytes32} (hheld : heldVersion names holder ≠ ⊥) :
    snapshot.admits holder = true := by
  obtain ⟨v, hv⟩ := WithBot.ne_bot_iff_exists.mp hheld
  obtain ⟨claim, hclaim, rfl, -⟩ := coe_le_heldVersion_iff.mp hv.le
  exact h.admitted claim hclaim

/-! ## Claims held before a round -/

/-- **When hostnames survive a round.**  The claims held before a round for members of the selected
snapshot are still there, or superseded, and the result can be stored, exactly when each of them
was carried to the end: by the node's own names or by an offer with a claim that is not smaller,
every best branch from there on having the member. -/
theorem resync_keeps_hostnames_iff (hstate : StateValid env state)
    (hround : resync env state schedule arrivals = .ok final) :
    ((∀ claim ∈ state.names, final.current.payload.admits claim.holder = true →
        ∃ kept ∈ final.names, kept.holder = claim.holder ∧ claim.version ≤ kept.version) ∧
      validateHostnameProgress state.retained final.retained = .ok ()) ↔
    ∀ claim ∈ state.names,
      (best (Source.rank env) state.ownSource (arrivals.map Arrival.source)).admits claim.holder
        = true →
      Carried (Source.rank env) Source.admits Source.version state.ownSource
        (arrivals.map Arrival.source) claim.holder claim.version := by
  have hnames : NamesValid env final.retained.snapshot.payload final.retained.hostnameClaims :=
    namesValid_of_resync hstate hround
  have hprogress : validateHostnameProgress state.retained final.retained = .ok () ↔
      ∀ claim ∈ state.names, final.current.payload.admits claim.holder = true →
        ∃ kept ∈ final.names, kept.holder = claim.holder ∧ claim.version ≤ kept.version := by
    rw [validateHostnameProgress, forM_eq_ok]
    simp only [checkHostname_eq_ok hnames, coe_le_heldVersion_iff]
    rfl
  rw [hprogress, and_self]
  refine forall₂_congr fun claim _ => ?_
  rw [current_of_resync hstate hround]
  refine imp_congr_right fun _ => ?_
  rw [← coe_le_heldVersion_iff, names_of_resync hstate hround]
  exact coe_le_table_iff fun holder => hstate.names.admits_of_heldVersion

lemma resync_retention_first :
    resync sampleEnv sampleState sampleSchedule [sampleRetention, sampleRemoval]
      = .ok (sampleFinal [sampleClaim]) := by
  decide +kernel

lemma sampleRetention_admits :
    sampleRetention.snapshot.payload.admits sampleClaim.holder = true := by
  decide +kernel

/-- When the higher branch arrives first, the name of `A` survives. -/
theorem sample_resync_keeps_hostname :
    resync sampleEnv sampleState sampleSchedule [sampleRetention, sampleRemoval]
        = .ok (sampleFinal [sampleClaim]) ∧
      ∀ claim ∈ sampleState.names,
        (best (Source.rank sampleEnv) sampleState.ownSource
          ([sampleRetention, sampleRemoval].map Arrival.source)).admits claim.holder = true →
        Carried (Source.rank sampleEnv) Source.admits Source.version sampleState.ownSource
          ([sampleRetention, sampleRemoval].map Arrival.source) claim.holder claim.version := by
  refine ⟨resync_retention_first, (resync_keeps_hostnames_iff sampleState_valid
    resync_retention_first).mp ⟨?_, by decide +kernel⟩⟩
  intro claim hclaim _
  exact ⟨claim, hclaim, rfl, le_rfl⟩

/-- When the branch without `A` arrives first, the name of `A` is gone after the round, although
`A` is a member of the selected branch as before, and the result cannot be stored. -/
theorem removal_branch_rolls_hostname_back :
    resync sampleEnv sampleState sampleSchedule [sampleRemoval, sampleRetention]
        = .ok (sampleFinal []) ∧
      sampleClaim ∈ sampleState.names ∧
      (sampleFinal []).current.payload.admits sampleClaim.holder = true ∧
      validateHostnameProgress sampleState.retained (sampleFinal []).retained
        = .error .hostnameRollback :=
  ⟨resync_removal_first, List.mem_singleton_self _, sampleRetention_admits, by decide +kernel⟩

/-! ## Orders of offers -/

/-- All claims that a round gets to see. -/
def allClaims (state : CooperativeMembershipState) (arrivals : List (Arrival T)) :
    List SignedHostnameClaim :=
  state.names ++ arrivals.flatMap Arrival.claims

omit [DecidableEq T] in
lemma greatest_eq_heldVersion (holder : SnapshotPublisher × Bytes32) :
    greatest Source.version state.ownSource (arrivals.map Arrival.source) holder
      = heldVersion (allClaims state arrivals) holder := by
  induction arrivals using List.reverseRecOn with
  | nil => simp [allClaims, greatest, CooperativeMembershipState.ownSource, Source.version]
  | append_singleton arrivals arrival ih =>
    rw [List.map_append, greatest, List.foldl_append]
    show greatest Source.version state.ownSource (arrivals.map Arrival.source) holder
      ⊔ heldVersion arrival.claims holder = _
    rw [ih, ← heldVersion_append]
    simp [allClaims]

/-- Of a valid table, the claim for a member has the version that the table holds. -/
lemma NamesValid.version_eq (h : NamesValid env snapshot names) {claim : SignedHostnameClaim}
    (hclaim : claim ∈ names) :
    heldVersion names claim.holder = ↑claim.version := by
  have hle : ↑claim.version ≤ heldVersion names claim.holder :=
    coe_le_heldVersion_iff.mpr ⟨claim, hclaim, rfl, le_rfl⟩
  cases hheld : heldVersion names claim.holder with
  | bot => simp [hheld] at hle
  | coe v =>
    obtain ⟨other, hother, hholder, hv⟩ := coe_le_heldVersion_iff.mp hheld.ge
    -- a table has one claim per peer
    have hpeer : other.peerId = claim.peerId :=
      congrArg (fun holder : SnapshotPublisher × Bytes32 => holder.1.peerId) hholder
    have hsame := (lookup_eq_some_iff h.sorted).mpr ⟨hother, hpeer⟩
    rw [(lookup_eq_some_iff h.sorted).mpr ⟨hclaim, rfl⟩] at hsame
    obtain rfl := Option.some.inj hsame
    rw [hheld] at hle
    exact congrArg _ (le_antisymm hv (WithBot.coe_le_coe.mp hle))

/-- The content of a claim in a network is its member and its version. -/
lemma ClaimSigned.payload_eq {anchor : NetworkAnchor} {claim claim' : SignedHostnameClaim}
    (h : ClaimSigned env anchor claim) (h' : ClaimSigned env anchor claim')
    (hholder : claim.holder = claim'.holder) (hversion : claim.version = claim'.version) :
    claim.payload = claim'.payload := by
  have hone : ∀ {c : SignedHostnameClaim}, ClaimSigned env anchor c → c.payload.version = 1 := by
    intro c hc
    have hpayload := hc.payload
    simp only [validateHostnamePayload, bind_eq_ok, refuseIf_eq_ok, not_or, not_not] at hpayload
    obtain ⟨_, ⟨hversion, -⟩, -⟩ := hpayload
    exact hversion
  obtain ⟨hsubject, hincarnation⟩ := Prod.ext_iff.mp hholder
  obtain ⟨hsequence, hhostname⟩ := Prod.ext_iff.mp (toLex.injective hversion)
  exact HostnameClaimPayload.ext ((hone h).trans (hone h').symm) (h.anchor.trans h'.anchor.symm)
    hsubject hincarnation hsequence hhostname

/-- Tables in order for one snapshot that hold the same versions have the same claims, up to their
signatures. -/
lemma NamesValid.map_payload_eq {names' : List SignedHostnameClaim}
    (h : NamesValid env snapshot names) (h' : NamesValid env snapshot names')
    (hheld : ∀ holder, heldVersion names holder = heldVersion names' holder) :
    names.map SignedHostnameClaim.payload = names'.map SignedHostnameClaim.payload := by
  have hsub : ∀ {l l' : List SignedHostnameClaim}, NamesValid env snapshot l →
      NamesValid env snapshot l' → (∀ holder, heldVersion l holder = heldVersion l' holder) →
      ∀ payload ∈ l.map SignedHostnameClaim.payload, payload ∈ l'.map SignedHostnameClaim.payload := by
    intro l l' hl hl' hheld payload hpayload
    obtain ⟨claim, hclaim, rfl⟩ := List.mem_map.mp hpayload
    have hversion := hl.version_eq hclaim
    rw [hheld] at hversion
    obtain ⟨claim', hclaim', hholder, -⟩ := coe_le_heldVersion_iff.mp hversion.ge
    rw [← hholder, hl'.version_eq hclaim'] at hversion
    exact List.mem_map.mpr ⟨claim', hclaim', (hl'.signed claim' hclaim').payload_eq
      (hl.signed claim hclaim) hholder (WithBot.coe_injective hversion)⟩
  have hsorted : ∀ {l : List SignedHostnameClaim}, NamesValid env snapshot l →
      Sorted (fun payload : HostnameClaimPayload => payload.subject.peerId)
        (l.map SignedHostnameClaim.payload) := fun hl => List.pairwise_map.mpr hl.sorted
  exact (hsorted h).ext (hsorted h') fun payload =>
    ⟨hsub h h' hheld payload, hsub h' h (fun holder => (hheld holder).symm) payload⟩

/-- The node's own source and those of the offers. -/
def sources (state : CooperativeMembershipState) (arrivals : List (Arrival T)) : List Source :=
  state.ownSource :: arrivals.map Arrival.source

omit [DecidableEq T] in
lemma mem_candidates_of_mem_sources (h : source ∈ sources state arrivals) :
    source.1 ∈ candidates state arrivals := by
  rw [candidates_eq_map]
  exact List.mem_map_of_mem h

section Accepted

variable (hstate : StateValid env state)
  (hround : resync env state schedule arrivals = .ok final)
include hstate hround

/-- Sources of equal rank have the same snapshot. -/
lemma eq_of_source_rank_eq (hdigest : DigestsDistinct env (candidates state arrivals))
    {source' : Source} (h : source ∈ sources state arrivals) (h' : source' ∈ sources state arrivals)
    (hrank : source.rank env = source'.rank env) :
    source.1 = source'.1 := by
  have hverified := verify_of_mem_candidates hstate hround
  have hmem := mem_candidates_of_mem_sources h
  have hmem' := mem_candidates_of_mem_sources h'
  exact eq_of_rankOf_eq (hverified _ hmem) (hverified _ hmem') (hdigest _ hmem _ hmem') hrank

/-- A source claims names only for members of its snapshot. -/
lemma admits_of_source_version (h : source ∈ sources state arrivals)
    (holder : SnapshotPublisher × Bytes32) (hversion : source.version holder ≠ ⊥) :
    source.admits holder = true := by
  obtain ⟨-, hall, -⟩ := (resync_eq_ok_iff hstate).mp hround
  rcases List.mem_cons.mp h with rfl | h
  · exact hstate.names.admits_of_heldVersion hversion
  · obtain ⟨arrival, harrival, rfl⟩ := List.mem_map.mp h
    exact (hall arrival harrival).source.claims.admits_of_heldVersion hversion

/-- No offer is below the node's own snapshot. -/
lemma own_rank_le (h : source ∈ arrivals.map Arrival.source) :
    state.ownSource.rank env ≤ source.rank env := by
  obtain ⟨-, hall, -⟩ := (resync_eq_ok_iff hstate).mp hround
  obtain ⟨arrival, harrival, rfl⟩ := List.mem_map.mp h
  exact (hall arrival harrival).notStale

end Accepted

/-- **When the order of offers does not matter for hostnames.**  If the digests of the candidates do
not collide, then every order of the offers is accepted and leaves the same claims, the greatest
one for each member of the selected snapshot, exactly when for each member of the top candidate
that anyone claims a name for, a greatest claim comes with a snapshot all of whose superiors among
the candidates have the member. -/
theorem resync_hostnames_order_free_iff (hstate : StateValid env state)
    (hround : resync env state schedule arrivals = .ok final)
    (hdigest : DigestsDistinct env (candidates state arrivals)) :
    (∀ arrivals', arrivals'.Perm arrivals → ∃ final',
      resync env state schedule arrivals' = .ok final' ∧
      final'.names.map SignedHostnameClaim.payload
        = final.names.map SignedHostnameClaim.payload ∧
      ∀ holder, final'.current.payload.admits holder = true →
        heldVersion final'.names holder = heldVersion (allClaims state arrivals) holder) ↔
    ∀ top ∈ candidates state arrivals,
      (∀ s ∈ candidates state arrivals, s.payload.rankOf env ≤ top.payload.rankOf env) →
      ∀ holder, top.payload.admits holder = true →
        heldVersion (allClaims state arrivals) holder ≠ ⊥ →
        ∃ source ∈ sources state arrivals,
          heldVersion source.2 holder = heldVersion (allClaims state arrivals) holder ∧
          ∀ s ∈ candidates state arrivals, source.1.payload.rankOf env < s.payload.rankOf env →
            s.payload.admits holder = true := by
  have hgreatest := @greatest_eq_heldVersion T state arrivals
  have hnames : ∀ {arrivals' final'}, resync env state schedule arrivals' = .ok final' →
      ∀ holder, heldVersion final'.names holder = table (Source.rank env) Source.admits
        Source.version state.ownSource (arrivals'.map Arrival.source) holder := fun h =>
    names_of_resync hstate h
  have hcurrent : ∀ holder, final.current.payload.admits holder
      = (best (Source.rank env) state.ownSource (arrivals.map Arrival.source)).admits holder := by
    intro holder
    rw [current_of_resync hstate hround]
    rfl
  have hiff := @table_eq_greatest_iff Source SnapshotRank (SnapshotPublisher × Bytes32)
    (ℕ ×ₗ String) _ _ (Source.rank env) Source.admits Source.version state.ownSource
    (arrivals.map Arrival.source)
    (fun s hs t ht hrank => congrArg (fun snapshot => snapshot.payload.admits)
      (eq_of_source_rank_eq hstate hround hdigest hs ht hrank))
    (fun s hs => admits_of_source_version hstate hround hs)
    (fun s hs => own_rank_le hstate hround hs)
  simp only [hgreatest] at hiff
  refine Iff.trans ⟨?_, ?_⟩ (hiff.trans ⟨?_, ?_⟩)
  · -- every order of the sources is the order of some offers
    intro h sources' hperm holder hadmits
    have hcomp : Relation.Comp (· = List.map Arrival.source ·) List.Perm sources' arrivals := by
      rw [List.eq_map_comp_perm]
      exact hperm
    obtain ⟨arrivals', rfl, hperm'⟩ := hcomp
    obtain ⟨final', hround', -, hheld⟩ := h arrivals' hperm'
    rw [← hnames hround', hheld holder]
    rw [current_eq_of_same_candidates hstate hround hdigest hstate hround'
      (mem_candidates_perm hperm'), hcurrent]
    exact hadmits
  · intro h arrivals' hperm
    obtain ⟨final', hround'⟩ := resync_perm hstate hround hperm
    have hsame : final'.current = final.current :=
      current_eq_of_same_candidates hstate hround hdigest hstate hround' (mem_candidates_perm hperm)
    have hheld : ∀ {l : List (Arrival T)} {f : CooperativeMembershipState}, l.Perm arrivals →
        resync env state schedule l = .ok f → ∀ holder,
        final.current.payload.admits holder = true →
        heldVersion f.names holder = heldVersion (allClaims state arrivals) holder := by
      intro l f hl hf holder hadmits
      rw [hnames hf]
      exact h _ (hl.map _) holder ((hcurrent holder).symm.trans hadmits)
    refine ⟨final', hround', ?_, fun holder hadmits => hheld hperm hround' holder (hsame ▸ hadmits)⟩
    have hvalid := namesValid_of_resync hstate hround
    have hvalid' := namesValid_of_resync hstate hround'
    rw [hsame] at hvalid'
    refine hvalid'.map_payload_eq hvalid fun holder => ?_
    by_cases hadmits : final.current.payload.admits holder = true
    · rw [hheld hperm hround' holder hadmits, hheld (List.Perm.refl _) hround holder hadmits]
    · rw [not_imp_comm.mp hvalid'.admits_of_heldVersion hadmits,
        not_imp_comm.mp hvalid.admits_of_heldVersion hadmits]
  · intro h top htop hmax holder hadmits hbot
    obtain rfl : top = final.current := by
      obtain ⟨hmem, hmax'⟩ := current_isGreatest hstate hround
      exact eq_current_of_rank_eq hstate hround hdigest htop
        (le_antisymm (hmax' _ htop) (hmax _ hmem))
    obtain ⟨source, hsource, hversion, hhigher⟩ :=
      h holder ((hcurrent holder).symm.trans hadmits) hbot
    refine ⟨source, hsource, hversion, fun s hs hlt => ?_⟩
    rw [candidates_eq_map] at hs
    obtain ⟨t, ht, rfl⟩ := List.mem_map.mp hs
    exact hhigher t ht hlt
  · intro h holder hadmits hbot
    obtain ⟨hmem, hmax⟩ := current_isGreatest hstate hround
    obtain ⟨source, hsource, hversion, hhigher⟩ :=
      h _ hmem hmax holder ((hcurrent holder).trans hadmits) hbot
    exact ⟨source, hsource, hversion, fun t ht hlt =>
      hhigher t.1 (mem_candidates_of_mem_sources ht) hlt⟩

/-- A branch without `C` does not get in the way of the name of `A`. -/
theorem sample_resync_hostnames_order_free :
    resync sampleEnv sampleState sampleSchedule
        [sampleArrival .B 1 [.B, .A] "B2", sampleRetention] = .ok (sampleFinal [sampleClaim]) ∧
      ∀ arrivals', arrivals'.Perm [sampleArrival .B 1 [.B, .A] "B2", sampleRetention] → ∃ final',
        resync sampleEnv sampleState sampleSchedule arrivals' = .ok final' ∧
        final'.names.map SignedHostnameClaim.payload = [sampleClaim.payload] := by
  have hround : resync sampleEnv sampleState sampleSchedule
      [sampleArrival .B 1 [.B, .A] "B2", sampleRetention] = .ok (sampleFinal [sampleClaim]) := by
    decide +kernel
  have horder := (resync_hostnames_order_free_iff sampleState_valid hround
    (by decide +kernel)).mpr ?_
  · refine ⟨hround, fun arrivals' hperm => ?_⟩
    obtain ⟨final', hround', hnames, -⟩ := horder arrivals' hperm
    exact ⟨final', hround', hnames⟩
  · -- the only claim is the one of `A`, whom every candidate has
    intro top _ _ holder _ hheld
    obtain ⟨v, hv⟩ := WithBot.ne_bot_iff_exists.mp hheld
    obtain ⟨claim, hclaim, rfl, -⟩ := coe_le_heldVersion_iff.mp hv.le
    obtain rfl : claim = sampleClaim := List.mem_singleton.mp hclaim
    exact ⟨sampleState.ownSource, List.mem_cons_self, rfl, by decide +kernel⟩

/-- Two orders of the same offers leave different names: only one of them the greatest claim. -/
theorem offer_order_decides_hostname :
    resync sampleEnv sampleState sampleSchedule [sampleRetention, sampleRemoval]
        = .ok (sampleFinal [sampleClaim]) ∧
      resync sampleEnv sampleState sampleSchedule [sampleRemoval, sampleRetention]
        = .ok (sampleFinal []) ∧
      (sampleFinal []).current.payload.admits sampleClaim.holder = true ∧
      heldVersion (allClaims sampleState [sampleRemoval, sampleRetention]) sampleClaim.holder
        = ↑sampleClaim.version ∧
      heldVersion (sampleFinal []).names sampleClaim.holder = ⊥ :=
  ⟨resync_retention_first, resync_removal_first, sampleRetention_admits, rfl, rfl⟩

end P2pVpn.Checkpoint
