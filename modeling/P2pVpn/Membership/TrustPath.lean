/-
# Trust paths

The trust path of a member leads from a trust anchor to the record that the member's state rests on:
every record on it was authorised by the one before it.  The authoriser of a grant was accepted
before the grant, so the path cannot come back to a record (`trust_path_well_founded`), although
records of one second authorise each other in an order that their issue times do not show.
-/
import Mathlib.Data.Fintype.Card
import P2pVpn.Lib.Links
import P2pVpn.Membership.ClockSteps
import P2pVpn.Membership.Effective

namespace P2pVpn.Membership

open Lib

/-! ## The program -/

section Links

variable {ι : Type} [DecidableEq ι]

/-- The record that had authorised a record. -/
def authorizerOf (evaluation : MembershipLedgerEvaluation ι) (index : ι) : Option ι :=
  (evaluation.eventAuthorizers.get? index).join

end Links

/-- The network a list belongs to, as its first record has it. -/
def firstNetworkName : List SignedMembershipRecord → String
  | [] => ""
  | first :: _ => first.payload.networkName

/-- `overlay_membership_trust_path_at`.  A path without repetitions is no longer than the list, so
the loop meets a record twice before it runs out of fuel. -/
def overlayMembershipTrustPathAt {T K : Type} [DecidableEq T] (env : Platform T K)
    (records : List SignedMembershipRecord) (memberPeer : String) (nowUnixSeconds : ℕ) :
    Except MembershipRecordError (Option (List SignedMembershipRecord)) := do
  let anchors ← membershipTrustAnchors env records (firstNetworkName records)
  let evaluation ← evaluateMembershipLedgerAt records anchors nowUnixSeconds
  match (evaluation.states.get? memberPeer).filter (·.active) with
  | none => pure none
  | some state =>
      match follow (authorizerOf evaluation) (records.length + 1) [] (some state.recordIndex) with
      | .error index => .error (.untrustedIssuer (records.get index).payload.issuerPeer)
      | .ok path => pure (some (path.map records.get))

/-! ## The order of acceptance -/

section Order

variable {ι : Type} [DecidableEq ι] {record : ι → SignedMembershipRecord}
  {trustedRoots : Finset String} {group : ℕ → List ι} {now : ℕ}

/-- A grant was accepted when its issuer was active. -/
lemma exists_accept_grant {i : ι} (hgrant : ¬(record i).payload.revoked)
    (hi : i ∈ (runSteps record (clockSteps record trustedRoots group now)).accepted) :
    ∃ a b, clockSteps record trustedRoots group now = a ++ .accept i :: b ∧
      grantEnabled record trustedRoots (runSteps record a) i = true := by
  rw [runSteps_accepted] at hi
  obtain ⟨t, ht, hi⟩ := exists_second_of_accepted_clockSteps hi
  obtain ⟨more, hmore⟩ := @clockSteps_of_lt _ _ record trustedRoots group _ _ ht
  have hlog := (List.mem_append.mp hi).resolve_right fun h =>
    hgrant (mem_authorizedRevocations.mp h).2.1
  obtain ⟨before, after, hsplit⟩ := List.append_of_mem hlog
  have hsecond : ∃ later, acceptedInSecond record trustedRoots
      (runSteps record (clockSteps record trustedRoots group t)) t (group t)
        = before ++ i :: later := by
    rw [acceptedInSecond, hsplit, List.append_assoc, List.cons_append]
    exact ⟨_, rfl⟩
  obtain ⟨later, hsecond⟩ := hsecond
  refine ⟨clockSteps record trustedRoots group t ++ .expire t :: before.map .accept,
    later.map .accept ++ more, ?_, ?_⟩
  · rw [hmore, hsecond]
    simp only [List.map_append, List.map_cons, List.append_assoc, List.cons_append]
  · -- what stands before it in this second are grants too
    have hgrants : ∀ j ∈ before, ∀ e, acceptRecord record e j = acceptGrant record e j := by
      intro j hj e
      have hmem : j ∈ before ++ i :: after := List.mem_append_left _ hj
      rw [← hsplit] at hmem
      exact acceptRecord_of_not_revoked (mem_group_of_mem_settleLog hmem).2 e
    rw [runSteps_append_expire, foldl_eq_foldl hgrants]
    have hrun : EnabledRun (grantEnabled record trustedRoots) (acceptGrant record)
        (expireGroup record (runSteps record (clockSteps record trustedRoots group t)) t)
        (settleLog (grantEnabled record trustedRoots) (acceptGrant record)
          (grantsOf record (group t)).length
          (expireGroup record (runSteps record (clockSteps record trustedRoots group t)) t)
          (grantsOf record (group t))) := settleLog_enabled ..
    rw [hsplit] at hrun
    exact hrun.enabled_of_append

/-- Records are accepted in the order of their issue times. -/
lemma ClockGroups.pairwise_issued (h : ClockGroups record group) (now : ℕ) :
    ((clockSteps record trustedRoots group now).filterMap LedgerStep.accepted?).Pairwise fun i j =>
      (record i).payload.issuedAtUnixSeconds ≤ (record j).payload.issuedAtUnixSeconds := by
  induction now with
  | zero => exact List.Pairwise.nil
  | succ now ih =>
    rw [accepted_clockSteps_succ]
    have hnow : ∀ j ∈ acceptedInSecond record trustedRoots
        (runSteps record (clockSteps record trustedRoots group now)) now (group now),
        (record j).payload.issuedAtUnixSeconds = now :=
      fun j hj => h.issued now j (mem_group_of_mem_acceptedInSecond hj)
    refine List.pairwise_append.mpr ⟨ih, ?_, fun i hi j hj => ?_⟩
    · refine List.pairwise_of_forall_mem_list fun i hi j hj => ?_
      rw [hnow i hi, hnow j hj]
    · obtain ⟨t, ht, hit⟩ := exists_second_of_accepted_clockSteps hi
      rw [hnow j hj, h.issued t i (mem_group_of_mem_acceptedInSecond hit)]
      exact ht.le

/-- What a grant was authorised by: a trusted root, or a grant for its issuer that was accepted and
issued before it. -/
lemma authorizer_of_grant (h : ClockGroups record group) {i : ι} (hgrant : ¬(record i).payload.revoked)
    (hi : i ∈ (runSteps record (clockSteps record trustedRoots group now)).accepted) :
    (authorizerOf (runSteps record (clockSteps record trustedRoots group now)) i = none →
      (record i).payload.issuerPeer ∈ trustedRoots) ∧
    ∀ j, authorizerOf (runSteps record (clockSteps record trustedRoots group now)) i = some j →
      j ∈ (runSteps record (clockSteps record trustedRoots group now)).accepted ∧
      ¬(record j).payload.revoked ∧
      (record j).payload.memberPeer = (record i).payload.issuerPeer ∧
      (record j).payload.issuedAtUnixSeconds ≤ (record i).payload.issuedAtUnixSeconds ∧
      (runSteps record (clockSteps record trustedRoots group now)).accepted.idxOf j <
        (runSteps record (clockSteps record trustedRoots group now)).accepted.idxOf i := by
  obtain ⟨a, b, hsteps, henabled⟩ := exists_accept_grant hgrant hi
  have hnodup := @ClockGroups.nodup_clockSteps _ _ record trustedRoots group h now
  have hissued := @ClockGroups.pairwise_issued _ _ record trustedRoots group h now
  rw [hsteps] at hnodup hissued ⊢
  have hauthorizer : authorizerOf (runSteps record (a ++ .accept i :: b)) i
      = ((runSteps record a).states.get? (record i).payload.issuerPeer).map (·.recordIndex) := by
    rw [authorizerOf, eventAuthorizers_runSteps hnodup]
    rfl
  rw [hauthorizer]
  refine ⟨fun hnone => ?_, fun j hj => ?_⟩
  · -- an issuer without history needs a root
    have hstate := Option.map_eq_none_iff.mp hnone
    simp only [grantEnabled, issuerIsActiveOrGenesis, issuerIsActive, hstate] at henabled
    split at henabled
    · exact of_decide_eq_true (Bool.and_eq_true _ _ ▸ henabled).1
    · exact of_decide_eq_true henabled
  · obtain ⟨state, hstate, rfl⟩ := Option.map_eq_some_iff.mp hj
    have hactive : state.active = true := by
      simp only [grantEnabled, issuerIsActiveOrGenesis, issuerIsActive, hstate] at henabled
      split at henabled
      · exact (Bool.and_eq_true _ _ ▸ henabled).2
      · exact henabled
    obtain ⟨hmem, hmember, hactiveGrant⟩ := statesSound_runSteps a _ state hstate
    have haccepted : (runSteps record (a ++ .accept i :: b)).accepted
        = (runSteps record a).accepted ++ i :: b.filterMap LedgerStep.accepted? := by
      rw [runSteps_accepted, runSteps_accepted, List.filterMap_append]
      rfl
    rw [← @runSteps_accepted _ _ record, haccepted] at hnodup hissued
    obtain ⟨-, -, hapart⟩ := List.nodup_append.mp hnodup
    rw [haccepted]
    refine ⟨List.mem_append_left _ hmem, (hactiveGrant hactive).1, hmember, ?_, ?_⟩
    · exact (List.pairwise_append.mp hissued).2.2 _ hmem _ List.mem_cons_self
    · have hnot : i ∉ (runSteps record a).accepted := fun hin =>
        hapart i hin i List.mem_cons_self rfl
      rw [List.idxOf_append_of_mem hmem, List.idxOf_append_of_notMem hnot, List.idxOf_cons_self]
      exact Nat.lt_of_lt_of_le (List.idxOf_lt_length_of_mem hmem) (Nat.le_add_right _ _)

end Order

/-! ## The path -/

variable {T K : Type} [DecidableEq T] {env : Platform T K} {records : List SignedMembershipRecord}

/-- A history that is valid for some network is valid for that of its first record. -/
lemma valid_firstNetworkName {networkName : String}
    (h : validateMembershipRecordHistory env records networkName = .ok ()) :
    validateMembershipRecordHistory env records (firstNetworkName records) = .ok () := by
  cases records with
  | nil => rfl
  | cons first rest =>
    obtain ⟨-, hrecords, -⟩ := validateHistory_eq_ok.mp h
    obtain ⟨_, hnetwork, -⟩ := bind_eq_ok.mp (hrecords first List.mem_cons_self)
    have hname : first.payload.networkName = networkName := by
      simpa [ensureRecordNetwork, refuseIf_eq_ok] using hnetwork
    rw [firstNetworkName, hname]
    exact h

/-- Following the authorisers of an accepted grant leads to a trusted root. -/
lemma follow_authorizers (hpayloads : ∀ r ∈ records, ValidPayload r.payload)
    {trustedRoots : Finset String} {now : ℕ}
    {evaluation : MembershipLedgerEvaluation (Fin records.length)}
    (heval : evaluation = evaluateOrdered records.get trustedRoots (orderedIndices records now) now)
    {start : Fin records.length} (hstart : start ∈ evaluation.accepted)
    (hgrant : ¬(records.get start).payload.revoked) :
    ∃ before, follow (authorizerOf evaluation) (records.length + 1) [] (some start)
        = .ok (before ++ [start]) ∧
      (∀ i ∈ before ++ [start], i ∈ evaluation.accepted) ∧
      (before ++ [start]).IsChain (fun i j =>
        (records.get j).payload.issuerPeer = (records.get i).payload.memberPeer ∧
        (records.get i).payload.issuedAtUnixSeconds ≤ (records.get j).payload.issuedAtUnixSeconds) ∧
      ∃ first, (before ++ [start]).head? = some first ∧
        (records.get first).payload.issuerPeer ∈ trustedRoots := by
  have hnodup : evaluation.accepted.Nodup := heval ▸ nodup_accepted hpayloads trustedRoots now
  have hgroups := clockGroups_issuedInSecond (List.nodup_finRange records.length) fun i _ =>
    not_isExpiredAt_issue (hpayloads (records.get i) (List.get_mem ..))
  rw [evaluateOrdered_indices_eq_clockReplay hpayloads, clockReplay_eq_runSteps] at heval
  have hlinks : ∀ i, i ∈ evaluation.accepted ∧ ¬(records.get i).payload.revoked →
      (authorizerOf evaluation i = none → (records.get i).payload.issuerPeer ∈ trustedRoots) ∧
      ∀ j, authorizerOf evaluation i = some j → j ∈ evaluation.accepted ∧
        ¬(records.get j).payload.revoked ∧
        (records.get j).payload.memberPeer = (records.get i).payload.issuerPeer ∧
        (records.get j).payload.issuedAtUnixSeconds ≤ (records.get i).payload.issuedAtUnixSeconds ∧
        evaluation.accepted.idxOf j < evaluation.accepted.idxOf i := by
    intro i hi
    rw [heval] at hi ⊢
    exact authorizer_of_grant hgroups hi.2 hi.1
  -- the links lead down in the order of acceptance
  have hfuel : evaluation.accepted.idxOf start < records.length + 1 := by
    have hlength : evaluation.accepted.length ≤ records.length := by
      simpa using hnodup.length_le_card
    have := List.idxOf_lt_length_of_mem hstart
    omega
  obtain ⟨before, hfollow, hall, hchain, first, hhead, hend⟩ := follow_eq_ok
    (fun i => i ∈ evaluation.accepted ∧ ¬(records.get i).payload.revoked)
    (fun i => evaluation.accepted.idxOf i)
    (fun i hi j hj => ⟨⟨((hlinks i hi).2 j hj).1, ((hlinks i hi).2 j hj).2.1⟩,
      ((hlinks i hi).2 j hj).2.2.2.2⟩)
    ⟨hstart, hgrant⟩ hfuel (fun j hj => absurd hj List.not_mem_nil)
  refine ⟨before, hfollow, fun i hi => (hall i hi).1, ?_, first, hhead, ?_⟩
  · refine List.IsChain.imp_of_mem_imp ?_ hchain
    intro i j _ hj hlink
    obtain ⟨-, -, hmember, hissued, -⟩ := (hlinks j (hall j hj)).2 i hlink
    exact ⟨hmember.symm, hissued⟩
  · exact (hlinks first (hall first (List.mem_of_mem_head? hhead))).1 hend

/-- **Trust paths are well founded.**  Looking for the trust path of a member of a valid history never
meets a record twice.  A path that is found is not empty and ends with the record that the member's
active state rests on; the issuer of its first record is a trust anchor; its records were accepted,
each is issued by the member that the one before it is about, and their issue times do not
decrease. -/
theorem trust_path_well_founded (env : Platform T K) (records : List SignedMembershipRecord)
    (networkName memberPeer : String) (now : ℕ)
    (hvalid : validateMembershipRecordHistory env records networkName = .ok ()) :
    ∃ anchors evaluation result, membershipTrustAnchors env records networkName = .ok anchors ∧
      evaluateMembershipLedgerAt records anchors now = .ok evaluation ∧
      overlayMembershipTrustPathAt env records memberPeer now = .ok result ∧
      (result.isSome = true ↔ ∃ state, evaluation.states.get? memberPeer = some state ∧
        state.active = true) ∧
      ∀ path, result = some path → ∃ indices : List (Fin records.length),
        path = indices.map records.get ∧
        (∃ state, evaluation.states.get? memberPeer = some state ∧
          indices.getLast? = some state.recordIndex) ∧
        (∃ first, path.head? = some first ∧ first.payload.issuerPeer ∈ anchors) ∧
        (∀ i ∈ indices, i ∈ evaluation.accepted) ∧
        path.IsChain (fun before after => after.payload.issuerPeer = before.payload.memberPeer) ∧
        path.Pairwise fun before after =>
          before.payload.issuedAtUnixSeconds ≤ after.payload.issuedAtUnixSeconds := by
  have hfirst := valid_firstNetworkName hvalid
  have hanchors : membershipTrustAnchors env records networkName = .ok (trustRoots records) :=
    membershipTrustAnchors_eq_ok.mpr ⟨hvalid, rfl⟩
  have hanchors' : membershipTrustAnchors env records (firstNetworkName records)
      = .ok (trustRoots records) := membershipTrustAnchors_eq_ok.mpr ⟨hfirst, rfl⟩
  have hevaluates := evaluate_of_valid hvalid (trustRoots records) now
  generalize heval : evaluateOrdered records.get (trustRoots records) (orderedIndices records now) now
    = evaluation at hevaluates
  have hpath : overlayMembershipTrustPathAt env records memberPeer now =
      match (evaluation.states.get? memberPeer).filter (·.active) with
      | none => .ok none
      | some state =>
          match follow (authorizerOf evaluation) (records.length + 1) [] (some state.recordIndex) with
          | .error index => .error (.untrustedIssuer (records.get index).payload.issuerPeer)
          | .ok path => .ok (some (path.map records.get)) := by
    rw [overlayMembershipTrustPathAt, hanchors']
    simp only [bind, Except.bind, hevaluates]
    rfl
  cases hstate : (evaluation.states.get? memberPeer).filter (·.active) with
  | none =>
    rw [hstate] at hpath
    refine ⟨_, evaluation, none, hanchors, hevaluates, hpath, ⟨by simp, ?_⟩, by simp⟩
    rintro ⟨state, hget, hactive⟩
    rw [hget, Option.filter_some_pos hactive] at hstate
    cases hstate
  | some state =>
    obtain ⟨hget, hactive⟩ := Option.filter_eq_some_iff.mp hstate
    have hpayloads : ∀ r ∈ records, ValidPayload r.payload := fun r hr =>
      (verifiedRecord_of_verify (verify_of_valid hvalid r hr)).payload
    obtain ⟨haccepted, -, hgrant⟩ : StateSound evaluation memberPeer state records.get := by
      rw [← heval, evaluateOrdered_eq_runSteps] at hget ⊢
      exact statesSound_runSteps _ memberPeer state hget
    obtain ⟨before, hfollow, hall, hchain, first, hhead, hroot⟩ :=
      follow_authorizers hpayloads heval.symm haccepted (hgrant hactive).1
    rw [hstate] at hpath
    simp only [hfollow] at hpath
    refine ⟨_, evaluation, _, hanchors, hevaluates, hpath, ⟨fun _ => ⟨state, hget, hactive⟩, fun _ => rfl⟩,
      fun path h => ⟨before ++ [state.recordIndex], (Option.some.inj h).symm, ⟨state, hget, by simp⟩, ?_,
        hall, ?_, ?_⟩⟩
    all_goals obtain rfl := Option.some.inj h
    · exact ⟨records.get first, by rw [List.head?_map, hhead]; rfl, hroot⟩
    · exact (List.isChain_map records.get).mpr (hchain.imp fun _ _ h => h.1)
    · have htrans : IsTrans SignedMembershipRecord fun before after =>
          before.payload.issuedAtUnixSeconds ≤ after.payload.issuedAtUnixSeconds :=
        ⟨fun _ _ _ => le_trans⟩
      exact List.isChain_iff_pairwise.mp ((List.isChain_map records.get).mpr (hchain.imp fun _ _ h => h.2))

/-- `B` is admitted until second 20, renewed until 30 and then until 100; between its admission and
the first renewal it admits `C`. -/
def renewalHistory : List SignedMembershipRecord :=
  [sampleGrant .A .A 1 1 1 none "A1", sampleGrant .A .B 1 1 10 (some 20) "A2",
    sampleGrant .B .C 1 1 12 none "B1", sampleGrant .A .B 1 2 15 (some 30) "A3",
    sampleGrant .A .B 1 3 25 (some 100) "A4"]

/-- The path of `C` in the history with renewals: the grant of `A` that was in effect when `B` admitted
`C`, not the one that is in effect now. -/
theorem renewal_trust_path :
    overlayMembershipTrustPathAt samplePlatform renewalHistory SamplePeer.C.text 50
      = .ok (some (renewalHistory.take 3)) ∧
    ∃ anchors, membershipTrustAnchors samplePlatform renewalHistory "lab" = .ok anchors ∧
      ∃ first, (renewalHistory.take 3).head? = some first ∧ first.payload.issuerPeer ∈ anchors := by
  have hpath : overlayMembershipTrustPathAt samplePlatform renewalHistory SamplePeer.C.text 50
      = .ok (some (renewalHistory.take 3)) := by decide +kernel
  obtain ⟨anchors, _, result, hanchors, -, hresult, -, hwell⟩ := trust_path_well_founded
    samplePlatform renewalHistory "lab" SamplePeer.C.text 50 (by decide +kernel)
  obtain ⟨_, -, -, hfirst, -⟩ := hwell (renewalHistory.take 3)
    (Except.ok.inj (hresult.symm.trans hpath))
  exact ⟨hpath, anchors, hanchors, hfirst⟩

end P2pVpn.Membership
