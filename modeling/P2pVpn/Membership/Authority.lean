/-
# Trust anchors across merges

The trust anchors of a history are inferred from its records, so a merge can change them.  A
self-issued grant is only accepted from a root, but a self-issued revocation is accepted from any
active member, and both count as explicit root records afterwards; in a history without
self-issued records, moreover, every issuer is an anchor.  This file says which runs of merges
keep the anchors within those of the initial history, and for which kinds of records a merge that
admits them under the old anchors admits them under the new ones as well.
-/
import P2pVpn.Membership.Dominance
import P2pVpn.Membership.RootGrowth
import P2pVpn.Membership.Sample

namespace P2pVpn.Membership

open Lib

variable {T K : Type} [DecidableEq T] {env : Platform T K}

/-! ## What a merge does to the roots -/

variable {records added incoming : List SignedMembershipRecord} {networkName : String}

/-- A self-issued grant that is accepted comes from a root. -/
lemma mem_roots_of_accepted_selfIssued {trustedRoots : Finset String} {now : ℕ}
    {evaluation : MembershipLedgerEvaluation (Fin records.length)}
    (heval : evaluateMembershipLedgerAt records trustedRoots now = .ok evaluation)
    {index : Fin records.length} (haccepted : index ∈ evaluation.accepted)
    (hgrant : ¬ (records.get index).payload.revoked) (hself : (records.get index).selfIssued) :
    (records.get index).payload.issuerPeer ∈ trustedRoots := by
  rw [evaluate_eq_ok heval] at haccepted
  obtain ⟨states, hstates⟩ := authorized_of_accepted haccepted
  rw [if_neg hgrant, issuerIsActiveOrGenesis, if_pos (by
    simpa [SignedMembershipRecord.selfIssued] using hself)] at hstates
  simp only [Bool.and_eq_true, decide_eq_true_eq] at hstates
  exact hstates.1

lemma trustRoots_append_subset_iff {R : Finset String} (hR : trustRoots records ⊆ R) :
    trustRoots (records ++ added) ⊆ R ↔
      (∀ r ∈ added, r.selfIssued → r.payload.issuerPeer ∈ R) ∧
      (hasSelfIssued (records ++ added) ∨ ∀ r ∈ added, r.payload.issuerPeer ∈ R) := by
  by_cases hself : hasSelfIssued (records ++ added)
  · -- The roots are the issuers of self-issued records, and those of the old list are in `R`.
    have hold : ∀ r ∈ records, r.selfIssued → r.payload.issuerPeer ∈ R := fun r hr hrs =>
      hR ((mem_trustRoots_of_hasSelfIssued (hasSelfIssued_iff.mpr ⟨r, hr, hrs⟩)).mpr
        ⟨r, hr, hrs, rfl⟩)
    refine ⟨fun h => ⟨fun r hr hrs => ?_, Or.inl hself⟩, fun h peer hpeer => ?_⟩
    · exact h ((mem_trustRoots_of_hasSelfIssued hself).mpr
        ⟨r, List.mem_append_right _ hr, hrs, rfl⟩)
    · obtain ⟨r, hr, hrs, rfl⟩ := (mem_trustRoots_of_hasSelfIssued hself).mp hpeer
      rcases List.mem_append.mp hr with hr | hr
      · exact hold r hr hrs
      · exact h.1 r hr hrs
  · have hnone : ∀ r ∈ records ++ added, ¬ r.selfIssued := fun r hr hrs =>
      hself (hasSelfIssued_iff.mpr ⟨r, hr, hrs⟩)
    have hold : ∀ r ∈ records, r.payload.issuerPeer ∈ R := fun r hr =>
      hR ((mem_trustRoots_of_not_hasSelfIssued fun h => by
        obtain ⟨x, hx, hxs⟩ := hasSelfIssued_iff.mp h
        exact hnone x (List.mem_append_left _ hx) hxs).mpr ⟨r, hr, rfl⟩)
    refine ⟨fun h => ⟨fun r hr hrs => ?_, Or.inr fun r hr => ?_⟩, fun h peer hpeer => ?_⟩
    · exact absurd hrs (hnone r (List.mem_append_right _ hr))
    · exact h ((mem_trustRoots_of_not_hasSelfIssued hself).mpr
        ⟨r, List.mem_append_right _ hr, rfl⟩)
    · obtain ⟨r, hr, rfl⟩ := (mem_trustRoots_of_not_hasSelfIssued hself).mp hpeer
      rcases List.mem_append.mp hr with hr | hr
      · exact hold r hr
      · exact h.2.resolve_left hself r hr

/-- A batch brings no root beyond `R` into a history: its new self-issued revocations come from
members of `R`, and so do all its new records as long as no self-issued record is around. -/
def AddsNoRoot (R : Finset String) (records incoming : List SignedMembershipRecord) : Prop :=
  (∀ r ∈ incoming, r ∉ records → r.selfIssued → r.payload.revoked →
      r.payload.issuerPeer ∈ R) ∧
    (hasSelfIssued (records ++ incoming) ∨
      ∀ r ∈ incoming, r ∉ records → r.payload.issuerPeer ∈ R)

/-- The records a merge adds are the incoming ones that were not there. -/
lemma MergeOutcome.mem_added_iff {now maxRecords : ℕ} {trustedIssuers : Finset String}
    (h : MergeOutcome env records incoming added networkName now trustedIssuers maxRecords)
    {r : SignedMembershipRecord} : r ∈ added ↔ r ∈ incoming ∧ r ∉ records := by
  constructor
  · intro hr
    exact ⟨h.added_sublist.subset hr, fun hmem =>
      h.fresh r hr r hmem (sameVersion_iff.mpr ⟨rfl, rfl⟩)⟩
  · rintro ⟨hr, hnot⟩
    exact (List.mem_append.mp (h.incoming_subset hr)).resolve_left hnot

/-- Within the record limit, the merged history is valid. -/
lemma MergeOutcome.valid {now maxRecords : ℕ} {trustedIssuers : Finset String}
    (h : MergeOutcome env records incoming added networkName now trustedIssuers maxRecords)
    (hmax : maxRecords ≤ maxMembershipRecords) :
    validateMembershipRecordHistory env (records ++ added) networkName = .ok () := by
  obtain ⟨evaluation, heval, -⟩ := h.accepted
  simp only [evaluateMembershipLedgerAt, bind_eq_ok] at heval
  obtain ⟨indices, hlatest, -⟩ := heval
  refine validateHistory_eq_ok.mpr ⟨h.length_le.trans hmax, ?_, indices, hlatest⟩
  intro r hr
  rcases List.mem_append.mp hr with hr | hr
  · exact h.records_valid r hr
  · exact h.incoming_valid r (h.added_sublist.subset hr)

/-- **One merge.**  Within any set that holds its trusted issuers, a merge keeps the roots exactly
when the batch adds no root. -/
lemma trustRoots_merge_subset_iff {now maxRecords : ℕ} {R : Finset String}
    (h : MergeOutcome env records incoming added networkName now (trustRoots records) maxRecords)
    (hR : trustRoots records ⊆ R) :
    trustRoots (records ++ added) ⊆ R ↔ AddsNoRoot R records incoming := by
  obtain ⟨evaluation, heval, haccepted⟩ := h.accepted
  -- A new self-issued grant is accepted, hence from an old root.
  have hgrant : ∀ r ∈ added, r.selfIssued → ¬ r.payload.revoked → r.payload.issuerPeer ∈ R := by
    intro r hr hrs hrg
    obtain ⟨k, hk⟩ := List.get_of_mem hr
    have hlt : records.length + k.val < (records ++ added).length := by
      rw [List.length_append]
      exact Nat.add_lt_add_left k.isLt _
    have hget : (records ++ added).get ⟨records.length + k.val, hlt⟩ = r := by
      rw [← hk]
      simp
    have hroot := mem_roots_of_accepted_selfIssued heval (haccepted ⟨_, hlt⟩ (Nat.le_add_right ..))
    rw [hget] at hroot
    exact hR (hroot hrg hrs)
  have hself : hasSelfIssued (records ++ added) ↔ hasSelfIssued (records ++ incoming) := by
    simp only [hasSelfIssued_iff, List.mem_append]
    constructor
    · rintro ⟨r, hr | hr, hrs⟩
      · exact ⟨r, Or.inl hr, hrs⟩
      · exact ⟨r, Or.inr (h.added_sublist.subset hr), hrs⟩
    · rintro ⟨r, hr | hr, hrs⟩
      · exact ⟨r, Or.inl hr, hrs⟩
      · exact ⟨r, List.mem_append.mp (h.incoming_subset hr), hrs⟩
  rw [trustRoots_append_subset_iff hR, AddsNoRoot, hself]
  refine and_congr ⟨fun hadd r hr hnot hrs _ => ?_, fun hadd r hr hrs => ?_⟩
    (or_congr Iff.rfl ⟨fun hadd r hr hnot => ?_, fun hadd r hr => ?_⟩)
  · exact hadd r (h.mem_added_iff.mpr ⟨hr, hnot⟩) hrs
  · by_cases hrev : r.payload.revoked
    · obtain ⟨hin, hnot⟩ := h.mem_added_iff.mp hr
      exact hadd r hin hnot hrs hrev
    · exact hgrant r hr hrs hrev
  · exact hadd r (h.mem_added_iff.mpr ⟨hr, hnot⟩)
  · obtain ⟨hin, hnot⟩ := h.mem_added_iff.mp hr
    exact hadd r hin hnot

/-! ## Runs of merges -/

/-- The arguments of a merge that the caller chooses. -/
structure MergeCall where
  incoming : List SignedMembershipRecord
  nowUnixSeconds : ℕ
  maxRecords : ℕ

/-- A merge with the trust anchors of the history it merges into. -/
def mergeWithOwnAnchors (env : Platform T K) (networkName : String)
    (records : List SignedMembershipRecord) (call : MergeCall) :
    Except MembershipRecordError (List SignedMembershipRecord) := do
  let anchors ← membershipTrustAnchors env records networkName
  let result ← mergeMembershipRecordsAt env records call.incoming networkName call.nowUnixSeconds
    anchors call.maxRecords
  pure result.1

/-- A run of successful merges from `start`: the histories merged into with the calls, and the
history it ends with. -/
inductive MergeRun (env : Platform T K) (networkName : String)
    (start : List SignedMembershipRecord) :
    List (List SignedMembershipRecord × MergeCall) → List SignedMembershipRecord → Prop
  | nil : MergeRun env networkName start [] start
  | snoc {steps : List (List SignedMembershipRecord × MergeCall)}
      {records merged : List SignedMembershipRecord} {call : MergeCall} :
      MergeRun env networkName start steps records →
      mergeWithOwnAnchors env networkName records call = .ok merged →
      MergeRun env networkName start (steps ++ [(records, call)]) merged

lemma outcome_of_mergeWithOwnAnchors {merged : List SignedMembershipRecord} {call : MergeCall}
    (h : mergeWithOwnAnchors env networkName records call = .ok merged) :
    ∃ added, merged = records ++ added ∧ MergeOutcome env records call.incoming added networkName
      call.nowUnixSeconds (trustRoots records) call.maxRecords := by
  simp only [mergeWithOwnAnchors, bind_eq_ok] at h
  obtain ⟨anchors, hanchors, ⟨merged', stats⟩, hmerge, hpure⟩ := h
  obtain rfl : merged' = merged := Except.ok.inj hpure
  obtain ⟨-, rfl⟩ := membershipTrustAnchors_eq_ok.mp hanchors
  exact mergeOutcome_of_merge hmerge

/-- All histories of a run have their anchors within `R`. -/
def AnchorsWithin (env : Platform T K) (networkName : String) (R : Finset String)
    (reached : List (List SignedMembershipRecord)) : Prop :=
  ∀ records ∈ reached, ∀ anchors, membershipTrustAnchors env records networkName = .ok anchors →
    anchors ⊆ R

lemma trustRoots_subset_of_run {start final : List SignedMembershipRecord}
    {steps : List (List SignedMembershipRecord × MergeCall)}
    (hrun : MergeRun env networkName start steps final) {R : Finset String}
    (hstart : trustRoots start ⊆ R) (hsteps : ∀ step ∈ steps, AddsNoRoot R step.1 step.2.incoming) :
    ∀ records ∈ steps.map Prod.fst ++ [final], trustRoots records ⊆ R := by
  induction hrun with
  | nil => simpa using hstart
  | @snoc steps records merged call _ hmerge ih =>
    have hbefore := ih fun step hstep => hsteps step (List.mem_append_left _ hstep)
    obtain ⟨added, rfl, houtcome⟩ := outcome_of_mergeWithOwnAnchors hmerge
    have hrecords : trustRoots records ⊆ R := hbefore records (by simp)
    have hmerged : trustRoots (records ++ added) ⊆ R :=
      (trustRoots_merge_subset_iff houtcome hrecords).mpr (hsteps (records, call) (by simp))
    intro l hl
    simp only [List.map_append, List.map_cons, List.map_nil, List.mem_append,
      List.mem_singleton] at hl
    rcases hl with (hl | rfl) | rfl
    · exact hbefore l (List.mem_append_left _ hl)
    · exact hrecords
    · exact hmerged

/-- **Which runs never create a root.**  In every run of merges whose batches add no root, each
with the anchors of the history it goes into, the anchors of every history reached are among those
of the initial one; and within the record limit there are no other runs with that property. -/
theorem merge_run_keeps_anchors_iff (env : Platform T K) (networkName : String)
    (start final : List SignedMembershipRecord)
    (steps : List (List SignedMembershipRecord × MergeCall)) (anchors : Finset String)
    (hstart : membershipTrustAnchors env start networkName = .ok anchors)
    (hrun : MergeRun env networkName start steps final) :
    ((∀ step ∈ steps, AddsNoRoot anchors step.1 step.2.incoming) →
      AnchorsWithin env networkName anchors (steps.map Prod.fst ++ [final])) ∧
    ((∀ step ∈ steps, step.2.maxRecords ≤ maxMembershipRecords) →
      AnchorsWithin env networkName anchors (steps.map Prod.fst ++ [final]) →
      ∀ step ∈ steps, AddsNoRoot anchors step.1 step.2.incoming) := by
  obtain ⟨-, rfl⟩ := membershipTrustAnchors_eq_ok.mp hstart
  constructor
  · intro hsteps records hrecords anchors hanchors
    obtain ⟨-, rfl⟩ := membershipTrustAnchors_eq_ok.mp hanchors
    exact trustRoots_subset_of_run hrun (Finset.Subset.refl _) hsteps records hrecords
  · intro hmax hwithin
    induction hrun with
    | nil => simp
    | @snoc steps records merged call _ hmerge ih =>
      have hbefore : ∀ step ∈ steps, AddsNoRoot (trustRoots start) step.1 step.2.incoming := by
        refine ih (fun step hstep => hmax step (List.mem_append_left _ hstep)) ?_
        intro l hl
        refine hwithin l ?_
        simp only [List.map_append, List.map_cons, List.map_nil, List.mem_append] at hl ⊢
        exact Or.inl hl
      intro step hstep
      rcases List.mem_append.mp hstep with hstep | hstep
      · exact hbefore step hstep
      · obtain rfl := List.mem_singleton.mp hstep
        obtain ⟨added, rfl, houtcome⟩ := outcome_of_mergeWithOwnAnchors hmerge
        have hrecords : trustRoots records ⊆ trustRoots start := by
          simp only [mergeWithOwnAnchors, bind_eq_ok] at hmerge
          obtain ⟨anchors, hanchors, -⟩ := hmerge
          obtain ⟨-, rfl⟩ := membershipTrustAnchors_eq_ok.mp hanchors
          exact hwithin records (by simp) _ hanchors
        have hmerged : trustRoots (records ++ added) ⊆ trustRoots start := by
          refine hwithin (records ++ added) (by simp) _ ?_
          exact membershipTrustAnchors_eq_ok.mpr
            ⟨houtcome.valid (hmax (records, call) (by simp)), rfl⟩
        exact (trustRoots_merge_subset_iff houtcome hrecords).mp hmerged

/-- A run that adds one delegated grant to a network with an explicit root. -/
theorem merge_run_keeps_anchors_sample :
    AnchorsWithin samplePlatform "lab" {SamplePeer.A.text}
      [sampleHistory.take 2, sampleHistory] := by
  have hrun : MergeRun samplePlatform "lab" (sampleHistory.take 2)
      [(sampleHistory.take 2, ⟨[sampleGrant .B .C 1 1 12 none "B1"], 12, 256⟩)] sampleHistory :=
    MergeRun.nil.snoc (by decide +kernel)
  refine (merge_run_keeps_anchors_iff samplePlatform "lab" _ _ _ _ (by decide +kernel) hrun).1 ?_
  intro step hstep
  obtain rfl := List.mem_singleton.mp hstep
  exact ⟨by decide +kernel, Or.inl (by decide +kernel)⟩

/-- `B`, whom the root `A` has admitted, resigns; the merge accepts that, and `B` is a root from
then on. -/
theorem resignation_creates_root :
    membershipTrustAnchors samplePlatform (sampleHistory.take 2) "lab"
      = .ok {SamplePeer.A.text} ∧
    MergeRun samplePlatform "lab" (sampleHistory.take 2)
      [(sampleHistory.take 2, ⟨[sampleResignation], 20, 256⟩)]
      (sampleHistory.take 2 ++ [sampleResignation]) ∧
    membershipTrustAnchors samplePlatform (sampleHistory.take 2 ++ [sampleResignation]) "lab"
      = .ok {SamplePeer.A.text, SamplePeer.B.text} ∧
    ¬ ({SamplePeer.A.text, SamplePeer.B.text} : Finset String) ⊆ {SamplePeer.A.text} :=
  ⟨by decide +kernel, MergeRun.nil.snoc (by decide +kernel), by decide +kernel, by decide +kernel⟩

/-! ## Accepted under the old anchors, accepted under the new -/

/-- A history makes a peer an anchor: it has a self-issued record of the peer, or a record of the
peer and no self-issued record at all. -/
def MakesAnchor (records : List SignedMembershipRecord) (peer : String) : Prop :=
  ∃ r ∈ records, r.payload.issuerPeer = peer ∧ (r.selfIssued ∨ ∀ x ∈ records, ¬ x.selfIssued)

lemma mem_trustRoots_iff {peer : String} :
    peer ∈ trustRoots records ↔ MakesAnchor records peer := by
  unfold MakesAnchor
  by_cases h : hasSelfIssued records
  · have hsome : ¬ ∀ x ∈ records, ¬ x.selfIssued := fun hnone => by
      obtain ⟨x, hx, hself⟩ := hasSelfIssued_iff.mp h
      exact hnone x hx hself
    simp only [mem_trustRoots_of_hasSelfIssued h, hsome, or_false, and_comm]
  · have hnone : ∀ x ∈ records, ¬ x.selfIssued := fun x hx hself =>
      h (hasSelfIssued_iff.mpr ⟨x, hx, hself⟩)
    simp only [mem_trustRoots_of_not_hasSelfIssued h, iff_true_intro hnone, or_true, and_true]

/-- The positions of the grants of one second. -/
def grantsInSecond (records : List SignedMembershipRecord) (t : ℕ) : List (Fin records.length) :=
  grantsOf records.get (issuedInSecond records.get (List.finRange records.length) t)

lemma mem_grantsInSecond {t : ℕ} {i : Fin records.length} :
    i ∈ grantsInSecond records t ↔ (records.get i).payload.revoked = false ∧
      (records.get i).payload.issuedAtUnixSeconds = t := by
  rw [grantsInSecond, mem_grantsOf, mem_issuedInSecond, Bool.not_eq_true]
  exact ⟨fun h => ⟨h.2, h.1.2⟩, fun h => ⟨⟨List.mem_finRange i, h.2⟩, h.1⟩⟩

/-- The merged history only adds anchors, and without surprises: no old anchor is lost, no issuer of
an old record becomes an anchor, and when a new anchor is itself granted in the second of one of its
own grants, then all grants of the second carry the overlay role and no two are one version of one
relationship. -/
structure AnchorsGrow (anchors : Finset String) (records merged : List SignedMembershipRecord) :
    Prop where
  kept : ∀ peer ∈ anchors, MakesAnchor merged peer
  silent : ∀ old ∈ records, MakesAnchor merged old.payload.issuerPeer →
    old.payload.issuerPeer ∈ anchors
  anyOrder : ∀ t, ∀ i ∈ grantsInSecond merged t, MakesAnchor merged (merged.get i).payload.issuerPeer →
    (merged.get i).payload.issuerPeer ∉ anchors → ∀ a ∈ grantsInSecond merged t,
      (merged.get a).payload.memberPeer = (merged.get i).payload.issuerPeer →
        AnyOrder merged.get (grantsInSecond merged t)

/-- **Merge acceptance and effective authority.**  When the merged history stays within the record
limit and its anchors grow without surprises, every record that a merge adds under the old anchors is
accepted by the evaluation under the merged history's own anchors at the same horizon. -/
theorem added_records_accepted_under_merged_anchors (env : Platform T K) (networkName : String)
    (now maxRecords : ℕ) (records incoming merged : List SignedMembershipRecord)
    (anchors : Finset String) (stats : MembershipRecordMergeStats)
    (hanchors : membershipTrustAnchors env records networkName = .ok anchors)
    (hmerge : mergeMembershipRecordsAt env records incoming networkName now anchors maxRecords
      = .ok (merged, stats))
    (hmax : maxRecords ≤ maxMembershipRecords) (hgrow : AnchorsGrow anchors records merged) :
    ∃ mergedAnchors evaluation,
      membershipTrustAnchors env merged networkName = .ok mergedAnchors ∧
      evaluateMembershipLedgerAt merged mergedAnchors (authorizationHorizon now) = .ok evaluation ∧
      ∀ index, records.length ≤ index.val → index ∈ evaluation.accepted := by
  obtain ⟨-, rfl⟩ := membershipTrustAnchors_eq_ok.mp hanchors
  obtain ⟨added, rfl, houtcome⟩ := mergeOutcome_of_merge hmerge
  have hvalid := houtcome.valid hmax
  have hpayload : ∀ r ∈ records ++ added, ValidPayload r.payload := fun r hr =>
    (verifiedRecord_of_verify (validateRecord_eq_ok.mp
      ((validateHistory_eq_ok.mp hvalid).2.1 r hr)).2).payload
  obtain ⟨evaluation, heval, haccepted⟩ := houtcome.accepted
  rw [evaluate_eq_ok heval, evaluateOrdered_indices_eq_clockReplay hpayload] at haccepted
  -- What a new anchor has issued is among the added records.
  have hnew : ∀ i : Fin (records ++ added).length, Promoted (trustRoots records)
      (trustRoots (records ++ added)) ((records ++ added).get i).payload.issuerPeer →
        records.length ≤ i.val := by
    intro i hpromoted
    by_contra hlt
    have hget : (records ++ added).get i = records.get ⟨i, Nat.lt_of_not_le hlt⟩ := by
      simp [List.getElem_append_left (Nat.lt_of_not_le hlt)]
    refine hpromoted.2 ?_
    rw [hget]
    exact hgrow.silent _ (List.get_mem _ _) (hget ▸ mem_trustRoots_iff.mp hpromoted.1)
  refine ⟨_, _, membershipTrustAnchors_eq_ok.mpr ⟨hvalid, rfl⟩,
    evaluate_of_valid hvalid _ _, fun index hindex => ?_⟩
  rw [evaluateOrdered_indices_eq_clockReplay hpayload]
  have hgroups := clockGroups_issuedInSecond (List.nodup_finRange (records ++ added).length)
    fun i _ => not_isExpiredAt_issue (hpayload _ (List.get_mem _ i))
  refine (clockReplay_grow hgroups ?_ ?_ ?_ index).mp (haccepted index hindex)
  · exact fun t _ i _ hroot => mem_trustRoots_iff.mpr (hgrow.kept _ hroot)
  · exact fun t _ i _ hpromoted => haccepted i (hnew i hpromoted)
  · exact fun t _ i hi hpromoted => hgrow.anyOrder t i hi (mem_trustRoots_iff.mp hpromoted.1)
      hpromoted.2

/-- A delegated grant in a network with an explicit root changes no anchor; in a network without one,
it makes its issuer an anchor, here in the very second in which the issuer is granted. -/
theorem added_sample_records_accepted :
    (∃ mergedAnchors evaluation,
      membershipTrustAnchors samplePlatform sampleHistory "lab" = .ok mergedAnchors ∧
      evaluateMembershipLedgerAt sampleHistory mergedAnchors (authorizationHorizon 12)
        = .ok evaluation ∧
      ∀ index, (sampleHistory.take 2).length ≤ index.val → index ∈ evaluation.accepted) ∧
    ∃ mergedAnchors evaluation,
      membershipTrustAnchors samplePlatform legacyDelegation "lab" = .ok mergedAnchors ∧
      evaluateMembershipLedgerAt legacyDelegation mergedAnchors (authorizationHorizon 20)
        = .ok evaluation ∧
      ∀ index, (legacyDelegation.take 1).length ≤ index.val → index ∈ evaluation.accepted := by
  constructor
  · refine added_records_accepted_under_merged_anchors samplePlatform "lab" 12 256
      (sampleHistory.take 2) [sampleGrant .B .C 1 1 12 none "B1"] sampleHistory {SamplePeer.A.text}
      ⟨1, 0⟩ (by decide +kernel) (by decide +kernel) (by decide) ?_
    have hanchor : ∀ peer, MakesAnchor sampleHistory peer ↔ peer ∈ ({SamplePeer.A.text} : Finset _) := by
      intro peer
      rw [← mem_trustRoots_iff, show trustRoots sampleHistory = {SamplePeer.A.text} by decide +kernel]
    exact ⟨fun peer h => (hanchor peer).mpr h, fun old _ h => (hanchor _).mp h,
      fun t i _ h hnot => absurd ((hanchor _).mp h) hnot⟩
  · refine added_records_accepted_under_merged_anchors samplePlatform "lab" 20 256
      (legacyDelegation.take 1) [sampleGrant .B .C 1 1 10 none "B1"] legacyDelegation
      {SamplePeer.A.text} ⟨1, 0⟩ (by decide +kernel) (by decide +kernel) (by decide) ?_
    have hadmits : ∀ i, (legacyDelegation.get i).payload.roles.contains .overlayMember = true := by
      decide +kernel
    have hdistinct : ∀ i j, i ≠ j →
        ¬ sameVersion (legacyDelegation.get i) (legacyDelegation.get j) = true := by decide +kernel
    refine ⟨fun peer h => ?_, fun old h _ => ?_, fun t i _ _ _ a _ _ => ?_⟩
    · rw [← mem_trustRoots_iff]
      exact (by decide +kernel : {SamplePeer.A.text} ⊆ trustRoots legacyDelegation) h
    · obtain rfl := List.mem_singleton.mp h
      exact Finset.mem_singleton_self _
    · exact ⟨fun i hi => (mem_grantsInSecond.mp hi).1, fun i _ => hadmits i,
        fun i _ j _ => hdistinct i j⟩

/-- Why the order of grants matters: in one second `C` is granted, takes the overlay role from `B`, and
`B` grants `C`.  The merge waits for `C` to be granted and accepts all; under the merged anchors `C` acts
at once, and the grant of `B` is refused, without any self-issued record. -/
example :
    let old := [sampleGrant .A .B 1 1 5 none "A1", sampleGrant .A .C 1 9 10 none "A2"]
    let demotion : SignedMembershipRecord :=
      ⟨{ (sampleGrant .C .B 1 2 10 none "C1").payload with roles := [.routeAuthority] }, "C1"⟩
    let batch := [demotion, sampleGrant .B .C 1 5 10 none "B1"]
    mergeMembershipRecordsAt samplePlatform old batch "lab" 20 {SamplePeer.A.text} 256
      = .ok (old ++ batch, ⟨2, 0⟩) ∧
    (evaluateMembershipLedgerAt (old ++ batch) (trustRoots (old ++ batch)) 80).map
        (·.accepted.map Fin.val)
      = .ok [0, 2, 1] := by
  decide +kernel

/-- In a network without self-issued records, a batch brings a grant of `A` and the resignation of
`B`.  The merge accepts both under the old anchors; under the merged anchors, of which `B` is the
only one, the grant is refused. -/
theorem added_grant_refused_under_merged_anchors :
    membershipTrustAnchors samplePlatform [sampleGrant .A .B 1 1 10 none "A1"] "lab"
      = .ok {SamplePeer.A.text} ∧
    mergeMembershipRecordsAt samplePlatform [sampleGrant .A .B 1 1 10 none "A1"]
        [sampleGrant .A .C 1 1 20 none "A2", sampleResignation] "lab" 20 {SamplePeer.A.text} 256
      = .ok ([sampleGrant .A .B 1 1 10 none "A1", sampleGrant .A .C 1 1 20 none "A2",
          sampleResignation], ⟨2, 0⟩) ∧
    ¬ ∃ mergedAnchors evaluation,
      membershipTrustAnchors samplePlatform [sampleGrant .A .B 1 1 10 none "A1",
        sampleGrant .A .C 1 1 20 none "A2", sampleResignation] "lab" = .ok mergedAnchors ∧
      evaluateMembershipLedgerAt [sampleGrant .A .B 1 1 10 none "A1",
        sampleGrant .A .C 1 1 20 none "A2", sampleResignation] mergedAnchors
        (authorizationHorizon 20) = .ok evaluation ∧
      ∀ index, 1 ≤ index.val → index ∈ evaluation.accepted := by
  refine ⟨by decide +kernel, by decide +kernel, ?_⟩
  rintro ⟨anchors, evaluation, hanchors, heval, haccepted⟩
  have hmerged : membershipTrustAnchors samplePlatform [sampleGrant .A .B 1 1 10 none "A1",
      sampleGrant .A .C 1 1 20 none "A2", sampleResignation] "lab" = .ok {SamplePeer.B.text} := by
    decide +kernel
  obtain rfl := Except.ok.inj (hmerged.symm.trans hanchors)
  have hmem := haccepted ⟨1, by decide⟩ le_rfl
  rw [evaluate_eq_ok heval] at hmem
  exact absurd hmem (by decide +kernel)

end P2pVpn.Membership
