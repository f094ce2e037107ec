/-
# Independence of the storage order

The order in which a node stores its records carries no meaning.  The replay sorts the records,
and on a conflict-free list the event order is total, so a list and a permutation of it are
replayed as one and the same sequence of records.  With that, the effective membership and the
audit are functions of the set of records.
-/
import P2pVpn.Membership.Projection
import P2pVpn.Membership.Sample

namespace P2pVpn.Membership

open Lib

/-! ## The event order -/

instance : IsTrans SignedMembershipRecord membershipEventOrder :=
  ⟨fun _ _ _ h h' => le_trans h h'⟩

instance : Std.Total membershipEventOrder := ⟨fun a b => le_total (membershipEventKey a) (membershipEventKey b)⟩

/-- Records that the event order does not tell apart have one relationship and one version. -/
lemma sameVersion_of_eventOrder {a b : SignedMembershipRecord} (h : membershipEventOrder a b)
    (h' : membershipEventOrder b a) : sameVersion a b := by
  have hkey : membershipEventKey a = membershipEventKey b := le_antisymm h h'
  simp only [membershipEventKey, toLex_inj, Prod.mk.injEq] at hkey
  obtain ⟨-, -, -, hversion, hissuer, hmember, -⟩ := hkey
  exact sameVersion_iff.mpr ⟨Prod.ext hissuer hmember, hversion⟩

/-! ## Replaying the records themselves -/

/-- The records issued by `now`, in replay order. -/
def orderedRecords (records : List SignedMembershipRecord) (now : ℕ) :
    List SignedMembershipRecord :=
  (records.filter fun r => r.payload.issuedAtUnixSeconds ≤ now).insertionSort membershipEventOrder

/-- The replay with every record as its own name. -/
def replayRecords (records : List SignedMembershipRecord) (trustedRoots : Finset String)
    (now : ℕ) : MembershipLedgerEvaluation SignedMembershipRecord :=
  evaluateOrdered id trustedRoots (orderedRecords records now) now

lemma map_orderedIndices (records : List SignedMembershipRecord) (now : ℕ) :
    (orderedIndices records now).map records.get = orderedRecords records now := by
  unfold orderedIndices orderedRecords
  rw [List.map_insertionSort _ membershipEventOrder _ _ fun _ _ _ _ => Iff.rfl]
  congr 1
  conv_rhs => rw [← List.map_get_finRange records, List.filter_map]
  rfl

lemma renames_replayRecords (records : List SignedMembershipRecord) (trustedRoots : Finset String)
    (now : ℕ) :
    Renames records.get
      (evaluateOrdered records.get trustedRoots (orderedIndices records now) now)
      (replayRecords records trustedRoots now) := by
  have hrename : ∀ i, id (records.get i) = records.get i := fun _ => rfl
  unfold replayRecords
  rw [← map_orderedIndices]
  exact renames_evaluateOrdered hrename _ _

variable {records : List SignedMembershipRecord} {networkName : String}

lemma mem_orderedRecords {now : ℕ} {r : SignedMembershipRecord} :
    r ∈ orderedRecords records now ↔ r ∈ records ∧ r.payload.issuedAtUnixSeconds ≤ now := by
  simp [orderedRecords]

lemma orderedRecords_pairwise (records : List SignedMembershipRecord) (now : ℕ) :
    (orderedRecords records now).Pairwise membershipEventOrder :=
  List.pairwise_insertionSort _ _

/-- Two sorted lists with the same records of a conflict-free list are equal. -/
lemma eq_of_perm_of_conflictFree {l l' : List SignedMembershipRecord} (hfree : ConflictFree records)
    (hsub : l ⊆ records) (hperm : l.Perm l') (hl : l.Pairwise membershipEventOrder)
    (hl' : l'.Pairwise membershipEventOrder) : l = l' := by
  refine List.Perm.eq_of_pairwise ?_ hl hl' hperm
  intro a b ha hb hab hba
  exact hfree a (hsub ha) b (hsub (hperm.mem_iff.mpr hb)) (sameVersion_of_eventOrder hab hba)

section Permuted

variable {records' : List SignedMembershipRecord} (hperm : records.Perm records')
include hperm

/-- Records that the order tells apart are replayed in one order, however they are stored. -/
lemma orderedRecords_of_perm (heq : ∀ a ∈ records, ∀ b ∈ records, membershipEventOrder a b →
    membershipEventOrder b a → a = b) (now : ℕ) :
    orderedRecords records now = orderedRecords records' now := by
  refine List.Perm.eq_of_pairwise (fun a b ha hb => ?_) (orderedRecords_pairwise records now)
    (orderedRecords_pairwise records' now) ((List.perm_insertionSort _ _).trans
      ((hperm.filter _).trans (List.perm_insertionSort _ _).symm))
  exact heq a (mem_orderedRecords.mp ha).1 b (hperm.mem_iff.mpr (mem_orderedRecords.mp hb).1)

/-- A conflict-free list and its permutations are replayed in the same order. -/
lemma orderedRecords_perm (hfree : ConflictFree records) (now : ℕ) :
    orderedRecords records now = orderedRecords records' now :=
  orderedRecords_of_perm hperm (fun a ha b hb hab hba => hfree a ha b hb
    (sameVersion_of_eventOrder hab hba)) now

lemma replayRecords_of_perm {now : ℕ}
    (hordered : orderedRecords records now = orderedRecords records' now) :
    replayRecords records' (trustRoots records') now
      = replayRecords records (trustRoots records) now := by
  have hroots : trustRoots records' = trustRoots records :=
    trustRoots_congr (fun r hr => ⟨r, hperm.mem_iff.mpr hr, rfl⟩)
      fun r hr => ⟨r, hperm.mem_iff.mp hr, rfl⟩
  rw [replayRecords, replayRecords, hroots, hordered]

end Permuted

/-! ## The views of a valid history -/

variable {T K : Type} {env : Platform T K}

lemma validateRecord_eq_ok [DecidableEq T] {r : SignedMembershipRecord} :
    validateRecord env networkName r = .ok () ↔
      r.payload.networkName = networkName ∧ r.verify env = .ok () := by
  simp only [validateRecord, ensureRecordNetwork, bind_eq_ok, refuseIf_eq_ok, not_not]
  exact exists_const Unit

/-- The replay of verified records satisfies what the views need. -/
lemma verifiedEvaluation_replayRecords [DecidableEq T]
    (hverify : ∀ r ∈ records, r.verify env = .ok ()) (trustedRoots : Finset String) (now : ℕ) :
    VerifiedEvaluation env id (replayRecords records trustedRoots now) := by
  refine ⟨?_, ?_, ?_⟩
  · rw [replayRecords, evaluateOrdered_eq_runSteps]
    exact statesSound_runSteps _
  · rw [replayRecords, evaluateOrdered_eq_runSteps]
    exact admissionsSound_runSteps _
  · intro r hr
    have hmem := accepted_subset_ordered _ _ hr
    exact verifiedRecord_of_verify (hverify r (mem_orderedRecords.mp hmem).1)

lemma distinctStates_replayRecords (haddresses : DistinctAddresses env records)
    (trustedRoots : Finset String) (now : ℕ) :
    DistinctStates env (replayRecords records trustedRoots now) := by
  have hsound : StatesSound id (replayRecords records trustedRoots now) := by
    rw [replayRecords, evaluateOrdered_eq_runSteps]
    exact statesSound_runSteps _
  have hmem : ∀ m state, (replayRecords records trustedRoots now).states.get? m = some state →
      state.recordIndex ∈ records ∧ state.recordIndex.payload.memberPeer = m := by
    intro m state hstate
    have h := hsound m state hstate
    exact ⟨(mem_orderedRecords.mp (accepted_subset_ordered _ _ h.accepted)).1, h.member⟩
  intro m m' state state' hstate hstate' heq
  obtain ⟨hr, rfl⟩ := hmem m state hstate
  obtain ⟨hr', rfl⟩ := hmem m' state' hstate'
  exact haddresses _ hr _ hr' heq

section Valid

variable [DecidableEq T] (hvalid : validateMembershipRecordHistory env records networkName = .ok ())
include hvalid

lemma evaluate_of_valid (trustedRoots : Finset String) (now : ℕ) :
    evaluateMembershipLedgerAt records trustedRoots now
      = .ok (evaluateOrdered records.get trustedRoots (orderedIndices records now) now) := by
  obtain ⟨-, -, indices, hlatest⟩ := validateHistory_eq_ok.mp hvalid
  simp only [evaluateMembershipLedgerAt, hlatest]
  rfl

/-- The membership under given roots is read off the replay of the records. -/
lemma effectiveMembershipUnder_eq
    (order : KeyOrder String) (trustedRoots : Finset String) (now : ℕ) :
    effectiveMembershipUnder env order records trustedRoots now
      = effectiveMembershipFromEvaluation env id (replayRecords records trustedRoots now) order := by
  rw [effectiveMembership_rename (fun _ => rfl) (renames_replayRecords records _ now)]
  simp only [effectiveMembershipUnder, evaluate_of_valid hvalid]
  rfl

/-- The effective membership of a valid history is read off the replay of its records. -/
lemma effectiveMembershipAt_eq (order : KeyOrder String) (now : ℕ) :
    effectiveMembershipAt env order records networkName now
      = effectiveMembershipFromEvaluation env id
          (replayRecords records (trustRoots records) now) order := by
  have hanchors := membershipTrustAnchors_eq_ok.mpr ⟨hvalid, rfl⟩
  rw [← effectiveMembershipUnder_eq hvalid]
  simp only [effectiveMembershipAt, hvalid, hanchors]
  rfl

lemma verify_of_valid
    :
    ∀ r ∈ records, r.verify env = .ok () := fun r hr =>
  (validateRecord_eq_ok.mp ((validateHistory_eq_ok.mp hvalid).2.1 r hr)).2

/-- Under any roots, a valid history has an effective membership, made of its states. -/
lemma exists_effectiveMembershipUnder
    (haddresses : DistinctAddresses env records) (order : KeyOrder String)
    (trustedRoots : Finset String) (now : ℕ) :
    ∃ membership, effectiveMembershipUnder env order records trustedRoots now = .ok membership ∧
      Projects env id (replayRecords records trustedRoots now)
        (order.entries (replayRecords records trustedRoots now).states) membership := by
  rw [effectiveMembershipUnder_eq hvalid]
  exact effectiveMembership_projects
    (verifiedEvaluation_replayRecords (verify_of_valid hvalid) trustedRoots now)
    (distinctStates_replayRecords haddresses trustedRoots now) order

lemma effectiveMembershipAt_eq_under (order : KeyOrder String) (now : ℕ) :
    effectiveMembershipAt env order records networkName now
      = effectiveMembershipUnder env order records (trustRoots records) now := by
  rw [effectiveMembershipAt_eq hvalid, effectiveMembershipUnder_eq hvalid]

end Valid

lemma membershipAuditAt_eq [LinearOrder T]
    (hvalid : validateMembershipRecordHistory env records networkName = .ok ())
    (order : KeyOrder String) (now : ℕ) :
    membershipAuditAt env order records networkName now
      = membershipAuditFromEvaluation env id
          (replayRecords records (trustRoots records) now) order now := by
  have hanchors := membershipTrustAnchors_eq_ok.mpr ⟨hvalid, rfl⟩
  rw [membershipAudit_rename (fun _ => rfl) (renames_replayRecords records _ now)]
  simp only [membershipAuditAt, hvalid, hanchors, evaluate_of_valid hvalid]
  rfl

lemma valid_of_conflictFree [DecidableEq T] (hlen : records.length ≤ maxMembershipRecords)
    (hverify : ∀ r ∈ records, r.verify env = .ok ())
    (hnetwork : ∀ r ∈ records, r.payload.networkName = networkName) (hfree : ConflictFree records) :
    validateMembershipRecordHistory env records networkName = .ok () :=
  validateHistory_eq_ok.mpr ⟨hlen, fun r hr => validateRecord_eq_ok.mpr
    ⟨hnetwork r hr, hverify r hr⟩, latest_ok_of_conflictFree hfree⟩

/-- **Storage order does not matter.**  A conflict-free list of verified records of one network
and any permutation of it have the same effective membership and the same audit, whatever the
order in which the hash maps are walked. -/
theorem effective_membership_of_permuted_records [LinearOrder T] (env : Platform T K)
    (networkName : String) (now : ℕ) (records records' : List SignedMembershipRecord)
    (order order' : KeyOrder String) (hlen : records.length ≤ maxMembershipRecords)
    (hverify : ∀ r ∈ records, r.verify env = .ok ())
    (hnetwork : ∀ r ∈ records, r.payload.networkName = networkName) (hfree : ConflictFree records)
    (haddresses : DistinctAddresses env records) (hperm : records.Perm records') :
    (∃ membership,
      effectiveMembershipAt env order records networkName now = .ok membership ∧
      effectiveMembershipAt env order' records' networkName now = .ok membership) ∧
    ∃ audit,
      membershipAuditAt env order records networkName now = .ok audit ∧
      membershipAuditAt env order' records' networkName now = .ok audit := by
  have hvalid : validateMembershipRecordHistory env records networkName = .ok () :=
    valid_of_conflictFree hlen hverify hnetwork hfree
  have hvalid' : validateMembershipRecordHistory env records' networkName = .ok () :=
    valid_of_conflictFree (hperm.length_eq ▸ hlen)
      (fun r hr => hverify r (hperm.mem_iff.mpr hr))
      (fun r hr => hnetwork r (hperm.mem_iff.mpr hr))
      fun a ha b hb => hfree a (hperm.mem_iff.mpr ha) b (hperm.mem_iff.mpr hb)
  have hreplay := replayRecords_of_perm hperm (orderedRecords_perm hperm hfree now)
  have hev := verifiedEvaluation_replayRecords hverify (trustRoots records) now
  have hdistinct := distinctStates_replayRecords haddresses (trustRoots records) now
  rw [effectiveMembershipAt_eq hvalid, effectiveMembershipAt_eq hvalid', membershipAuditAt_eq hvalid,
    membershipAuditAt_eq hvalid', hreplay]
  refine ⟨?_, membershipAudit_order hev hdistinct order order' now⟩
  obtain ⟨membership, hmembership, -⟩ := effectiveMembership_projects hev hdistinct order
  exact ⟨membership, hmembership, by
    rw [← effectiveMembership_order hev hdistinct order order', hmembership]⟩

/-- Reversing the list of a small network changes nothing. -/
theorem effective_membership_of_reversed_sample :
    (∃ membership,
      effectiveMembershipAt samplePlatform .sorted sampleHistory "lab" 20 = .ok membership ∧
      effectiveMembershipAt samplePlatform .sorted sampleHistory.reverse "lab" 20
        = .ok membership) ∧
    ∃ audit,
      membershipAuditAt samplePlatform .sorted sampleHistory "lab" 20 = .ok audit ∧
      membershipAuditAt samplePlatform .sorted sampleHistory.reverse "lab" 20 = .ok audit :=
  effective_membership_of_permuted_records samplePlatform "lab" 20 sampleHistory
    sampleHistory.reverse .sorted .sorted (by decide) (by decide +kernel) (by decide)
    (by decide +kernel) (by unfold DistinctAddresses; decide +kernel)
    (List.reverse_perm sampleHistory).symm

end P2pVpn.Membership
