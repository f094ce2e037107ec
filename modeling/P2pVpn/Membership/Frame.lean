/-
# What a revocation can change

With the roots held fixed, one more revocation in the last second of a history changes the state
of its own member and nothing else: grants are admitted before revocations, and the authority of
the other revocations of that second was settled before any of them is applied.

The roots are not held fixed, though.  They are inferred from the records, and a member that
resigns (a revocation of itself) becomes a root by that record, in a history without any
self-issued record even the only one.  `revocation_affects_only_target` says for which records this
changes nothing for the issuers of the history.
-/
import P2pVpn.Membership.Roots

namespace P2pVpn.Membership

open Lib

section Ledger

variable {ι : Type} {record : ι → SignedMembershipRecord} {trustedRoots : Finset String}
  {m₀ : String}

/-- Two evaluations agree about everybody but one member. -/
structure AgreeExceptMember (m₀ : String) (e e' : MembershipLedgerEvaluation ι) : Prop where
  states : ∀ m, m ≠ m₀ → e'.states.get? m = e.states.get? m
  firstAdmissions : e'.firstAdmissions = e.firstAdmissions
  currentAdmissions : e'.currentAdmissions = e.currentAdmissions

variable {e e' : MembershipLedgerEvaluation ι}

lemma AgreeExceptMember.expireGroup (h : AgreeExceptMember m₀ e e') (t : ℕ) :
    AgreeExceptMember m₀ (expireGroup record e t) (expireGroup record e' t) := by
  refine ⟨fun m hm => ?_, h.firstAdmissions, h.currentAdmissions⟩
  simp only [expireGroup_states, get?_expireMembersAt, h.states m hm]

variable [DecidableEq ι]

lemma AgreeExceptMember.foldl_acceptRevocation (h : AgreeExceptMember m₀ e e') (l : List ι) :
    AgreeExceptMember m₀ (l.foldl (acceptRevocation record) e)
      (l.foldl (acceptRevocation record) e') := by
  induction l generalizing e e' with
  | nil => exact h
  | cons i l ih =>
    exact ih ⟨fun m hm => get?_applyMembershipEvent_congr (h.states m hm) i, h.firstAdmissions,
      h.currentAdmissions⟩

/-- One more revocation in a second changes nothing about other members. -/
lemma evaluateSecond_insert_revocation (e : MembershipLedgerEvaluation ι) (t : ℕ)
    (pre post : List ι) {v : ι} (hv : (record v).payload.revoked) :
    AgreeExceptMember (record v).payload.memberPeer
      (evaluateSecond record trustedRoots e t (pre ++ post))
      (evaluateSecond record trustedRoots e t (pre ++ v :: post)) := by
  have hgrants : grantsOf record (pre ++ v :: post) = grantsOf record (pre ++ post) := by
    simp [grantsOf, hv]
  have hgrants : ∀ e, admitGrants record trustedRoots e (pre ++ v :: post)
      = admitGrants record trustedRoots e (pre ++ post) := by
    intro e
    simp only [admitGrants, hgrants]
  unfold evaluateSecond
  rw [hgrants]
  generalize admitGrants record trustedRoots (expireGroup record e t) (pre ++ post) = e₀
  have hsplit : ∀ l l' : List ι, authorizedRevocations record trustedRoots e₀.states (l ++ l')
      = authorizedRevocations record trustedRoots e₀.states l ++
        authorizedRevocations record trustedRoots e₀.states l' := by
    intro l l'
    simp [authorizedRevocations]
  simp only [revokeMembers, hsplit, List.foldl_append]
  generalize (authorizedRevocations record trustedRoots e₀.states pre).foldl
    (acceptRevocation record) e₀ = e₁
  have hcons : authorizedRevocations record trustedRoots e₀.states (v :: post)
      = (if issuerIsActive trustedRoots (record v).payload e₀.states then [v] else []) ++
        authorizedRevocations record trustedRoots e₀.states post := by
    simp only [authorizedRevocations, List.filter_cons, hv, if_true]
    split <;> rfl
  rw [hcons, List.foldl_append]
  refine AgreeExceptMember.foldl_acceptRevocation ?_ _
  split
  · exact ⟨fun m hm => get?_applyMembershipEvent_of_ne _ hm, rfl, rfl⟩
  · exact ⟨fun _ _ => rfl, rfl, rfl⟩

/-- From the second of the revocation on, the two clocks agree about other members. -/
lemma clockReplay_insert_revocation {group group' : ℕ → List ι} {T : ℕ} {pre post : List ι} {v : ι}
    (hv : (record v).payload.revoked) (hgroup : group T = pre ++ post)
    (hgroup' : group' T = pre ++ v :: post) (hsame : ∀ t, t ≠ T → group' t = group t)
    (hlast : ∀ t, T < t → group t = []) {now : ℕ} (hnow : T ≤ now) :
    AgreeExceptMember (record v).payload.memberPeer (clockReplay record trustedRoots group now)
      (clockReplay record trustedRoots group' now) := by
  have hbefore : ∀ t, t < T →
      clockReplay record trustedRoots group' t = clockReplay record trustedRoots group t := by
    intro t
    induction t with
    | zero =>
      intro ht
      rw [clockReplay, clockReplay, hsame 0 ht.ne]
    | succ t ih =>
      intro ht
      rw [clockReplay, clockReplay, ih (Nat.lt_of_succ_lt ht), hsame (t + 1) ht.ne]
  induction hnow with
  | refl =>
    cases T with
    | zero =>
      rw [clockReplay, clockReplay, hgroup, hgroup']
      exact evaluateSecond_insert_revocation _ 0 pre post hv
    | succ T =>
      rw [clockReplay, clockReplay, hgroup, hgroup', hbefore T (Nat.lt_succ_self T)]
      exact evaluateSecond_insert_revocation _ (T + 1) pre post hv
  | @step now hnow ih =>
    have hlt : T < now + 1 := Nat.lt_succ_of_le hnow
    rw [clockReplay, clockReplay, hsame _ hlt.ne', hlast _ hlt]
    exact ih.expireGroup (now + 1)

end Ledger

/-! ## One more revocation at the end of a history -/

section Records

variable {records : List SignedMembershipRecord} {v : SignedMembershipRecord}

/-- In event order, a new record of a conflict-free list has its place among the records of its
second. -/
lemma exists_issuedInSecond_append (hfree : ConflictFree (records ++ [v])) :
    ∃ pre post, issuedInSecond id records v.payload.issuedAtUnixSeconds = pre ++ post ∧
      issuedInSecond id (records ++ [v]) v.payload.issuedAtUnixSeconds = pre ++ v :: post := by
  set T := v.payload.issuedAtUnixSeconds with hT
  set old := issuedInSecond id records T with hold
  have hsorted : ∀ l : List SignedMembershipRecord,
      (issuedInSecond id l T).Pairwise membershipEventOrder := fun l =>
    List.pairwise_insertionSort membershipEventOrder _
  have hperm : ∀ l : List SignedMembershipRecord, (issuedInSecond id l T).Perm
      (l.filter fun r => r.payload.issuedAtUnixSeconds = T) := fun l =>
    List.perm_insertionSort _ _
  have hnew : issuedInSecond id (records ++ [v]) T = old.orderedInsert membershipEventOrder v := by
    refine eq_of_perm_of_conflictFree hfree ?_ ?_ (hsorted _) ((hsorted records).orderedInsert v _)
    · intro r hr
      exact (mem_issuedInSecond.mp hr).1
    · refine (hperm _).trans (List.Perm.trans ?_ (List.perm_orderedInsert _ _ _).symm)
      rw [List.filter_append]
      have hv : [v].filter (fun r => decide (r.payload.issuedAtUnixSeconds = T)) = [v] := by
        simp [hT]
      rw [hv]
      exact List.perm_append_comm.trans ((hperm records).symm.cons v)
  refine ⟨old.takeWhile fun b => ¬ membershipEventOrder v b,
    old.dropWhile fun b => ¬ membershipEventOrder v b,
    List.takeWhile_append_dropWhile.symm, ?_⟩
  rw [hnew, List.orderedInsert_eq_take_drop]

/-- **Frame.**  Under fixed roots, a revocation issued no earlier than the rest of the history
changes nothing about other members. -/
theorem replayRecords_append_revocation (hvalid : ∀ r ∈ records ++ [v], ValidPayload r.payload)
    (hfree : ConflictFree (records ++ [v])) (hv : v.payload.revoked)
    (hlatest : ∀ r ∈ records, r.payload.issuedAtUnixSeconds ≤ v.payload.issuedAtUnixSeconds)
    {now : ℕ} (hnow : v.payload.issuedAtUnixSeconds ≤ now) (trustedRoots : Finset String) :
    AgreeExceptMember v.payload.memberPeer (replayRecords records trustedRoots now)
      (replayRecords (records ++ [v]) trustedRoots now) := by
  rw [replayRecords_eq_clockReplay hvalid,
    replayRecords_eq_clockReplay fun r hr => hvalid r (List.mem_append_left _ hr)]
  obtain ⟨pre, post, hgroup, hgroup'⟩ := exists_issuedInSecond_append hfree
  have hv' : (id v).payload.revoked := hv
  refine clockReplay_insert_revocation hv' hgroup hgroup' ?_ ?_ hnow
  · intro t ht
    unfold issuedInSecond
    rw [List.filter_append]
    have hnone : [v].filter (fun r => decide ((id r).payload.issuedAtUnixSeconds = t)) = [] := by
      simp [ht.symm]
    rw [hnone, List.append_nil]
  · intro t ht
    rw [List.eq_nil_iff_forall_not_mem]
    intro r hr
    obtain ⟨hr, htime⟩ := mem_issuedInSecond.mp hr
    have := hlatest r hr
    simp only [id] at htime
    omega

end Records

/-! ## What the rest of the program sees -/

section Effective

variable {T K : Type} {env : Platform T K}

/-- Two memberships give a peer the same status: active with the same roles and route grants in
both, inactive in both, or unknown in both. -/
def PeerAgrees (old new : EffectiveMembership T) (p : Bytes32) : Prop :=
  (old.members.get? p).map (fun member => (member.roles, member.routeGrants))
      = (new.members.get? p).map (fun member => (member.roles, member.routeGrants)) ∧
    (p ∈ old.governedPeers ↔ p ∈ new.governedPeers)

/-- Two memberships agree about every peer but the one named. -/
def AgreeExcept (env : Platform T K) (memberPeer : String) (old new : EffectiveMembership T) :
    Prop :=
  ∀ p, overlayPeer env memberPeer ≠ some p → PeerAgrees old new p

lemma AgreeExcept.refl (memberPeer : String) (membership : EffectiveMembership T) :
    AgreeExcept env memberPeer membership membership := fun _ _ => ⟨rfl, Iff.rfl⟩

variable {ι : Type} {record : ι → SignedMembershipRecord} {e e' : MembershipLedgerEvaluation ι}
  {m₀ : String}

lemma effectiveMemberOf_congr (h : AgreeExceptMember m₀ e e') (state : LedgerMemberState ι) :
    effectiveMemberOf env record e' state = effectiveMemberOf env record e state := by
  simp only [effectiveMemberOf, currentAdmission, originalAdmission, h.firstAdmissions,
    h.currentAdmissions]

/-- Evaluations that agree about everybody but one member have memberships that do. -/
lemma agreeExcept_of_projects (h : AgreeExceptMember m₀ e e') (hsound : StatesSound record e)
    (hsound' : StatesSound record e') {order order' : KeyOrder String}
    {old new : EffectiveMembership T} (hold : Projects env record e (order.entries e.states) old)
    (hnew : Projects env record e' (order'.entries e'.states) new) :
    AgreeExcept env m₀ old new := by
  intro p hp
  -- A state filed under `p` is not that of `m₀`, so both evaluations have it.
  have hentry : ∀ m state, overlayPeer env (record state.recordIndex).payload.memberPeer = some p →
      ((m, state) ∈ order.entries e.states ↔ (m, state) ∈ order'.entries e'.states) := by
    intro m state hpeer
    rw [order.mem_entries, order'.mem_entries]
    have hne : ∀ {e : MembershipLedgerEvaluation ι}, StatesSound record e →
        e.states.get? m = some state → m ≠ m₀ := by
      rintro e hs hstate rfl
      rw [(hs m state hstate).member] at hpeer
      exact hp hpeer
    constructor
    · intro hstate
      rw [h.states m (hne hsound hstate), hstate]
    · intro hstate
      rw [← h.states m (hne hsound' hstate), hstate]
  have hmembers : old.members.get? p = new.members.get? p := by
    refine Option.ext fun member => ?_
    rw [hold.members, hnew.members]
    constructor
    · rintro ⟨⟨m, state⟩, hmem, hactive, hok, rfl⟩
      exact ⟨(m, state), (hentry m state (effectiveMemberOf_peer hok)).mp hmem, hactive,
        by rw [effectiveMemberOf_congr h, hok], rfl⟩
    · rintro ⟨⟨m, state⟩, hmem, hactive, hok, rfl⟩
      exact ⟨(m, state), (hentry m state (effectiveMemberOf_peer hok)).mpr hmem, hactive,
        by rw [← effectiveMemberOf_congr h, hok], rfl⟩
  refine ⟨by rw [hmembers], ?_⟩
  rw [hold.governed, hnew.governed]
  constructor
  · rintro ⟨⟨m, state⟩, hmem, hpeer⟩
    exact ⟨(m, state), (hentry m state hpeer).mp hmem, hpeer⟩
  · rintro ⟨⟨m, state⟩, hmem, hpeer⟩
    exact ⟨(m, state), (hentry m state hpeer).mpr hmem, hpeer⟩

end Effective

/-! ## Revocations and the roots they change -/

section Merged

variable {T K : Type} [DecidableEq T] {env : Platform T K}

/-- A record does not change which issuers of a history are roots: it is not self-issued, or its issuer
has a self-issued record already, or has issued nothing in a history with explicit roots, or everything
in the history. -/
def KeepsRoots (records : List SignedMembershipRecord) (v : SignedMembershipRecord) : Prop :=
  v.selfIssued = false ∨
    (∃ r ∈ records, r.selfIssued = true ∧ r.payload.issuerPeer = v.payload.issuerPeer) ∨
    (hasSelfIssued records = true ∧ ∀ r ∈ records, r.payload.issuerPeer ≠ v.payload.issuerPeer) ∨
    ∀ r ∈ records, r.payload.issuerPeer = v.payload.issuerPeer

variable {records : List SignedMembershipRecord} {v : SignedMembershipRecord}

lemma KeepsRoots.mem_trustRoots_iff {r : SignedMembershipRecord} (h : KeepsRoots records v)
    (hr : r ∈ records) :
    r.payload.issuerPeer ∈ trustRoots (records ++ [v]) ↔
      r.payload.issuerPeer ∈ trustRoots records := by
  by_cases hself : v.selfIssued
  · rw [trustRoots_append_of_selfIssued records hself]
    by_cases hany : hasSelfIssued records
    · -- The issuer of `v` joins the roots; it is one already, or nobody's issuer.
      rw [if_pos hany, Finset.mem_insert]
      refine or_iff_right_of_imp fun hissuer => ?_
      rcases h with h | ⟨x, hx, hxself, hxissuer⟩ | ⟨-, h⟩ | h
      · exact absurd hself (by simp [h])
      · rw [hissuer, ← hxissuer]
        exact (mem_trustRoots_of_hasSelfIssued hany).mpr ⟨x, hx, hxself, rfl⟩
      · exact absurd hissuer (h r hr)
      · obtain ⟨x, hx, hxself⟩ := hasSelfIssued_iff.mp hany
        rw [hissuer, ← h x hx]
        exact (mem_trustRoots_of_hasSelfIssued hany).mpr ⟨x, hx, hxself, rfl⟩
    · -- The issuer of `v` becomes the only root; it is the only issuer.
      have hroot : r.payload.issuerPeer ∈ trustRoots records :=
        (mem_trustRoots_of_not_hasSelfIssued hany).mpr ⟨r, hr, rfl⟩
      rw [if_neg hany, Finset.mem_singleton]
      refine iff_of_true ?_ hroot
      rcases h with h | ⟨x, hx, hxself, -⟩ | ⟨h, -⟩ | h
      · exact absurd hself (by simp [h])
      · exact absurd (hasSelfIssued_iff.mpr ⟨x, hx, hxself⟩) hany
      · exact absurd h hany
      · exact h r hr
  · rw [trustRoots_append_of_not_selfIssued records hself]
    split
    · rfl
    · rename_i hany
      -- Without self-issued records every issuer of the history is a root already.
      have hroot : r.payload.issuerPeer ∈ trustRoots records :=
        (mem_trustRoots_of_not_hasSelfIssued hany).mpr ⟨r, hr, rfl⟩
      simp [hroot]

lemma KeepsRoots.replayRecords_eq (h : KeepsRoots records v)
    (hvalid : ∀ r ∈ records, ValidPayload r.payload) (now : ℕ) :
    replayRecords records (trustRoots (records ++ [v])) now
      = replayRecords records (trustRoots records) now := by
  rw [replayRecords_eq_clockReplay hvalid, replayRecords_eq_clockReplay hvalid]
  exact clockReplay_congr_roots fun t _ r hr =>
    h.mem_trustRoots_iff (mem_issuedInSecond.mp hr).1

/-- The membership of a history with one more revocation agrees, about other peers, with that of
the old history under the new roots. -/
lemma agreeExcept_append_revocation {networkName : String}
    (hvalid : validateMembershipRecordHistory env records networkName = .ok ())
    (hvalid' : validateMembershipRecordHistory env (records ++ [v]) networkName = .ok ())
    (hfree : ConflictFree (records ++ [v])) (hv : v.payload.revoked)
    (hlatest : ∀ r ∈ records, r.payload.issuedAtUnixSeconds ≤ v.payload.issuedAtUnixSeconds)
    {now : ℕ} (hnow : v.payload.issuedAtUnixSeconds ≤ now)
    (haddresses : DistinctAddresses env (records ++ [v])) {order order' : KeyOrder String}
    {under new : EffectiveMembership T}
    (hunder : effectiveMembershipUnder env order records (trustRoots (records ++ [v])) now
      = .ok under)
    (hnew : effectiveMembershipAt env order' (records ++ [v]) networkName now = .ok new) :
    AgreeExcept env v.payload.memberPeer under new := by
  have haddresses' : DistinctAddresses env records := fun a ha b hb =>
    haddresses a (List.mem_append_left _ ha) b (List.mem_append_left _ hb)
  have hframe := replayRecords_append_revocation
    (fun r hr => (verifiedRecord_of_verify (verify_of_valid hvalid' r hr)).payload) hfree hv hlatest
    hnow (trustRoots (records ++ [v]))
  obtain ⟨under', hunder', hproj⟩ :=
    exists_effectiveMembershipUnder hvalid haddresses' order (trustRoots (records ++ [v])) now
  obtain ⟨new', hnew', hproj'⟩ :=
    exists_effectiveMembershipUnder hvalid' haddresses order' (trustRoots (records ++ [v])) now
  obtain rfl : under' = under := Except.ok.inj (hunder'.symm.trans hunder)
  rw [effectiveMembershipAt_eq_under hvalid'] at hnew
  obtain rfl : new' = new := Except.ok.inj (hnew'.symm.trans hnew)
  exact agreeExcept_of_projects hframe
    (verifiedEvaluation_replayRecords (verify_of_valid hvalid) _ now).states
    (verifiedEvaluation_replayRecords (verify_of_valid hvalid') _ now).states hproj hproj'

/-- **When a revocation only affects its target.**  Let a merge accept a revocation that is not
older than the history it is merged into.  If the merged history still fits the record limit and the
revocation does not change which issuers of the history are roots, the effective membership agrees
with the one before about every other peer; and without the record limit it does not. -/
theorem revocation_affects_only_target (env : Platform T K) (networkName : String)
    (now mergedAt maxRecords : ℕ) (records merged : List SignedMembershipRecord)
    (v : SignedMembershipRecord) (anchors : Finset String) (stats : MembershipRecordMergeStats)
    (order order' : KeyOrder String)
    (hanchors : membershipTrustAnchors env records networkName = .ok anchors)
    (hfree : ConflictFree records)
    (hmerge : mergeMembershipRecordsAt env records [v] networkName mergedAt anchors maxRecords
      = .ok (merged, stats))
    (hrevoked : v.payload.revoked = true)
    (hlatest : ∀ r ∈ records, r.payload.issuedAtUnixSeconds ≤ v.payload.issuedAtUnixSeconds)
    (hnow : v.payload.issuedAtUnixSeconds ≤ now)
    (haddresses : DistinctAddresses env (records ++ [v])) :
    ((v ∈ records ∨ records.length < maxMembershipRecords) → KeepsRoots records v →
      ∃ old new, effectiveMembershipAt env order records networkName now = .ok old ∧
        effectiveMembershipAt env order' merged networkName now = .ok new ∧
        AgreeExcept env v.payload.memberPeer old new) ∧
    ((∃ old new, effectiveMembershipAt env order records networkName now = .ok old ∧
        effectiveMembershipAt env order' merged networkName now = .ok new ∧
        AgreeExcept env v.payload.memberPeer old new) →
      v ∈ records ∨ records.length < maxMembershipRecords) := by
  obtain ⟨hvalid, rfl⟩ := membershipTrustAnchors_eq_ok.mp hanchors
  obtain ⟨added, rfl, houtcome⟩ := mergeOutcome_of_merge hmerge
  have haddresses' : DistinctAddresses env records := fun a ha b hb =>
    haddresses a (List.mem_append_left _ ha) b (List.mem_append_left _ hb)
  obtain ⟨old, hold, -⟩ := exists_effectiveMembershipUnder hvalid haddresses' order
    (trustRoots records) now
  rw [← effectiveMembershipAt_eq_under hvalid] at hold
  rcases List.sublist_singleton.mp houtcome.added_sublist with rfl | rfl
  · -- The revocation was there already, and nothing changes.
    have hmem : v ∈ records := by
      simpa using houtcome.incoming_subset (List.mem_singleton_self v)
    rw [List.append_nil]
    refine ⟨fun _ _ => ⟨old, old, hold, ?_, AgreeExcept.refl _ old⟩, fun _ => Or.inl hmem⟩
    rw [← hold, effectiveMembershipAt_eq hvalid, effectiveMembershipAt_eq hvalid]
    exact effectiveMembership_order
      (verifiedEvaluation_replayRecords (verify_of_valid hvalid) _ now)
      (distinctStates_replayRecords haddresses' _ now) order' order
  · have hnotmem : v ∉ records := fun hmem =>
      houtcome.fresh v (List.mem_singleton_self v) v hmem (sameVersion_iff.mpr ⟨rfl, rfl⟩)
    have hfree' := houtcome.conflictFree hfree
    have hlength : (records ++ [v]).length = records.length + 1 := List.length_append
    constructor
    · intro hlen hkeeps
      have hvalid' : validateMembershipRecordHistory env (records ++ [v]) networkName = .ok () := by
        refine validateHistory_eq_ok.mpr ⟨hlength.trans_le (hlen.resolve_left hnotmem), ?_,
          latest_ok_of_conflictFree hfree'⟩
        intro r hr
        rcases List.mem_append.mp hr with hr | hr
        · exact houtcome.records_valid r hr
        · exact houtcome.incoming_valid r hr
      have hpayload : ∀ r ∈ records, ValidPayload r.payload := fun r hr =>
        (verifiedRecord_of_verify (verify_of_valid hvalid r hr)).payload
      have hunder : effectiveMembershipUnder env order records (trustRoots (records ++ [v])) now
          = .ok old := by
        rw [effectiveMembershipUnder_eq hvalid, hkeeps.replayRecords_eq hpayload,
          ← effectiveMembershipAt_eq hvalid, hold]
      obtain ⟨new, hnew, -⟩ := exists_effectiveMembershipUnder hvalid' haddresses order'
        (trustRoots (records ++ [v])) now
      rw [← effectiveMembershipAt_eq_under hvalid'] at hnew
      exact ⟨old, new, hold, hnew, agreeExcept_append_revocation hvalid hvalid' hfree' hrevoked
        hlatest hnow haddresses hunder hnew⟩
    · rintro ⟨-, new, -, hnew, -⟩
      simp only [effectiveMembershipAt, bind_eq_ok] at hnew
      obtain ⟨_, hok, -⟩ := hnew
      exact Or.inr (hlength.symm.trans_le (validateHistory_eq_ok.mp hok).1)

/-- Revoking `B` in a network with an explicit root leaves everyone else alone, and so does the
resignation of `C`, who has issued nothing. -/
theorem revocation_frame_sample :
    (∃ old new,
      effectiveMembershipAt samplePlatform .sorted sampleHistory "lab" 30 = .ok old ∧
      effectiveMembershipAt samplePlatform .sorted
        (sampleHistory ++ [sampleRevocation .A .B 1 2 20 "A3"]) "lab" 30 = .ok new ∧
      AgreeExcept samplePlatform SamplePeer.B.text old new) ∧
    ∃ old new,
      effectiveMembershipAt samplePlatform .sorted sampleHistory "lab" 30 = .ok old ∧
      effectiveMembershipAt samplePlatform .sorted
        (sampleHistory ++ [sampleRevocation .C .C 1 2 20 "C1"]) "lab" 30 = .ok new ∧
      AgreeExcept samplePlatform SamplePeer.C.text old new := by
  refine ⟨(revocation_affects_only_target samplePlatform "lab" 30 20 256 sampleHistory
    (sampleHistory ++ [sampleRevocation .A .B 1 2 20 "A3"]) (sampleRevocation .A .B 1 2 20 "A3")
    {SamplePeer.A.text} ⟨1, 0⟩ .sorted .sorted (by decide +kernel) (by decide +kernel)
    (by decide +kernel) rfl (by decide) (by decide)
    (by unfold DistinctAddresses; decide +kernel)).1 (Or.inr (by decide)) (Or.inl (by decide +kernel)),
    (revocation_affects_only_target samplePlatform "lab" 30 20 256 sampleHistory
    (sampleHistory ++ [sampleRevocation .C .C 1 2 20 "C1"]) (sampleRevocation .C .C 1 2 20 "C1")
    {SamplePeer.A.text} ⟨1, 0⟩ .sorted .sorted (by decide +kernel) (by decide +kernel)
    (by decide +kernel) rfl (by decide) (by decide)
    (by unfold DistinctAddresses; decide +kernel)).1 (Or.inr (by decide))
    (Or.inr (Or.inr (Or.inl (by decide +kernel))))⟩

/-- The resignation of `B` from a network without self-issued records makes `B` its only root, and
`C`, whom `A` admitted, is no member any more. -/
theorem resignation_removes_other_member :
    membershipTrustAnchors samplePlatform legacyHistory "lab" = .ok {SamplePeer.A.text} ∧
    ConflictFree legacyHistory ∧
    mergeMembershipRecordsAt samplePlatform legacyHistory [sampleResignation] "lab" 20
      {SamplePeer.A.text} 256 = .ok (legacyHistory ++ [sampleResignation], ⟨1, 0⟩) ∧
    sampleResignation.payload.revoked = true ∧
    (∀ r ∈ legacyHistory,
      r.payload.issuedAtUnixSeconds ≤ sampleResignation.payload.issuedAtUnixSeconds) ∧
    sampleResignation.payload.issuedAtUnixSeconds ≤ 30 ∧
    ¬ ∃ old new,
      effectiveMembershipAt samplePlatform .sorted legacyHistory "lab" 30 = .ok old ∧
      effectiveMembershipAt samplePlatform .sorted (legacyHistory ++ [sampleResignation]) "lab" 30
        = .ok new ∧
      AgreeExcept samplePlatform sampleResignation.payload.memberPeer old new := by
  refine ⟨by decide +kernel, by decide +kernel, by decide +kernel, rfl, by decide, by decide, ?_⟩
  rintro ⟨old, new, hold, hnew, hagree⟩
  have hbefore : ((effectiveMembershipAt samplePlatform .sorted legacyHistory "lab" 30).map
      fun membership => (membership.members.get? (fromLibp2p samplePlatform .C)).isSome)
        = .ok true := by decide +kernel
  have hafter : ((effectiveMembershipAt samplePlatform .sorted
      (legacyHistory ++ [sampleResignation]) "lab" 30).map
      fun membership => (membership.members.get? (fromLibp2p samplePlatform .C)).isSome)
        = .ok false := by decide +kernel
  rw [hold] at hbefore
  rw [hnew] at hafter
  have hstatus := (hagree (fromLibp2p samplePlatform .C) (by decide +kernel)).1
  have hsome := congrArg Option.isSome hstatus
  rw [Option.isSome_map, Option.isSome_map] at hsome
  exact absurd ((Except.ok.inj hbefore).symm.trans (hsome.trans (Except.ok.inj hafter))) (by simp)

end Merged

end P2pVpn.Membership
