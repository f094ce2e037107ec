/-
# Record histories: validation, trust anchors and merging

A record list is the history a node retains.  This file models the check of a whole history, the
trust anchors inferred from it (the issuers of self-issued records when there is one, every
issuer otherwise) and the merge of an incoming batch into it, and says what each of them
establishes.
-/
import P2pVpn.Membership.Latest

namespace P2pVpn.Membership

open Lib

variable {T K : Type} [DecidableEq T] (env : Platform T K)

/-! ## The program -/

/-- `canonical_membership_records`: the highest version of every relationship. -/
def canonicalMembershipRecords (records : List SignedMembershipRecord) :
    Except MembershipRecordError (List SignedMembershipRecord) := do
  let indices ← latestMembershipRecordIndices records
  pure (indices.map records.get)

/-- The checks every record of a history must pass on its own. -/
def validateRecord (networkName : String) (record : SignedMembershipRecord) :
    Except MembershipRecordError Unit := do
  ensureRecordNetwork record networkName
  record.verify env

/-- `validate_membership_record_history`. -/
def validateMembershipRecordHistory (records : List SignedMembershipRecord)
    (networkName : String) : Except MembershipRecordError Unit := do
  refuseIf (records.length > maxMembershipRecords)
    (.tooManyRecords maxMembershipRecords records.length)
  records.forM (validateRecord env networkName)
  let _ ← latestMembershipRecordIndices records
  pure ()

/-- `membership_trust_anchors`. -/
def membershipTrustAnchors (records : List SignedMembershipRecord) (networkName : String) :
    Except MembershipRecordError (Finset String) := do
  validateMembershipRecordHistory env records networkName
  let latestRecords ← canonicalMembershipRecords records
  let hasExplicitRootRecord := latestRecords.any (·.selfIssued)
  pure (if hasExplicitRootRecord then
      ((latestRecords.filter (·.selfIssued)).map (·.payload.issuerPeer)).toFinset
    else (latestRecords.map (·.payload.issuerPeer)).toFinset)

/-- `MembershipRecordMergeStats`. -/
structure MembershipRecordMergeStats where
  accepted : ℕ
  ignoredStaleOrEqual : ℕ
deriving DecidableEq, Repr

/-- The local variables of the merge loop. -/
structure MergeProgress where
  merged : List SignedMembershipRecord
  addedIncoming : List ℕ
  stats : MembershipRecordMergeStats

/-- One incoming record was already there. -/
def MergeProgress.ignoreRecord (progress : MergeProgress) : MergeProgress :=
  { progress with stats.ignoredStaleOrEqual := progress.stats.ignoredStaleOrEqual + 1 }

/-- One incoming record is appended. -/
def MergeProgress.push (progress : MergeProgress) (record : SignedMembershipRecord) :
    MergeProgress where
  merged := progress.merged ++ [record]
  addedIncoming := progress.addedIncoming ++ [progress.merged.length]
  stats.accepted := progress.stats.accepted + 1
  stats.ignoredStaleOrEqual := progress.stats.ignoredStaleOrEqual

/-- The body of the merge loop. -/
def mergeRecord (nowUnixSeconds maxRecords : ℕ) (progress : MergeProgress)
    (incomingRecord : SignedMembershipRecord) : Except MembershipRecordError MergeProgress :=
  if incomingRecord ∈ progress.merged then .ok progress.ignoreRecord
  else
    match progress.merged.find? (sameVersion · incomingRecord) with
    | some existing => do
        refuseIf (existing ≠ incomingRecord) (conflictingRecordVersion incomingRecord)
        pure progress.ignoreRecord
    | none => do
        validatePayloadIssueTime incomingRecord.payload nowUnixSeconds
        refuseIf (maxRecords ≤ progress.merged.length)
          (.tooManyRecords maxRecords (progress.merged.length + 1))
        pure (progress.push incomingRecord)

/-- An added record must be accepted by the replay of the merged history. -/
def requireAccepted (merged : List SignedMembershipRecord)
    (evaluation : MembershipLedgerEvaluation (Fin merged.length)) (index : Fin merged.length) :
    Except MembershipRecordError Unit :=
  refuseIf (index ∉ evaluation.accepted)
    (.untrustedIssuer (merged.get index).payload.issuerPeer)

/-- The latest issue time a merge at `now` takes into account. -/
def authorizationHorizon (nowUnixSeconds : ℕ) : ℕ :=
  saturatingAdd64 nowUnixSeconds maxMembershipClockSkewSeconds

/-- `merge_membership_records_at`: the records after a successful merge; a failed one leaves
the caller's records as they are. -/
def mergeMembershipRecordsAt (records incoming : List SignedMembershipRecord)
    (networkName : String) (nowUnixSeconds : ℕ) (trustedIssuers : Finset String) (maxRecords : ℕ) :
    Except MembershipRecordError (List SignedMembershipRecord × MembershipRecordMergeStats) := do
  records.forM (validateRecord env networkName)
  let _ ← latestMembershipRecordIndices records
  incoming.forM (validateRecord env networkName)
  let progress ← incoming.foldlM (mergeRecord nowUnixSeconds maxRecords) ⟨records, [], ⟨0, 0⟩⟩
  refuseIf (maxRecords < progress.merged.length)
    (.tooManyRecords maxRecords progress.merged.length)
  let evaluation ← evaluateMembershipLedgerAt progress.merged trustedIssuers
    (authorizationHorizon nowUnixSeconds)
  ((List.finRange progress.merged.length).filter fun index =>
    index.val ∈ progress.addedIncoming).forM (requireAccepted progress.merged evaluation)
  pure (progress.merged, progress.stats)

/-! ## Trust anchors -/

/-- Some record of the list is self-issued. -/
def hasSelfIssued (records : List SignedMembershipRecord) : Bool := records.any (·.selfIssued)

/-- The roots a list stands for: the issuers of its self-issued records if there are any, and
all its issuers otherwise. -/
def trustRoots (records : List SignedMembershipRecord) : Finset String :=
  if hasSelfIssued records then
    ((records.filter (·.selfIssued)).map (·.payload.issuerPeer)).toFinset
  else (records.map (·.payload.issuerPeer)).toFinset

variable {records incoming : List SignedMembershipRecord} {r : SignedMembershipRecord}
  {networkName : String} {now maxRecords : ℕ} {progress : MergeProgress}

lemma mem_trustRoots_of_hasSelfIssued (h : hasSelfIssued records) {peer : String} :
    peer ∈ trustRoots records ↔ ∃ r ∈ records, r.selfIssued ∧ r.payload.issuerPeer = peer := by
  simp [trustRoots, h, and_assoc]

lemma mem_trustRoots_of_not_hasSelfIssued (h : ¬ hasSelfIssued records) {peer : String} :
    peer ∈ trustRoots records ↔ ∃ r ∈ records, r.payload.issuerPeer = peer := by
  simp [trustRoots, h]

lemma hasSelfIssued_iff : hasSelfIssued records ↔ ∃ r ∈ records, r.selfIssued := by
  simp [hasSelfIssued]

/-- A self-issued record makes its issuer a root, and the only one of a list without any. -/
lemma trustRoots_append_of_selfIssued (records : List SignedMembershipRecord) (hr : r.selfIssued) :
    trustRoots (records ++ [r])
      = if hasSelfIssued records then insert r.payload.issuerPeer (trustRoots records)
        else {r.payload.issuerPeer} := by
  have hself : hasSelfIssued (records ++ [r]) := by simp [hasSelfIssued, hr]
  ext peer
  rw [mem_trustRoots_of_hasSelfIssued hself]
  split
  · rename_i hrecords
    rw [Finset.mem_insert, mem_trustRoots_of_hasSelfIssued hrecords]
    simp only [List.mem_append, List.mem_singleton]
    constructor
    · rintro ⟨x, hx | rfl, hxs, hxi⟩
      · exact Or.inr ⟨x, hx, hxs, hxi⟩
      · exact Or.inl hxi.symm
    · rintro (rfl | ⟨x, hx, hxs, hxi⟩)
      · exact ⟨r, Or.inr rfl, hr, rfl⟩
      · exact ⟨x, Or.inl hx, hxs, hxi⟩
  · rename_i hrecords
    simp only [hasSelfIssued_iff, not_exists, not_and] at hrecords
    simp only [List.mem_append, List.mem_singleton, Finset.mem_singleton]
    constructor
    · rintro ⟨x, hx | rfl, hxs, hxi⟩
      · exact absurd hxs (hrecords x hx)
      · exact hxi.symm
    · rintro rfl
      exact ⟨r, Or.inr rfl, hr, rfl⟩

/-- A record about another peer adds at most its issuer to the roots, and only to those of a list
without any self-issued record. -/
lemma trustRoots_append_of_not_selfIssued (records : List SignedMembershipRecord)
    (hr : ¬ r.selfIssued) :
    trustRoots (records ++ [r])
      = if hasSelfIssued records then trustRoots records
        else insert r.payload.issuerPeer (trustRoots records) := by
  have hself : hasSelfIssued (records ++ [r]) = hasSelfIssued records := by
    simp [hasSelfIssued, hr]
  ext peer
  split
  · rename_i hrecords
    rw [mem_trustRoots_of_hasSelfIssued (hself.trans hrecords),
      mem_trustRoots_of_hasSelfIssued hrecords]
    simp only [List.mem_append, List.mem_singleton]
    constructor
    · rintro ⟨x, hx | rfl, hxs, hxi⟩
      · exact ⟨x, hx, hxs, hxi⟩
      · exact absurd hxs hr
    · rintro ⟨x, hx, hxs, hxi⟩
      exact ⟨x, Or.inl hx, hxs, hxi⟩
  · rename_i hrecords
    rw [mem_trustRoots_of_not_hasSelfIssued (hself ▸ hrecords), Finset.mem_insert,
      mem_trustRoots_of_not_hasSelfIssued hrecords]
    simp only [List.mem_append, List.mem_singleton]
    constructor
    · rintro ⟨x, hx | rfl, hxi⟩
      · exact Or.inr ⟨x, hx, hxi⟩
      · exact Or.inl hxi.symm
    · rintro (rfl | ⟨x, hx, hxi⟩)
      · exact ⟨r, Or.inr rfl, rfl⟩
      · exact ⟨x, Or.inl hx, hxi⟩

/-- Lists with the same relationships have the same roots. -/
lemma trustRoots_congr {records' : List SignedMembershipRecord}
    (h : ∀ r ∈ records, ∃ r' ∈ records', relationship r' = relationship r)
    (h' : ∀ r ∈ records', ∃ r' ∈ records, relationship r' = relationship r) :
    trustRoots records = trustRoots records' := by
  have transfer : ∀ {l l' : List SignedMembershipRecord},
      (∀ r ∈ l, ∃ r' ∈ l', relationship r' = relationship r) → ∀ r ∈ l, ∃ r' ∈ l',
        r'.selfIssued = r.selfIssued ∧ r'.payload.issuerPeer = r.payload.issuerPeer := by
    intro l l' hl r hr
    obtain ⟨r', hr', hrel⟩ := hl r hr
    obtain ⟨h1, h2⟩ := Prod.mk.injEq .. ▸ hrel
    exact ⟨r', hr', by simp only [SignedMembershipRecord.selfIssued, h1, h2], h1⟩
  have hself : hasSelfIssued records ↔ hasSelfIssued records' := by
    rw [hasSelfIssued_iff, hasSelfIssued_iff]
    constructor
    · rintro ⟨r, hr, hs⟩
      obtain ⟨r', hr', hs', -⟩ := transfer h r hr
      exact ⟨r', hr', hs'.trans hs⟩
    · rintro ⟨r, hr, hs⟩
      obtain ⟨r', hr', hs', -⟩ := transfer h' r hr
      exact ⟨r', hr', hs'.trans hs⟩
  ext peer
  by_cases hs : hasSelfIssued records
  · rw [mem_trustRoots_of_hasSelfIssued hs, mem_trustRoots_of_hasSelfIssued (hself.mp hs)]
    constructor
    · rintro ⟨r, hr, hrs, rfl⟩
      obtain ⟨r', hr', hs', hi⟩ := transfer h r hr
      exact ⟨r', hr', hs'.trans hrs, hi⟩
    · rintro ⟨r, hr, hrs, rfl⟩
      obtain ⟨r', hr', hs', hi⟩ := transfer h' r hr
      exact ⟨r', hr', hs'.trans hrs, hi⟩
  · rw [mem_trustRoots_of_not_hasSelfIssued hs,
      mem_trustRoots_of_not_hasSelfIssued (hself.not.mp hs)]
    constructor
    · rintro ⟨r, hr, rfl⟩
      obtain ⟨r', hr', -, hi⟩ := transfer h r hr
      exact ⟨r', hr', hi⟩
    · rintro ⟨r, hr, rfl⟩
      obtain ⟨r', hr', -, hi⟩ := transfer h' r hr
      exact ⟨r', hr', hi⟩

variable {env}

/-- The check of a history, spelled out. -/
lemma validateHistory_eq_ok :
    validateMembershipRecordHistory env records networkName = .ok () ↔
      records.length ≤ maxMembershipRecords ∧
      (∀ r ∈ records, validateRecord env networkName r = .ok ()) ∧
      ∃ indices, latestMembershipRecordIndices records = .ok indices := by
  simp only [validateMembershipRecordHistory, bind_eq_ok, refuseIf_eq_ok, forM_eq_ok]
  simp [pure, Except.pure]

/-- The anchors of a valid history are its roots. -/
lemma membershipTrustAnchors_eq_ok {anchors : Finset String} :
    membershipTrustAnchors env records networkName = .ok anchors ↔
      validateMembershipRecordHistory env records networkName = .ok () ∧
      anchors = trustRoots records := by
  have hroots : ∀ indices, latestMembershipRecordIndices records = .ok indices →
      trustRoots (indices.map records.get) = trustRoots records := by
    intro indices hlatest
    refine trustRoots_congr ?_ ?_
    · intro r hr
      obtain ⟨j, -, rfl⟩ := List.mem_map.mp hr
      exact ⟨_, List.get_mem .., rfl⟩
    · intro r hr
      obtain ⟨i, rfl⟩ := List.get_of_mem hr
      obtain ⟨j, hj, hrel⟩ := exists_latest hlatest i
      exact ⟨_, List.mem_map.mpr ⟨j, hj, rfl⟩, hrel⟩
  simp only [membershipTrustAnchors, canonicalMembershipRecords, bind_eq_ok]
  constructor
  · rintro ⟨_, hvalid, latest, ⟨indices, hlatest, hmap⟩, hanchors⟩
    refine ⟨hvalid, ?_⟩
    cases hmap
    rw [← hroots indices hlatest]
    exact (Except.ok.inj hanchors).symm
  · rintro ⟨hvalid, rfl⟩
    obtain ⟨-, -, indices, hlatest⟩ := validateHistory_eq_ok.mp hvalid
    refine ⟨(), hvalid, _, ⟨indices, hlatest, rfl⟩, ?_⟩
    rw [← hroots indices hlatest]
    rfl

/-! ## Merging -/

/-- What a successful merge establishes about the records it adds. -/
structure MergeOutcome (env : Platform T K) (records incoming added : List SignedMembershipRecord)
    (networkName : String) (nowUnixSeconds : ℕ) (trustedIssuers : Finset String)
    (maxRecords : ℕ) : Prop where
  records_valid : ∀ r ∈ records, validateRecord env networkName r = .ok ()
  incoming_valid : ∀ r ∈ incoming, validateRecord env networkName r = .ok ()
  added_sublist : added.Sublist incoming
  issued_le : ∀ r ∈ added, r.payload.issuedAtUnixSeconds ≤ authorizationHorizon nowUnixSeconds
  length_le : (records ++ added).length ≤ maxRecords
  /-- Nothing that was offered is missing afterwards. -/
  incoming_subset : incoming ⊆ records ++ added
  conflictFree : ConflictFree records → ConflictFree (records ++ added)
  /-- What is added has a version of its own. -/
  fresh : ∀ r ∈ added, ∀ x ∈ records, ¬ sameVersion x r
  /-- Every added record is accepted by the replay. -/
  accepted : ∃ evaluation, evaluateMembershipLedgerAt (records ++ added) trustedIssuers
      (authorizationHorizon nowUnixSeconds) = .ok evaluation ∧
    ∀ index, records.length ≤ index.val → index ∈ evaluation.accepted

/-- How the merge loop takes one state of its variables to another: it appends records. -/
structure MergeProgress.Extends (nowUnixSeconds : ℕ) (start progress : MergeProgress)
    (added : List SignedMembershipRecord) : Prop where
  merged_eq : progress.merged = start.merged ++ added
  addedIncoming_iff : ∀ n, n ∈ progress.addedIncoming ↔ n ∈ start.addedIncoming ∨
    start.merged.length ≤ n ∧ n < start.merged.length + added.length
  issued_le : ∀ r ∈ added, r.payload.issuedAtUnixSeconds ≤ authorizationHorizon nowUnixSeconds
  conflictFree : ConflictFree start.merged → ConflictFree progress.merged
  fresh : ∀ r ∈ added, ∀ x ∈ start.merged, ¬ sameVersion x r

/-- What one turn of the loop can do: skip a record that is there, or append one of a new
version. -/
lemma mergeRecord_cases {progress' : MergeProgress}
    (h : mergeRecord now maxRecords progress r = .ok progress') :
    (r ∈ progress.merged ∧ progress' = progress.ignoreRecord) ∨
      (∀ x ∈ progress.merged, ¬ sameVersion x r) ∧
      r.payload.issuedAtUnixSeconds ≤ authorizationHorizon now ∧ progress' = progress.push r := by
  unfold mergeRecord at h
  split at h
  · rename_i hmem
    exact Or.inl ⟨hmem, (Except.ok.inj h).symm⟩
  · rename_i hmem
    split at h
    · rename_i existing hfind
      simp only [bind_eq_ok, refuseIf_eq_ok, not_not] at h
      obtain ⟨-, rfl, -⟩ := h
      exact absurd (List.mem_of_find?_eq_some hfind) hmem
    · rename_i hfind
      simp only [bind_eq_ok, refuseIf_eq_ok, validatePayloadIssueTime, not_lt] at h
      obtain ⟨-, htime, -, -, hpush⟩ := h
      exact Or.inr ⟨fun x hx => by simpa using List.find?_eq_none.mp hfind x hx, htime,
        (Except.ok.inj hpush).symm⟩

lemma MergeProgress.extends_ignoreRecord (now : ℕ) (progress : MergeProgress) :
    Extends now progress progress.ignoreRecord [] :=
  ⟨by simp [ignoreRecord], by simp [ignoreRecord], by simp, id, by simp⟩

lemma MergeProgress.extends_push (hfresh : ∀ x ∈ progress.merged, ¬ sameVersion x r)
    (htime : r.payload.issuedAtUnixSeconds ≤ authorizationHorizon now) :
    Extends now progress (progress.push r) [r] := by
  refine ⟨rfl, ?_, by simpa using htime, ?_, by simpa using hfresh⟩
  · intro n
    simp only [push, List.mem_append, List.mem_singleton, List.length_singleton]
    exact or_congr Iff.rfl (by omega)
  · intro hfree left hleft right hright hsame
    simp only [push, List.mem_append, List.mem_singleton] at hleft hright
    rcases hleft with hleft | rfl <;> rcases hright with hright | rfl
    · exact hfree left hleft right hright hsame
    · exact absurd hsame (hfresh left hleft)
    · exact absurd (sameVersion_comm.mp hsame) (hfresh right hright)
    · rfl

lemma MergeProgress.Extends.trans {a b c : MergeProgress}
    {added added' : List SignedMembershipRecord} (h : Extends now a b added)
    (h' : Extends now b c added') : Extends now a c (added ++ added') := by
  refine ⟨by rw [h'.merged_eq, h.merged_eq, List.append_assoc], ?_, ?_,
    fun hfree => h'.conflictFree (h.conflictFree hfree), ?_⟩
  · intro n
    rw [h'.addedIncoming_iff, h.addedIncoming_iff, h.merged_eq, or_assoc]
    simp only [List.length_append]
    exact or_congr Iff.rfl (by omega)
  · intro r hr
    rcases List.mem_append.mp hr with hr | hr
    · exact h.issued_le r hr
    · exact h'.issued_le r hr
  · intro r hr x hx
    rcases List.mem_append.mp hr with hr | hr
    · exact h.fresh r hr x hx
    · exact h'.fresh r hr x (by rw [h.merged_eq]; exact List.mem_append_left _ hx)

/-- The merge loop appends some of the incoming records, and has all of them in the end. -/
lemma foldlM_mergeRecord {start : MergeProgress}
    (h : incoming.foldlM (mergeRecord now maxRecords) start = .ok progress) :
    ∃ added, added.Sublist incoming ∧ start.Extends now progress added ∧
      incoming ⊆ progress.merged := by
  induction incoming generalizing start with
  | nil =>
    obtain rfl : start = progress := by simpa [pure, Except.pure] using h
    exact ⟨[], List.Sublist.refl _, ⟨by simp, by simp, by simp, id, by simp⟩, by simp⟩
  | cons r incoming ih =>
    rw [List.foldlM_cons, bind_eq_ok] at h
    obtain ⟨next, hnext, hrest⟩ := h
    obtain ⟨added, hsub, hext, hincoming⟩ := ih hrest
    rcases mergeRecord_cases hnext with ⟨hmem, rfl⟩ | ⟨hfresh, htime, rfl⟩
    · refine ⟨added, hsub.cons r, (MergeProgress.extends_ignoreRecord now start).trans hext,
        List.cons_subset.mpr ⟨?_, hincoming⟩⟩
      rw [hext.merged_eq]
      exact List.mem_append_left _ hmem
    · refine ⟨r :: added, hsub.cons_cons r, (MergeProgress.extends_push hfresh htime).trans hext,
        List.cons_subset.mpr ⟨?_, hincoming⟩⟩
      rw [hext.merged_eq]
      simp [MergeProgress.push]

/-- **A successful merge** appends records of the batch, all of them accepted by the replay. -/
theorem mergeOutcome_of_merge {merged : List SignedMembershipRecord}
    {trustedIssuers : Finset String} {stats : MembershipRecordMergeStats}
    (h : mergeMembershipRecordsAt env records incoming networkName now trustedIssuers maxRecords
      = .ok (merged, stats)) :
    ∃ added, merged = records ++ added ∧
      MergeOutcome env records incoming added networkName now trustedIssuers maxRecords := by
  simp only [mergeMembershipRecordsAt, bind_eq_ok, refuseIf_eq_ok, forM_eq_ok] at h
  obtain ⟨_, hrecords, _, -, _, hincoming, progress, hfold, _, hlen, evaluation, heval, _,
    haccepted, hresult⟩ := h
  obtain ⟨added, hsub, hext, hall⟩ := foldlM_mergeRecord hfold
  obtain ⟨rfl, rfl⟩ : progress.merged = merged ∧ progress.stats = stats := by
    simpa [pure, Except.pure] using hresult
  obtain ⟨rmerged, radded, rstats⟩ := progress
  obtain rfl : rmerged = records ++ added := hext.merged_eq
  refine ⟨added, rfl, hrecords, hincoming, hsub, hext.issued_le, not_lt.mp hlen, hall,
    hext.conflictFree, hext.fresh, evaluation, heval, ?_⟩
  intro index hindex
  have hadded : index.val ∈ radded := (hext.addedIncoming_iff _).mpr (Or.inr ⟨hindex, by
    simpa using index.isLt⟩)
  have hmem := haccepted index (by
    rw [List.mem_filter]
    exact ⟨List.mem_finRange index, decide_eq_true hadded⟩)
  simpa [requireAccepted, refuseIf_eq_ok] using hmem

/-- The merge loop skips records that are all there. -/
lemma foldlM_mergeRecord_of_subset (h : incoming ⊆ progress.merged) (now maxRecords : ℕ) :
    incoming.foldlM (mergeRecord now maxRecords) progress
      = .ok { progress with
          stats.ignoredStaleOrEqual := progress.stats.ignoredStaleOrEqual + incoming.length } := by
  induction incoming generalizing progress with
  | nil => rfl
  | cons r incoming ih =>
    obtain ⟨hr, hrest⟩ := List.cons_subset.mp h
    rw [List.foldlM_cons, mergeRecord, if_pos hr, List.length_cons, Nat.add_comm incoming.length,
      ← Nat.add_assoc]
    have hnext : incoming ⊆ progress.ignoreRecord.merged := hrest
    exact ih hnext

/-- Merging records that are all there changes nothing. -/
lemma merge_of_subset (hlen : records.length ≤ maxRecords)
    (hrecords : ∀ r ∈ records, validateRecord env networkName r = .ok ())
    (hlatest : ∃ indices, latestMembershipRecordIndices records = .ok indices)
    (hincoming : incoming ⊆ records) (now : ℕ) (trustedIssuers : Finset String) :
    mergeMembershipRecordsAt env records incoming networkName now trustedIssuers maxRecords
      = .ok (records, ⟨0, incoming.length⟩) := by
  obtain ⟨indices, hlatest⟩ := hlatest
  have hevaluates : ∃ evaluation, evaluateMembershipLedgerAt records trustedIssuers
      (authorizationHorizon now) = .ok evaluation := by
    rw [evaluateMembershipLedgerAt, hlatest]
    exact ⟨_, rfl⟩
  obtain ⟨evaluation, hevaluation⟩ := hevaluates
  have hfold : incoming.foldlM (mergeRecord now maxRecords) ⟨records, [], ⟨0, 0⟩⟩
      = .ok ⟨records, [], ⟨0, 0 + incoming.length⟩⟩ :=
    foldlM_mergeRecord_of_subset hincoming now maxRecords
  rw [Nat.zero_add] at hfold
  simp only [mergeMembershipRecordsAt, bind_eq_ok, refuseIf_eq_ok, forM_eq_ok]
  refine ⟨(), hrecords, indices, hlatest, (), fun r hr => hrecords r (hincoming hr), _, hfold, (),
    not_lt.mpr hlen, evaluation, hevaluation, (), ?_, rfl⟩
  intro index hindex
  simp at hindex

end P2pVpn.Membership
