/-
# Merging hostname records

A replica keeps one hostname record for each peer and merges batches of records into it.  A record with a
higher sequence number replaces the one that is there; another record under the same number is refused,
but only while that number is the latest one.  So whether a batch is merged depends on the order of the
records; what the replica holds in the end does not (`hostname_merge_converges`): it is determined by the
records that were merged.
-/
import P2pVpn.Dns.Fallback
import P2pVpn.Lib.LatestVersion

namespace P2pVpn.Dns

open Lib Net P2pVpn.Membership P2pVpn.Checkpoint

structure HostnameRecordMergeStats where
  accepted : ℕ
  ignoredStaleOrEqual : ℕ
deriving DecidableEq, Repr

/-- The body of the loop of `merge_hostname_records`. -/
def mergeHostnameRecord (maxRecords : ℕ)
    (state : List SignedHostnameRecord × HostnameRecordMergeStats) (incoming : SignedHostnameRecord) :
    Except HostnameRecordError (List SignedHostnameRecord × HostnameRecordMergeStats) :=
  let (merged, stats) := state
  match merged.find? fun record => record.payload.peer = incoming.payload.peer with
  | some existing =>
      if incoming.payload.sequence > existing.payload.sequence then
        .ok (modifyFirst (fun record => record.payload.peer = incoming.payload.peer) (fun _ => incoming)
            merged, { stats with accepted := stats.accepted + 1 })
      else if incoming.payload.sequence = existing.payload.sequence ∧ incoming ≠ existing then
        .error (.conflictingVersion incoming.payload.peer incoming.payload.sequence)
      else .ok (merged, { stats with ignoredStaleOrEqual := stats.ignoredStaleOrEqual + 1 })
  | none =>
      if merged.length ≥ maxRecords then .error (.tooManyRecords maxRecords (merged.length + 1))
      else .ok (merged ++ [incoming], { stats with accepted := stats.accepted + 1 })

variable {T K : Type} [DecidableEq T] (env : HostnamePlatform T K)

/-- What `merge_hostname_records` computes before it writes anything. -/
def mergedHostnameRecords (order : KeyOrder String) (records incoming : List SignedHostnameRecord)
    (networkName : String) (maxRecords : ℕ) :
    Except HostnameRecordError (List SignedHostnameRecord × HostnameRecordMergeStats) := do
  validateHostnameRecordHistory env order records networkName
  validateHostnameRecordHistory env order incoming networkName
  let merged ← canonicalHostnameRecords order records
  let (merged, stats) ← incoming.foldlM (mergeHostnameRecord maxRecords) (merged, ⟨0, 0⟩)
  pure (sortBy (·.payload.peer) merged, stats)

/-- `merge_hostname_records`, with the records that it leaves behind. -/
def mergeHostnameRecords (order : KeyOrder String) (records incoming : List SignedHostnameRecord)
    (networkName : String) (maxRecords : ℕ) :
    Except HostnameRecordError HostnameRecordMergeStats × List SignedHostnameRecord :=
  match mergedHostnameRecords env order records incoming networkName maxRecords with
  | .error error => (.error error, records)
  | .ok (merged, stats) => (.ok stats, merged)

/-! ## Replicas -/

/-- A batch of records that a replica is asked to merge. -/
structure HostnameBatch where
  order : KeyOrder String
  incoming : List SignedHostnameRecord
  maxRecords : ℕ

/-- A replica, with the records of the batches that it has merged. -/
structure HostnameReplica where
  records : List SignedHostnameRecord
  merged : List SignedHostnameRecord

def HostnameReplica.merge (networkName : String) (replica : HostnameReplica) (batch : HostnameBatch) :
    HostnameReplica :=
  let result := mergeHostnameRecords env batch.order replica.records batch.incoming networkName
    batch.maxRecords
  match result.1 with
  | .error _ => { replica with records := result.2 }
  | .ok _ => ⟨result.2, replica.merged ++ batch.incoming⟩

/-- A replica that starts empty. -/
def HostnameReplica.after (networkName : String) (batches : List HostnameBatch) : HostnameReplica :=
  batches.foldl (HostnameReplica.merge env networkName) ⟨[], []⟩

/-! ## The records of a replica are the latest ones -/

/-- The records are the latest ones of a collection. -/
abbrev LatestRecords (S : SignedHostnameRecord → Prop) (records : List SignedHostnameRecord) : Prop :=
  Latest (·.payload.peer) (·.payload.sequence) S records

variable {S : SignedHostnameRecord → Prop}

/-- A record that is neither newer nor in conflict with another one says no more. -/
lemma coveredBy_of_not_newer {record existing : SignedHostnameRecord}
    (hpeer : existing.payload.peer = record.payload.peer)
    (hnewer : ¬ record.payload.sequence > existing.payload.sequence)
    (hconflict : ¬ (record.payload.sequence = existing.payload.sequence ∧ record ≠ existing)) :
    CoveredBy (·.payload.peer) (·.payload.sequence) record existing := by
  refine ⟨hpeer, ?_⟩
  rcases (not_lt.mp hnewer).lt_or_eq with hlt | heq
  · exact .inl hlt
  · exact .inr (not_not.mp fun hne => hconflict ⟨heq, hne⟩)

lemma latestIn_latestHostnameRecord {latest latest' : HashMap String SignedHostnameRecord}
    {record : SignedHostnameRecord} (h : LatestIn (·.payload.peer) (·.payload.sequence) S latest)
    (hstep : latestHostnameRecord latest record = .ok latest') :
    LatestIn (·.payload.peer) (·.payload.sequence) (fun other => S other ∨ other = record) latest' := by
  rw [latestHostnameRecord] at hstep
  split at hstep
  · rename_i hnone
    obtain rfl := Except.ok.inj hstep
    refine h.insert fun other hother => ?_
    rw [hnone] at hother
    cases hother
  · rename_i existing hexisting
    have hpeer := (h.subset _ _ hexisting).1
    split_ifs at hstep with hnewer hconflict
    · obtain rfl := Except.ok.inj hstep
      refine h.insert fun other hother => ?_
      obtain rfl := Option.some.inj (hexisting.symm.trans hother)
      exact ⟨hpeer.symm, .inl hnewer⟩
    · obtain rfl := Except.ok.inj hstep
      exact h.keep hexisting (coveredBy_of_not_newer hpeer hnewer hconflict)

/-- `canonical_hostname_records` keeps the latest record of each peer. -/
lemma latest_canonicalHostnameRecords {order : KeyOrder String} {records canonical : List SignedHostnameRecord}
    (h : canonicalHostnameRecords order records = .ok canonical) : LatestRecords (· ∈ records) canonical := by
  have hfold : ∀ (records : List SignedHostnameRecord) (S : SignedHostnameRecord → Prop)
      (latest latest' : HashMap String SignedHostnameRecord),
      LatestIn (·.payload.peer) (·.payload.sequence) S latest →
      records.foldlM latestHostnameRecord latest = .ok latest' →
      LatestIn (·.payload.peer) (·.payload.sequence) (fun record => S record ∨ record ∈ records) latest' := by
    intro records
    induction records with
    | nil =>
      intro S latest latest' h hfold
      obtain rfl := Except.ok.inj hfold
      simpa using h
    | cons record records ih =>
      intro S latest latest' h hfold
      rw [List.foldlM_cons, bind_eq_ok] at hfold
      obtain ⟨next, hstep, hrest⟩ := hfold
      have hlatest := ih _ _ _ (latestIn_latestHostnameRecord h hstep) hrest
      simpa [or_assoc] using hlatest
  rw [canonicalHostnameRecords, bind_eq_ok] at h
  obtain ⟨latest, hlatest, hcanonical⟩ := h
  obtain rfl := Except.ok.inj hcanonical
  have htable := (hfold records _ _ _ LatestIn.empty hlatest).values order
  exact (htable.congr fun record => by simp).perm (perm_sortBy _)

/-- One record is merged. -/
lemma latest_mergeHostnameRecord {maxRecords : ℕ} {merged merged' : List SignedHostnameRecord}
    {stats stats' : HostnameRecordMergeStats} {incoming : SignedHostnameRecord}
    (h : LatestRecords S merged)
    (hstep : mergeHostnameRecord maxRecords (merged, stats) incoming = .ok (merged', stats')) :
    LatestRecords (fun record => S record ∨ record = incoming) merged' := by
  simp only [mergeHostnameRecord] at hstep
  split at hstep
  · rename_i existing hfound
    have hmem := List.mem_of_find?_eq_some hfound
    have hpeer : existing.payload.peer = incoming.payload.peer := by
      simpa using List.find?_some hfound
    split_ifs at hstep with hnewer hconflict
    · obtain ⟨rfl, -⟩ := Prod.mk.inj (Except.ok.inj hstep)
      exact h.replace hmem ⟨hpeer.symm, .inl hnewer⟩
    · obtain ⟨rfl, -⟩ := Prod.mk.inj (Except.ok.inj hstep)
      exact h.keep hmem (coveredBy_of_not_newer hpeer hnewer hconflict)
  · rename_i hnone
    split_ifs at hstep
    obtain ⟨rfl, -⟩ := Prod.mk.inj (Except.ok.inj hstep)
    exact h.append fun record hrecord => by simpa using List.find?_eq_none.mp hnone record hrecord

/-- The records of a batch are merged. -/
lemma latest_foldlM_mergeHostnameRecord {maxRecords : ℕ} {incoming merged merged' : List SignedHostnameRecord}
    {stats stats' : HostnameRecordMergeStats} (h : LatestRecords S merged)
    (hfold : incoming.foldlM (mergeHostnameRecord maxRecords) (merged, stats) = .ok (merged', stats')) :
    LatestRecords (fun record => S record ∨ record ∈ incoming) merged' := by
  induction incoming generalizing S merged stats with
  | nil =>
    obtain ⟨rfl, -⟩ := Prod.mk.inj (Except.ok.inj hfold)
    exact h.congr fun record => by simp
  | cons record incoming ih =>
    rw [List.foldlM_cons, bind_eq_ok] at hfold
    obtain ⟨⟨next, nextStats⟩, hstep, hrest⟩ := hfold
    exact (ih (latest_mergeHostnameRecord h hstep) hrest).congr fun other => by simp [or_assoc]

variable {env} {order : KeyOrder String} {records incoming : List SignedHostnameRecord}
  {networkName : String} {maxRecords : ℕ}

/-- A batch that is merged: the records are again the latest ones, and sorted. -/
lemma latest_mergeHostnameRecords {stats : HostnameRecordMergeStats} (h : LatestRecords S records)
    (hmerge : (mergeHostnameRecords env order records incoming networkName maxRecords).1 = .ok stats) :
    LatestRecords (fun record => S record ∨ record ∈ incoming)
        (mergeHostnameRecords env order records incoming networkName maxRecords).2 ∧
      (mergeHostnameRecords env order records incoming networkName maxRecords).2.Pairwise
        fun a b => a.payload.peer ≤ b.payload.peer := by
  rw [mergeHostnameRecords] at hmerge ⊢
  split at hmerge
  · cases hmerge
  · rename_i merged stats' hmerged
    simp only [mergedHostnameRecords, bind_eq_ok] at hmerged
    obtain ⟨_, -, _, -, canonical, hcanonical, ⟨next, nextStats⟩, hfold, hresult⟩ := hmerged
    obtain ⟨rfl, -⟩ := Prod.mk.inj (Except.ok.inj hresult)
    have hlatest := latest_foldlM_mergeHostnameRecord
      (h.trans (latest_canonicalHostnameRecords hcanonical)) hfold
    exact ⟨hlatest.perm (perm_sortBy _), pairwise_sortBy _⟩

/-- A batch that is refused leaves the records as they were. -/
lemma mergeHostnameRecords_of_error {error : HostnameRecordError}
    (h : (mergeHostnameRecords env order records incoming networkName maxRecords).1 = .error error) :
    (mergeHostnameRecords env order records incoming networkName maxRecords).2 = records := by
  rw [mergeHostnameRecords] at h ⊢
  split at h
  · rfl
  · cases h

/-- What a replica holds: the latest of the records that it has merged, sorted by peer. -/
structure HostnameReplica.Holds (replica : HostnameReplica) : Prop where
  latest : LatestRecords (· ∈ replica.merged) replica.records
  sorted : replica.records.Pairwise fun a b => a.payload.peer ≤ b.payload.peer

/-- One batch. -/
lemma HostnameReplica.Holds.merge {replica : HostnameReplica} (h : replica.Holds) (batch : HostnameBatch) :
    (replica.merge env networkName batch).Holds := by
  unfold HostnameReplica.merge
  dsimp only
  split
  · rename_i error herror
    rw [mergeHostnameRecords_of_error herror]
    exact h
  · rename_i stats hmerge
    obtain ⟨hlatest, hsorted⟩ := latest_mergeHostnameRecords h.latest hmerge
    exact ⟨hlatest.congr fun record => by simp, hsorted⟩

variable (env networkName)

/-- Any batches. -/
lemma HostnameReplica.holds_after (batches : List HostnameBatch) :
    (HostnameReplica.after env networkName batches).Holds := by
  have hfold : ∀ replica : HostnameReplica, replica.Holds →
      (batches.foldl (HostnameReplica.merge env networkName) replica).Holds := by
    induction batches with
    | nil => exact fun _ h => h
    | cons batch batches ih => exact fun _ h => ih _ (h.merge batch)
  exact hfold _ ⟨Latest.empty.congr (by simp), List.Pairwise.nil⟩

/-- **Merging hostname records is a join.**  Two replicas that have merged the same records, in any order and
any batches, hold the same list: the record of the highest sequence number of each peer, sorted by
peer.  A batch that is refused changes nothing, and neither does a batch of records that are covered
already. -/
theorem hostname_merge_converges :
    (∀ batches batches', (∀ record, record ∈ (HostnameReplica.after env networkName batches).merged ↔
        record ∈ (HostnameReplica.after env networkName batches').merged) →
      (HostnameReplica.after env networkName batches).records
        = (HostnameReplica.after env networkName batches').records) ∧
    (∀ batches,
      ((HostnameReplica.after env networkName batches).records.Pairwise
        fun a b => a.payload.peer < b.payload.peer) ∧
      ∀ record, record ∈ (HostnameReplica.after env networkName batches).records ↔
        record ∈ (HostnameReplica.after env networkName batches).merged ∧
          ∀ other ∈ (HostnameReplica.after env networkName batches).merged,
            other.payload.peer = record.payload.peer → other.payload.sequence ≤ record.payload.sequence) ∧
    (∀ order records incoming maxRecords error,
      (mergeHostnameRecords env order records incoming networkName maxRecords).1 = .error error →
      (mergeHostnameRecords env order records incoming networkName maxRecords).2 = records) ∧
    ∀ batches (batch : HostnameBatch),
      (∀ record ∈ batch.incoming, ∃ other ∈ (HostnameReplica.after env networkName batches).records,
        other.payload.peer = record.payload.peer ∧
          (record.payload.sequence < other.payload.sequence ∨ record = other)) →
      (mergeHostnameRecords env batch.order (HostnameReplica.after env networkName batches).records
        batch.incoming networkName batch.maxRecords).2
        = (HostnameReplica.after env networkName batches).records := by
  refine ⟨fun batches batches' hsame => ?_, fun batches => ?_,
    fun _ _ _ _ _ => mergeHostnameRecords_of_error, fun batches batch hcovered => ?_⟩
  · have h := HostnameReplica.holds_after env networkName batches
    have h' := HostnameReplica.holds_after env networkName batches'
    exact (h.latest.congr hsame).eq_of_sorted h'.latest h.sorted h'.sorted
  · have h := HostnameReplica.holds_after env networkName batches
    refine ⟨?_, h.latest.mem_iff⟩
    exact h.sorted.imp₂ (fun _ _ hle hne => lt_of_le_of_ne hle hne) (List.pairwise_map.mp h.latest.nodup)
  · have h := HostnameReplica.holds_after env networkName batches
    generalize hresult : mergeHostnameRecords env batch.order
      (HostnameReplica.after env networkName batches).records batch.incoming networkName
      batch.maxRecords = result
    cases hmerge : result.1 with
    | error error =>
      subst hresult
      exact mergeHostnameRecords_of_error hmerge
    | ok stats =>
      subst hresult
      obtain ⟨hlatest, hsorted⟩ := latest_mergeHostnameRecords h.latest hmerge
      have hheld : LatestRecords
          (fun record => record ∈ (HostnameReplica.after env networkName batches).merged ∨
            record ∈ batch.incoming) (HostnameReplica.after env networkName batches).records :=
        h.latest.keep_all hcovered
      exact hlatest.eq_of_sorted hheld hsorted h.sorted

/-- A record of a peer of the sample network. -/
def sampleHostname (peer : SamplePeer) (sequence : ℕ) (hostname : String) : SignedHostnameRecord where
  payload :=
    { version := 1
      networkName := "lab"
      peer := peer.text
      publicKey := peer.publicKey
      sequence
      hostname
      issuedAtUnixSeconds := 10 }
  signature := match peer with
    | .A => "A1"
    | .B => "B1"
    | .C => "C1"

/-- `B` has signed two records under its first sequence number.  Each comes when the second number is
there, or before. -/
def oldNameFirst : List HostnameBatch :=
  [⟨.sorted, [sampleHostname .B 1 "tablet"], 8⟩, ⟨.sorted, [sampleHostname .B 2 "phone"], 8⟩,
    ⟨.sorted, [sampleHostname .B 1 "laptop", sampleHostname .A 1 "nas"], 8⟩]

def oldNameLast : List HostnameBatch :=
  [⟨.sorted, [sampleHostname .A 1 "nas", sampleHostname .B 1 "laptop", sampleHostname .B 2 "phone"], 8⟩,
    ⟨.sorted, [sampleHostname .B 1 "tablet"], 8⟩]

/-- The two replicas hold the same names. -/
theorem sample_replicas_converge :
    (HostnameReplica.after sampleHostnames "lab" oldNameFirst).records
        = [sampleHostname .B 2 "phone", sampleHostname .A 1 "nas"] ∧
      (HostnameReplica.after sampleHostnames "lab" oldNameFirst).records
        = (HostnameReplica.after sampleHostnames "lab" oldNameLast).records := by
  have hfirst : (HostnameReplica.after sampleHostnames "lab" oldNameFirst).merged
      = [sampleHostname .B 1 "tablet", sampleHostname .B 2 "phone", sampleHostname .B 1 "laptop",
          sampleHostname .A 1 "nas"] := by decide +kernel
  have hlast : (HostnameReplica.after sampleHostnames "lab" oldNameLast).merged
      = [sampleHostname .A 1 "nas", sampleHostname .B 1 "laptop", sampleHostname .B 2 "phone",
          sampleHostname .B 1 "tablet"] := by decide +kernel
  refine ⟨by decide +kernel, (hostname_merge_converges sampleHostnames "lab").1 _ _ fun record => ?_⟩
  rw [hfirst, hlast]
  simp only [List.mem_cons, List.not_mem_nil, or_false]
  tauto

end P2pVpn.Dns
