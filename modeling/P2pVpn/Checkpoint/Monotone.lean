/-
# Checkpoint authority only moves forward

A run of a checkpoint state is any sequence of its operations, in any order and at any times; an
operation that fails leaves the state as it was.  Along every run the rank of the current snapshot
never decreases, and a mutation that was applied once is never applied again
(`checkpoint_authority_monotone`).
-/
import P2pVpn.Checkpoint.Sample

namespace P2pVpn.Checkpoint

open Lib CooperativeMembershipState

/-- The operations on a state.  A live rebase takes the state that was installed. -/
inductive Operation (T : Type) where
  | applyMutationAt (mutation : SignedMembershipMutation) (now : ℕ)
  | mergeHostnameClaims (claims : List SignedHostnameClaim)
  | beginResync (now window : ℕ) (nonce : {nonce : Bytes32 // nonce ≠ 0})
  | collectOffer (arrival : Arrival T)
  | rebaseLiveResyncOnInstalled (installed : CooperativeMembershipState)
  | finishResync (now wallNow : ℕ)

variable {T K : Type} [DecidableEq T] (env : CheckpointPlatform T K)

/-- One operation: the new state, or why it failed. -/
def Operation.perform (state : CooperativeMembershipState) :
    Operation T → Except CheckpointError CooperativeMembershipState
  | .applyMutationAt mutation now => state.applyMutationAt env mutation now
  | .mergeHostnameClaims claims => state.mergeHostnameClaims env claims
  | .beginResync now window nonce => Prod.fst <$> state.beginResync env now window nonce
  | .collectOffer arrival =>
      Prod.fst <$> state.collectOffer env arrival.offer arrival.transportPeer arrival.now
  | .rebaseLiveResyncOnInstalled installed => state.rebaseLiveResyncOnInstalled env installed
  | .finishResync now wallNow => Prod.fst <$> state.finishResync env now wallNow

/-- The state after an operation, which is the state before it if the operation fails. -/
def step (state : CooperativeMembershipState) (operation : Operation T) :
    CooperativeMembershipState :=
  match operation.perform env state with
  | .ok next => next
  | .error _ => state

def run (state : CooperativeMembershipState) (operations : List (Operation T)) :
    CooperativeMembershipState :=
  operations.foldl (step env) state

variable {env} {state next : CooperativeMembershipState}

/-! ## One operation -/

/-- What an operation preserves: the invariant, and the authority reached so far. -/
structure Advances (env : CheckpointPlatform T K) (state next : CooperativeMembershipState) :
    Prop where
  valid : StateValid env next
  rank : state.current.payload.rankOf env ≤ next.current.payload.rankOf env

omit [DecidableEq T] in
lemma rankOf_le_of_succ {snapshot other : CheckpointSnapshot}
    (h : other.authorityRevision = snapshot.authorityRevision + 1) :
    snapshot.rankOf env ≤ other.rankOf env := by
  refine (SnapshotRank.lt_of_authorityRevision_lt ?_).le
  show snapshot.authorityRevision < other.authorityRevision
  omega

/-- What an operation leaves alone, and what it does to the authority: the node keeps its capability
and its peer, and the current snapshot is replaced only by one that is not below it. -/
lemma frame_of_perform (hstate : StateValid env state) {operation : Operation T}
    (h : operation.perform env state = .ok next) :
    next.capability = state.capability ∧ next.localPeer = state.localPeer ∧
      state.current.payload.rankOf env ≤ next.current.payload.rankOf env := by
  cases operation with
  | applyMutationAt mutation now =>
    obtain ⟨_, -, -, -, -, hrevision, rfl⟩ := applyMutationAt_eq_ok h
    exact ⟨rfl, rfl, rankOf_le_of_succ hrevision⟩
  | mergeHostnameClaims claims =>
    simp only [Operation.perform, CooperativeMembershipState.mergeHostnameClaims, bind_eq_ok] at h
    obtain ⟨_, _, _, _, hnext⟩ := h
    obtain rfl := Except.ok.inj hnext
    exact ⟨rfl, rfl, le_rfl⟩
  | beginResync now window nonce =>
    obtain ⟨_, h⟩ := map_fst_eq_ok.mp h
    obtain ⟨-, hnext⟩ := beginResync_eq_ok_iff.mp h
    obtain ⟨rfl, -⟩ := Prod.ext_iff.mp hnext
    exact ⟨rfl, rfl, le_rfl⟩
  | collectOffer arrival =>
    obtain ⟨outcome, h⟩ := map_fst_eq_ok.mp h
    cases hsome : state.round with
    | none =>
      rw [CooperativeMembershipState.collectOffer, hsome] at h
      cases h
    | some round =>
      obtain ⟨-, hnext⟩ := (collectOffer_eq_ok_iff hstate.current (hstate.round round hsome).1
        hsome).mp h
      obtain ⟨rfl, -⟩ := Prod.ext_iff.mp hnext
      exact ⟨rfl, rfl, le_rfl⟩
  | rebaseLiveResyncOnInstalled installed =>
    obtain ⟨_, -, -, hrevision, rfl⟩ := rebaseLiveResyncOnInstalled_eq_ok hstate h
    exact ⟨rfl, rfl, rankOf_le_of_succ hrevision⟩
  | finishResync now wallNow =>
    obtain ⟨_, h⟩ := map_fst_eq_ok.mp h
    obtain ⟨round, hsome, hnext⟩ := finishResync_eq_ok h
    obtain rfl := hnext
    exact ⟨rfl, rfl, (hstate.round round hsome).1.rank⟩

lemma advances_of_perform (hstate : StateValid env state) {operation : Operation T}
    (h : operation.perform env state = .ok next) : Advances env state next := by
  refine ⟨?_, (frame_of_perform hstate h).2.2⟩
  cases operation with
  | applyMutationAt mutation now => exact hstate.applyMutationAt h
  | mergeHostnameClaims claims => exact hstate.mergeHostnameClaims h
  | beginResync now window nonce =>
    obtain ⟨_, h⟩ := map_fst_eq_ok.mp h
    exact hstate.beginResync h
  | collectOffer arrival =>
    obtain ⟨_, h⟩ := map_fst_eq_ok.mp h
    exact hstate.collectOffer h
  | rebaseLiveResyncOnInstalled installed => exact hstate.rebaseLiveResyncOnInstalled h
  | finishResync now wallNow =>
    obtain ⟨_, h⟩ := map_fst_eq_ok.mp h
    exact hstate.finishResync h

/-! ## Runs -/

lemma run_append (before after : List (Operation T)) :
    run env state (before ++ after) = run env (run env state before) after :=
  List.foldl_append

lemma advances_step (hstate : StateValid env state) (operation : Operation T) :
    Advances env state (step env state operation) := by
  unfold step
  cases h : operation.perform env state with
  | ok next => exact advances_of_perform hstate h
  | error _ => exact ⟨hstate, le_rfl⟩

lemma advances_run (hstate : StateValid env state) (operations : List (Operation T)) :
    Advances env state (run env state operations) := by
  induction operations generalizing state with
  | nil => exact ⟨hstate, le_rfl⟩
  | cons operation operations ih =>
    obtain ⟨hvalid, hrank⟩ := advances_step hstate operation
    obtain ⟨hvalid', hrank'⟩ := ih hvalid
    exact ⟨hvalid', hrank.trans hrank'⟩

/-- **Authority is monotone and replay-free.**  In every state that a run reaches from a valid one,
the current snapshot has a rank, and whatever follows it is not decreased; a mutation that is
applied moves the revision on by one; the best branch of a round is not below the current snapshot;
and a mutation that is applied is refused in every state after that. -/
theorem checkpoint_authority_monotone (hstate : StateValid env state)
    (before : List (Operation T)) :
    (run env state before).current.payload.rank env
      = .ok ((run env state before).current.payload.rankOf env) ∧
    (∀ after, (run env state before).current.payload.rankOf env
      ≤ (run env state (before ++ after)).current.payload.rankOf env) ∧
    (∀ mutation now next, (run env state before).applyMutationAt env mutation now = .ok next →
      next.current.payload.authorityRevision
        = (run env state before).current.payload.authorityRevision + 1) ∧
    (∀ round, (run env state before).round = some round →
      (run env state before).current.payload.rankOf env ≤ round.best.payload.rankOf env) ∧
    (∀ mutation now next, (run env state before).applyMutationAt env mutation now = .ok next →
      ∀ after now' next',
        (run env state (before ++ .applyMutationAt mutation now :: after)).applyMutationAt env
          mutation now' ≠ .ok next') := by
  obtain ⟨hvalid, -⟩ := advances_run hstate before
  refine ⟨?_, ?_, ?_, ?_, ?_⟩
  · obtain ⟨-, hpayload, -⟩ := NetworkCapability.verify_eq_ok.mp hvalid.current
    exact CheckpointSnapshot.rank_eq_ok.mpr ⟨hpayload, rfl⟩
  · intro after
    rw [run_append]
    exact (advances_run hvalid after).rank
  · intro mutation now next happly
    obtain ⟨_, -, -, -, -, hrevision, rfl⟩ := applyMutationAt_eq_ok happly
    exact hrevision
  · intro round hround
    exact (hvalid.round round hround).1.rank
  · -- the mutation names the revision it was applied at, and the revision has moved on
    intro mutation now next happly after now' next' happly'
    have hstep : step env (run env state before) (.applyMutationAt mutation now) = next := by
      simp only [step, Operation.perform, happly]
    have hrun : run env state (before ++ .applyMutationAt mutation now :: after)
        = run env next after := by
      rw [run_append, ← hstep]
      rfl
    have hrank := (advances_run (hvalid.applyMutationAt happly) after).rank
    rw [hrun] at happly'
    obtain ⟨_, -, hbase, -, -, hrevision, rfl⟩ := applyMutationAt_eq_ok happly
    obtain ⟨_, -, hbase', -⟩ := applyMutationAt_eq_ok happly'
    have hle := SnapshotRank.authorityRevision_le hrank
    simp only [CheckpointSnapshot.rankOf] at hle
    omega

/-- `A` removes `C`, once and never again. -/
theorem sample_removal_applied_once :
    (∃ next, sampleState.applyMutationAt sampleEnv sampleMutation 100 = .ok next) ∧
    ∀ after now next',
      (run sampleEnv sampleState ([] ++ .applyMutationAt sampleMutation 100 :: after)).applyMutationAt
        sampleEnv sampleMutation now ≠ .ok next' := by
  have happlied : (sampleState.applyMutationAt sampleEnv sampleMutation 100).isOk = true := by
    decide +kernel
  cases hnext : sampleState.applyMutationAt sampleEnv sampleMutation 100 with
  | error _ =>
    rw [hnext] at happlied
    cases happlied
  | ok next =>
    obtain ⟨-, -, -, -, honce⟩ := checkpoint_authority_monotone sampleState_valid []
    exact ⟨⟨next, rfl⟩, honce sampleMutation 100 next hnext⟩

end P2pVpn.Checkpoint
