/-
# What is stored can be restored

A state is reachable when it was made for a new network or from what was stored, and changed only
by operations that succeeded.  Every reachable state passes the checks of the loader, so the node
finds its snapshot and its names again after a restart (`reachable_restore_retained`).
-/
import P2pVpn.Checkpoint.Monotone

namespace P2pVpn.Checkpoint

open Lib P2pVpn.Membership CooperativeMembershipState

variable {T K : Type} [DecidableEq T] {env : CheckpointPlatform T K}
  {state next : CooperativeMembershipState}

/-- The states that a node can be in. -/
inductive Reachable (env : CheckpointPlatform T K) : CooperativeMembershipState → Prop where
  | bootstrapAt {capability : NetworkCapability} {localPeer : String}
      {members : List CheckpointMember} {policy : SnapshotPolicy} {now : ℕ}
      {state : CooperativeMembershipState}
      (made : CooperativeMembershipState.bootstrapAt env capability localPeer members policy now
        = .ok state) :
      Reachable env state
  | restore {capability : NetworkCapability} {localPeer : String}
      {retained : RetainedCheckpointState} {state : CooperativeMembershipState}
      (made : CooperativeMembershipState.restore env capability localPeer retained = .ok state) :
      Reachable env state
  | perform {state next : CooperativeMembershipState} {operation : Operation T}
      (before : Reachable env state) (performed : operation.perform env state = .ok next) :
      Reachable env next

/-! ## What the loader checks -/

/-- A reachable state is valid, and belongs to a peer that the loader accepts. -/
lemma Reachable.valid (h : Reachable env state) :
    StateValid env state ∧ validateLocalPeer env state.localPeer = .ok () := by
  induction h with
  | bootstrapAt made =>
    refine ⟨stateValid_bootstrapAt made, ?_⟩
    simp only [CooperativeMembershipState.bootstrapAt, bind_eq_ok] at made
    obtain ⟨⟨⟩, hpeer, _, _, hstate⟩ := made
    obtain rfl := Except.ok.inj hstate
    exact hpeer
  | restore made =>
    refine ⟨stateValid_restore made, ?_⟩
    simp only [CooperativeMembershipState.restore, bind_eq_ok] at made
    obtain ⟨⟨⟩, hpeer, _, _, _, _, hstate⟩ := made
    obtain rfl := Except.ok.inj hstate
    exact hpeer
  | perform _ performed ih =>
    obtain ⟨hvalid, hpeer⟩ := ih
    obtain ⟨-, hkept, -⟩ := frame_of_perform hvalid performed
    rw [hkept]
    exact ⟨(advances_of_perform hvalid performed).valid, hpeer⟩

/-- The loader's check of names, on a snapshot that authenticates. -/
lemma validateNames_of_verify {capability : NetworkCapability} {snapshot : AuthenticatedSnapshot}
    {names : List SignedHostnameClaim} (hverified : capability.verify env snapshot = .ok ())
    (hnames : NamesValid env snapshot.payload names) :
    validateNames env snapshot.payload names = .ok () := by
  obtain ⟨-, hvalid, -⟩ := NetworkCapability.verify_eq_ok.mp hverified
  exact (validateNames_eq_ok hvalid).mpr hnames

/-- **Every reachable state can be saved and restored.**  Its snapshot authenticates and its names
are in order for it, as are those of the best branch of a round; the loader accepts what is stored
of it, and yields the same snapshot and names in a state that has to resync. -/
theorem reachable_restore_retained (h : Reachable env state) :
    state.capability.verify env state.current = .ok () ∧
    validateNames env state.current.payload state.names = .ok () ∧
    (∀ round, state.round = some round →
      state.capability.verify env round.best = .ok () ∧
      validateNames env round.best.payload round.names = .ok ()) ∧
    restore env state.capability state.localPeer state.retained
      = .ok { state with syncState := .resyncRequired, round := none } := by
  obtain ⟨hvalid, hpeer⟩ := h.valid
  have hnames := validateNames_of_verify hvalid.current hvalid.names
  refine ⟨hvalid.current, hnames, ?_, ?_⟩
  · intro round hround
    obtain ⟨hroundValid, -⟩ := hvalid.round round hround
    exact ⟨hroundValid.best, validateNames_of_verify hroundValid.best hroundValid.names⟩
  · unfold CooperativeMembershipState.restore
    simp only [hpeer, retained, hvalid.current, hnames]
    rfl

/-- `A` makes the network of three and takes a name; both are found again. -/
theorem sample_restore_retained :
    Reachable sampleEnv sampleState ∧
    restore sampleEnv sampleState.capability sampleState.localPeer sampleState.retained
      = .ok { sampleState with syncState := .resyncRequired } := by
  have hmade : bootstrapAt sampleEnv sampleCapability (SamplePeer.text .A)
      ([.C, .A, .B].map sampleMember) ⟨256, true⟩ 100
        = .ok { sampleState with names := [] } := by
    decide +kernel
  have hnamed : (Operation.mergeHostnameClaims [sampleClaim] : Operation SamplePeer).perform
      sampleEnv { sampleState with names := [] } = .ok sampleState := by
    decide +kernel
  have hreachable : Reachable sampleEnv sampleState := (Reachable.bootstrapAt hmade).perform hnamed
  obtain ⟨-, -, -, hrestored⟩ := reachable_restore_retained hreachable
  exact ⟨hreachable, hrestored⟩

end P2pVpn.Checkpoint
