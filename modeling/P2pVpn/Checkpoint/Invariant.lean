/-
# What every state satisfies

`StateValid` is the invariant of checkpoint states: the current snapshot and the best branch of a
round authenticate, the names kept for either are in order, and the best branch is never below the
current snapshot.  For each operation there is one lemma that says what a successful call does;
from these the invariant follows for every operation (`StateValid.applyMutationAt` and so on) and
for every way to make a state.

`ResyncRound.absorb` is what a round does with a snapshot and its claims, whether they come from an
offer or from a mutation installed in the meantime.
-/
import P2pVpn.Checkpoint.State

namespace P2pVpn.Checkpoint

open Lib P2pVpn.Membership

variable {T K : Type} [DecidableEq T] {env : CheckpointPlatform T K}

/-- A round in order, for a node with the given capability and current snapshot. -/
structure RoundValid (env : CheckpointPlatform T K) (capability : NetworkCapability)
    (current : AuthenticatedSnapshot) (round : ResyncRound) : Prop where
  best : capability.verify env round.best = .ok ()
  names : NamesValid env round.best.payload round.names
  rank : current.payload.rankOf env ≤ round.best.payload.rankOf env

/-- The invariant of checkpoint states. -/
structure StateValid (env : CheckpointPlatform T K) (state : CooperativeMembershipState) :
    Prop where
  current : state.capability.verify env state.current = .ok ()
  names : NamesValid env state.current.payload state.names
  round : ∀ round, state.round = some round →
    RoundValid env state.capability state.current round ∧ state.syncState = .resyncing

/-- A snapshot with its claims, as an offer or an installed state brings it. -/
structure SourceValid (env : CheckpointPlatform T K) (capability : NetworkCapability)
    (snapshot : AuthenticatedSnapshot) (claims : List SignedHostnameClaim) : Prop where
  verified : capability.verify env snapshot = .ok ()
  claims : NamesValid env snapshot.payload claims

/-- The better of a round's best branch and another branch. -/
def ResyncRound.bestWith (env : CheckpointPlatform T K) (round : ResyncRound)
    (snapshot : AuthenticatedSnapshot) : AuthenticatedSnapshot :=
  if round.best.payload.rankOf env < snapshot.payload.rankOf env then snapshot else round.best

/-- A round after it has seen a snapshot and its claims. -/
def ResyncRound.absorb (env : CheckpointPlatform T K) (round : ResyncRound)
    (snapshot : AuthenticatedSnapshot) (claims : List SignedHostnameClaim) : ResyncRound :=
  { round with
    best := round.bestWith env snapshot
    names := mergeClaims (compatibleNames (round.bestWith env snapshot).payload round.names)
      (compatibleNames (round.bestWith env snapshot).payload claims) }

section Round

variable {capability : NetworkCapability} {current snapshot : AuthenticatedSnapshot}
  {round : ResyncRound} {claims names : List SignedHostnameClaim}

lemma StateValid.currentSource {state : CooperativeMembershipState} (h : StateValid env state) :
    SourceValid env state.capability state.current state.names :=
  ⟨h.current, h.names⟩

/-- Restricting a source's claims to another snapshot of the network leaves them in order. -/
lemma SourceValid.compatible (h : SourceValid env capability snapshot claims)
    (hcurrent : capability.verify env current = .ok ()) :
    NamesValid env current.payload (compatibleNames current.payload claims) := by
  obtain ⟨hanchor, -⟩ := NetworkCapability.verify_eq_ok.mp h.verified
  obtain ⟨hanchor', -⟩ := NetworkCapability.verify_eq_ok.mp hcurrent
  exact h.claims.compatible (hanchor'.trans hanchor.symm)

omit [DecidableEq T] in
/-- One of the two branches is taken. -/
lemma ResyncRound.bestWith_eq_or (env : CheckpointPlatform T K) (round : ResyncRound)
    (snapshot : AuthenticatedSnapshot) :
    round.bestWith env snapshot = snapshot ∨ round.bestWith env snapshot = round.best := by
  unfold ResyncRound.bestWith
  split
  · exact Or.inl rfl
  · exact Or.inr rfl

omit [DecidableEq T] in
lemma ResyncRound.rankOf_bestWith (env : CheckpointPlatform T K) (round : ResyncRound)
    (snapshot : AuthenticatedSnapshot) :
    (round.bestWith env snapshot).payload.rankOf env
      = round.best.payload.rankOf env ⊔ snapshot.payload.rankOf env := by
  unfold ResyncRound.bestWith
  split
  · rename_i h
    exact (sup_eq_right.mpr h.le).symm
  · rename_i h
    exact (sup_eq_left.mpr (not_lt.mp h)).symm

lemma RoundValid.verify_bestWith (hround : RoundValid env capability current round)
    (hsource : SourceValid env capability snapshot claims) :
    capability.verify env (round.bestWith env snapshot) = .ok () := by
  rcases ResyncRound.bestWith_eq_or env round snapshot with h | h <;> rw [h]
  · exact hsource.verified
  · exact hround.best

/-- The merge of names never fails, and its result is what `absorb` says. -/
lemma RoundValid.mergeNames_eq_ok (hround : RoundValid env capability current round)
    (hsource : SourceValid env capability snapshot claims) :
    mergeNames env (round.bestWith env snapshot).payload
        (compatibleNames (round.bestWith env snapshot).payload round.names)
        (compatibleNames (round.bestWith env snapshot).payload claims)
      = .ok (round.absorb env snapshot claims).names := by
  have hbest := hround.verify_bestWith hsource
  obtain ⟨-, hvalid, -⟩ := NetworkCapability.verify_eq_ok.mp hbest
  have hroundSource : SourceValid env capability round.best round.names := ⟨hround.best, hround.names⟩
  exact Checkpoint.mergeNames_eq_ok hvalid (hroundSource.compatible hbest)
    (hsource.compatible hbest)

lemma RoundValid.absorb (hround : RoundValid env capability current round)
    (hsource : SourceValid env capability snapshot claims) :
    RoundValid env capability current (round.absorb env snapshot claims) := by
  have hbest := hround.verify_bestWith hsource
  have hroundSource : SourceValid env capability round.best round.names := ⟨hround.best, hround.names⟩
  refine ⟨hbest, ((hroundSource.compatible hbest).mergeClaims (hsource.compatible hbest)).1, ?_⟩
  show current.payload.rankOf env ≤ (round.bestWith env snapshot).payload.rankOf env
  rw [ResyncRound.rankOf_bestWith]
  exact hround.rank.trans le_sup_left

end Round

/-! ## What the operations do -/

/-- An offer with the peer that delivers it and the time of its arrival. -/
structure Arrival (T : Type) where
  offer : SignedSnapshotOffer
  transportPeer : T
  now : ℕ

def Arrival.snapshot (arrival : Arrival T) : AuthenticatedSnapshot := arrival.offer.payload.snapshot

def Arrival.claims (arrival : Arrival T) : List SignedHostnameClaim :=
  arrival.offer.payload.hostnameClaims

/-- The conditions under which a round accepts an offer.  None of them looks at the best branch or
at the names collected so far. -/
structure OfferAccepted (env : CheckpointPlatform T K) (capability : NetworkCapability)
    (current : AuthenticatedSnapshot) (challenge : SnapshotChallenge) (deadline : ℕ)
    (arrival : Arrival T) : Prop where
  inTime : arrival.now < deadline
  challenge : arrival.offer.payload.challenge = challenge
  shape : arrival.offer.validateShape env = .ok ()
  verified : capability.verify env arrival.snapshot = .ok ()
  transport : arrival.offer.payload.publisher.peerId = env.peerIdText arrival.transportPeer
  publisher : (arrival.snapshot.payload.member arrival.offer.payload.publisher.peerId).any
    (·.subject = arrival.offer.payload.publisher) = true
  signature : verifySignature env arrival.offer.payload.publisher offerDomain
    (env.offerPayloadJson arrival.offer.payload) arrival.offer.signature = .ok ()
  notStale : current.payload.rankOf env ≤ arrival.snapshot.payload.rankOf env

variable {capability : NetworkCapability} {arrival : Arrival T} {now : ℕ}

lemma OfferAccepted.source {current : AuthenticatedSnapshot} {challenge : SnapshotChallenge}
    {deadline : ℕ} (h : OfferAccepted env capability current challenge deadline arrival) :
    SourceValid env capability arrival.snapshot arrival.claims := by
  refine ⟨h.verified, ?_⟩
  have hshape := h.shape
  simp only [SignedSnapshotOffer.validateShape, bind_eq_ok] at hshape
  obtain ⟨_, _, _, _, _, hvalid, _, _, _, hnames, _⟩ := hshape
  exact (validateNames_eq_ok hvalid).mp hnames

namespace CooperativeMembershipState

variable {state state' installed : CooperativeMembershipState}

/-- `collect_offer` on a round in order: when it succeeds, and what it does. -/
lemma collectOffer_eq_ok_iff {round : ResyncRound}
    (hcurrent : state.capability.verify env state.current = .ok ())
    (hround : RoundValid env state.capability state.current round)
    (hsome : state.round = some round) {result : CooperativeMembershipState × OfferOutcome} :
    state.collectOffer env arrival.offer arrival.transportPeer arrival.now = .ok result ↔
      OfferAccepted env state.capability state.current round.challenge round.deadline arrival ∧
        result = ({ state with round := some { round.absorb env arrival.snapshot arrival.claims with
            observedOffer := true } },
          if round.best.payload.rankOf env < arrival.snapshot.payload.rankOf env then
            .selectedHigherRank else .keptCurrentRank) := by
  obtain ⟨-, hvalid, -⟩ := NetworkCapability.verify_eq_ok.mp hcurrent
  obtain ⟨-, hbest, -⟩ := NetworkCapability.verify_eq_ok.mp hround.best
  have hbranch : (if (if arrival.offer.payload.snapshot.payload.rankOf env
        > round.best.payload.rankOf env then OfferOutcome.selectedHigherRank
        else OfferOutcome.keptCurrentRank) = OfferOutcome.selectedHigherRank
      then arrival.offer.payload.snapshot else round.best)
        = round.bestWith env arrival.snapshot := by
    unfold ResyncRound.bestWith Arrival.snapshot
    by_cases h : round.best.payload.rankOf env < arrival.offer.payload.snapshot.payload.rankOf env
    · simp [h]
    · simp [h]
  unfold collectOffer
  rw [hsome]
  simp only [bind_eq_ok, refuseIf_eq_ok, CheckpointSnapshot.rank_eq_ok, not_le, not_not, ge_iff_le,
    ne_eq, not_lt, Bool.not_eq_true, Bool.not_eq_false]
  constructor
  · rintro ⟨⟨⟩, hinTime, ⟨⟩, hchallenge, ⟨⟩, hshape, ⟨⟩, hverified, ⟨⟩, htransport, ⟨⟩, hpublisher,
      ⟨⟩, hsignature, _, ⟨-, rfl⟩, _, ⟨-, rfl⟩, ⟨⟩, hstale, _, ⟨-, rfl⟩, names, hnames, hresult⟩
    have haccepted : OfferAccepted env state.capability state.current round.challenge
        round.deadline arrival :=
      ⟨hinTime, hchallenge, hshape, hverified, htransport, hpublisher, hsignature, hstale⟩
    rw [hbranch] at hnames
    obtain rfl := Except.ok.inj ((hround.mergeNames_eq_ok haccepted.source).symm.trans hnames)
    refine ⟨haccepted, (Except.ok.inj hresult).symm.trans ?_⟩
    rw [hbranch]
    rfl
  · rintro ⟨haccepted, rfl⟩
    obtain ⟨-, hoffered, -⟩ := NetworkCapability.verify_eq_ok.mp haccepted.verified
    refine ⟨(), haccepted.inTime, (), haccepted.challenge, (), haccepted.shape, (),
      haccepted.verified, (), haccepted.transport, (), haccepted.publisher, (),
      haccepted.signature, _, ⟨hoffered, rfl⟩, _, ⟨hvalid, rfl⟩, (), haccepted.notStale, _,
      ⟨hbest, rfl⟩, (round.absorb env arrival.snapshot arrival.claims).names, ?_, ?_⟩
    · rw [hbranch]
      exact hround.mergeNames_eq_ok haccepted.source
    · rw [hbranch]
      rfl

/-- `rebase_live_resync_on_installed` on a valid state: the installed snapshot succeeds the current
one, takes its place, and is shown to the round. -/
lemma rebaseLiveResyncOnInstalled_eq_ok (hstate : StateValid env state)
    (h : state.rebaseLiveResyncOnInstalled env installed = .ok state') :
    ∃ round, state.round = some round ∧
      SourceValid env state.capability installed.current installed.names ∧
      installed.current.payload.authorityRevision
        = state.current.payload.authorityRevision + 1 ∧
      state' = { state with
        current := installed.current
        names := installed.names
        round := some (round.absorb env installed.current installed.names) } := by
  simp only [rebaseLiveResyncOnInstalled, bind_eq_ok, refuseIf_eq_ok, not_or,
    CheckpointSnapshot.boundary_eq_ok] at h
  obtain ⟨_, _, ⟨⟩, hverified, ⟨⟩, hnames, _, ⟨-, rfl⟩, _, ⟨hsuccessor, -⟩, h⟩ := h
  obtain ⟨-, hvalid, -⟩ := NetworkCapability.verify_eq_ok.mp hverified
  have hsource : SourceValid env state.capability installed.current installed.names :=
    ⟨hverified, (validateNames_eq_ok hvalid).mp hnames⟩
  have hrevision : installed.current.payload.authorityRevision
      = state.current.payload.authorityRevision + 1 := by
    simp only [checkedAdd64, not_not] at hsuccessor
    split at hsuccessor
    · exact (Option.some.inj hsuccessor).symm
    · cases hsuccessor
  cases hsome : state.round with
  | none =>
    rw [hsome] at h
    cases h
  | some round =>
    rw [hsome] at h
    obtain ⟨hround, -⟩ := hstate.round round hsome
    simp only [bind_eq_ok, CheckpointSnapshot.rank_eq_ok] at h
    obtain ⟨_, ⟨-, rfl⟩, _, ⟨-, rfl⟩, names, hmerge, hresult⟩ := h
    obtain rfl := Except.ok.inj ((hround.mergeNames_eq_ok hsource).symm.trans hmerge)
    exact ⟨round, rfl, hsource, hrevision, (Except.ok.inj hresult).symm⟩

omit [DecidableEq T] in
/-- `begin_resync`: a round with the node's own branch and names. -/
lemma beginResync_eq_ok_iff {window : ℕ} {nonce : {nonce : Bytes32 // nonce ≠ 0}}
    {result : CooperativeMembershipState × SnapshotChallenge} :
    state.beginResync env now window nonce = .ok result ↔
      (window ≠ 0 ∧ window ≤ maxResyncWindow ∧ now + window ≤ env.maxInstant) ∧
      result = ({ state with
          round := some
            { challenge := { anchor := state.capability.anchor, nonce := nonce.1 }
              deadline := now + window
              best := state.current
              names := state.names
              observedOffer := false }
          syncState := .resyncing }, { anchor := state.capability.anchor, nonce := nonce.1 }) := by
  simp only [beginResync, bind_eq_ok, refuseIf_eq_ok, not_or, not_lt, exists_const, pure_eq_ok, and_assoc,
    ne_eq]

/-- The state that takes over the branch and the names of a round. -/
def adopt (state : CooperativeMembershipState) (round : ResyncRound) (wallNow : ℕ) :
    CooperativeMembershipState :=
  { state with
    current := round.best
    names := round.names
    syncState := participation round.best.payload state.localPeer wallNow
    round := none }

/-- `finish_resync`: the round's branch becomes the current one. -/
lemma finishResync_eq_ok {wallNow : ℕ} {result : CooperativeMembershipState × BranchSelection}
    (h : state.finishResync env now wallNow = .ok result) :
    ∃ round, state.round = some round ∧ result.1 = state.adopt round wallNow := by
  unfold finishResync at h
  cases hsome : state.round with
  | none =>
    rw [hsome] at h
    cases h
  | some round =>
    rw [hsome] at h
    simp only [bind_eq_ok] at h
    obtain ⟨_, _, _, _, _, _, _, _, hresult⟩ := h
    exact ⟨round, rfl, congrArg Prod.fst (Except.ok.inj hresult).symm⟩

/-- `finish_resync` on a round in order succeeds once the window has elapsed. -/
lemma finishResync_eq_ok_iff {round : ResyncRound}
    (hcurrent : state.capability.verify env state.current = .ok ())
    (hround : RoundValid env state.capability state.current round)
    (hsome : state.round = some round) {wallNow : ℕ} :
    Prod.fst <$> state.finishResync env now wallNow = .ok state' ↔
      round.deadline ≤ now ∧ state' = state.adopt round wallNow := by
  obtain ⟨-, hvalid, -⟩ := NetworkCapability.verify_eq_ok.mp hcurrent
  obtain ⟨-, hbest, -⟩ := NetworkCapability.verify_eq_ok.mp hround.best
  rw [map_fst_eq_ok]
  unfold finishResync
  rw [hsome]
  simp only [bind_eq_ok, refuseIf_eq_ok, not_lt, CheckpointSnapshot.boundary_eq_ok]
  constructor
  · rintro ⟨_, _, hnow, _, _, _, _, _, _, hresult⟩
    exact ⟨hnow, congrArg Prod.fst (Except.ok.inj hresult).symm⟩
  · rintro ⟨hnow, rfl⟩
    exact ⟨_, (), hnow, (), hround.best, _, ⟨hvalid, rfl⟩, _, ⟨hbest, rfl⟩, rfl⟩

/-- The snapshot after a change: authenticated, at the next revision. -/
lemma changedSnapshot_eq_ok {change : MembershipChange} {next : AuthenticatedSnapshot}
    (h : state.changedSnapshot env change now = .ok next) :
    state.capability.verify env next = .ok () ∧
      next.payload.anchor = state.current.payload.anchor ∧
      next.payload.authorityRevision = state.current.payload.authorityRevision + 1 := by
  simp only [changedSnapshot, bind_eq_ok] at h
  obtain ⟨_, _, h⟩ := h
  cases hrevision : nextRevision state.current.payload.authorityRevision with
  | none =>
    rw [hrevision] at h
    cases h
  | some revision =>
    rw [hrevision] at h
    simp only [bind_eq_ok] at h
    obtain ⟨boundary, _, hnext⟩ := h
    obtain ⟨hpayload, hverified⟩ := NetworkCapability.authenticate_eq_ok hnext
    have hsucc : revision = state.current.payload.authorityRevision + 1 := by
      simp only [nextRevision, checkedAdd64, Option.filter_eq_some_iff] at hrevision
      obtain ⟨hadd, -⟩ := hrevision
      split at hadd
      · exact (Option.some.inj hadd).symm
      · cases hadd
    rw [hpayload]
    exact ⟨hverified, rfl, hsucc⟩

/-- `apply_mutation_at`: the mutation is for the current boundary, and the next revision takes the
place of the current one. -/
lemma applyMutationAt_eq_ok {mutation : SignedMembershipMutation}
    (h : state.applyMutationAt env mutation now = .ok state') :
    ∃ next, state.syncState = .participating ∧
      mutation.payload.base.authorityRevision = state.current.payload.authorityRevision ∧
      state.capability.verify env next = .ok () ∧
      next.payload.anchor = state.current.payload.anchor ∧
      next.payload.authorityRevision = state.current.payload.authorityRevision + 1 ∧
      state' = { state with
        current := next
        names := compatibleNames next.payload state.names
        syncState := participation next.payload state.localPeer now } := by
  simp only [applyMutationAt, bind_eq_ok, requireParticipation, refuseIf_eq_ok, not_or,
    not_not] at h
  obtain ⟨_, ⟨hsync, -⟩, _, hmutation, _, _, _, _, _, _, next, hnext, hresult⟩ := h
  have hbase : mutation.payload.base.authorityRevision
      = state.current.payload.authorityRevision := by
    simp only [validateMutation, bind_eq_ok, refuseIf_eq_ok, CheckpointSnapshot.boundary_eq_ok,
      not_not, ne_eq] at hmutation
    obtain ⟨_, _, _, _, _, ⟨-, rfl⟩, _, hbase, -⟩ := hmutation
    rw [hbase]
  obtain ⟨hverified, hanchor, hrevision⟩ := changedSnapshot_eq_ok hnext
  exact ⟨next, hsync, hbase, hverified, hanchor, hrevision, (Except.ok.inj hresult).symm⟩

end CooperativeMembershipState

/-! ## The invariant -/

open CooperativeMembershipState

variable {state state' installed : CooperativeMembershipState}

/-- A table without claims is in order for every snapshot. -/
lemma namesValid_nil (snapshot : CheckpointSnapshot) : NamesValid env snapshot [] :=
  ⟨by simp, by simp, List.Pairwise.nil⟩

/-- **A state is valid when it is made**, whether for a new network or from what was stored. -/
theorem stateValid_bootstrapAt {localPeer : String} {members : List CheckpointMember}
    {policy : SnapshotPolicy}
    (h : bootstrapAt env capability localPeer members policy now = .ok state) :
    StateValid env state := by
  simp only [bootstrapAt, bind_eq_ok] at h
  obtain ⟨_, _, current, hcurrent, hstate⟩ := h
  obtain rfl := Except.ok.inj hstate
  obtain ⟨-, hverified⟩ := NetworkCapability.authenticate_eq_ok hcurrent
  exact ⟨hverified, namesValid_nil _, fun _ hround => by cases hround⟩

theorem stateValid_restore {localPeer : String} {retained : RetainedCheckpointState}
    (h : restore env capability localPeer retained = .ok state) : StateValid env state := by
  simp only [restore, bind_eq_ok] at h
  obtain ⟨_, _, ⟨⟩, hverified, ⟨⟩, hnames, hstate⟩ := h
  obtain rfl := Except.ok.inj hstate
  obtain ⟨-, hvalid, -⟩ := NetworkCapability.verify_eq_ok.mp hverified
  exact ⟨hverified, (validateNames_eq_ok hvalid).mp hnames, fun _ hround => by cases hround⟩

section Operations

variable (hstate : StateValid env state)
include hstate

/-- There is no round while the node takes part. -/
lemma StateValid.round_eq_none (hsync : state.syncState ≠ .resyncing) : state.round = none := by
  cases hround : state.round with
  | none => rfl
  | some round => exact absurd (hstate.round round hround).2 hsync

lemma StateValid.applyMutationAt {mutation : SignedMembershipMutation}
    (h : state.applyMutationAt env mutation now = .ok state') : StateValid env state' := by
  obtain ⟨next, hsync, -, hverified, -, -, rfl⟩ := applyMutationAt_eq_ok h
  refine ⟨hverified, hstate.currentSource.compatible hverified, ?_⟩
  intro round hround
  have hnone := hstate.round_eq_none (by rw [hsync]; decide)
  rw [show state.round = some round from hround] at hnone
  cases hnone

lemma StateValid.mergeHostnameClaims {claims : List SignedHostnameClaim}
    (h : state.mergeHostnameClaims env claims = .ok state') : StateValid env state' := by
  obtain ⟨-, hvalid, -⟩ := NetworkCapability.verify_eq_ok.mp hstate.current
  simp only [CooperativeMembershipState.mergeHostnameClaims, bind_eq_ok] at h
  obtain ⟨⟨⟩, hclaims, names, hnames, hresult⟩ := h
  have hclaims := (validateNames_eq_ok hvalid).mp hclaims
  obtain rfl := Except.ok.inj ((mergeNames_eq_ok hvalid hstate.names hclaims).symm.trans hnames)
  obtain rfl := Except.ok.inj hresult
  exact ⟨hstate.current, (hstate.names.mergeClaims hclaims).1, hstate.round⟩

/-- A round starts with the node's own branch. -/
lemma StateValid.beginResync {window : ℕ} {nonce : {nonce : Bytes32 // nonce ≠ 0}}
    {result : CooperativeMembershipState × SnapshotChallenge}
    (h : state.beginResync env now window nonce = .ok result) : StateValid env result.1 := by
  obtain ⟨-, rfl⟩ := beginResync_eq_ok_iff.mp h
  refine ⟨hstate.current, hstate.names, ?_⟩
  intro round hround
  obtain rfl := Option.some.inj hround
  exact ⟨⟨hstate.current, hstate.names, le_rfl⟩, rfl⟩

lemma StateValid.collectOffer {result : CooperativeMembershipState × OfferOutcome}
    (h : state.collectOffer env arrival.offer arrival.transportPeer arrival.now = .ok result) :
    StateValid env result.1 := by
  cases hsome : state.round with
  | none =>
    rw [CooperativeMembershipState.collectOffer, hsome] at h
    cases h
  | some round =>
    obtain ⟨hround, hsync⟩ := hstate.round round hsome
    obtain ⟨haccepted, rfl⟩ := (collectOffer_eq_ok_iff hstate.current hround hsome).mp h
    refine ⟨hstate.current, hstate.names, ?_⟩
    intro round' hround'
    obtain rfl := Option.some.inj hround'
    obtain ⟨hbest, hnames, hrank⟩ := hround.absorb haccepted.source
    exact ⟨⟨hbest, hnames, hrank⟩, hsync⟩

lemma StateValid.rebaseLiveResyncOnInstalled
    (h : state.rebaseLiveResyncOnInstalled env installed = .ok state') : StateValid env state' := by
  obtain ⟨round, hsome, hsource, -, rfl⟩ := rebaseLiveResyncOnInstalled_eq_ok hstate h
  obtain ⟨hround, hsync⟩ := hstate.round round hsome
  refine ⟨hsource.verified, hsource.claims, ?_⟩
  intro round' hround'
  obtain rfl := Option.some.inj hround'
  obtain ⟨hbest, hnames, -⟩ := hround.absorb hsource
  refine ⟨⟨hbest, hnames, ?_⟩, hsync⟩
  show installed.current.payload.rankOf env
    ≤ (round.bestWith env installed.current).payload.rankOf env
  rw [ResyncRound.rankOf_bestWith]
  exact le_sup_right

lemma StateValid.finishResync {wallNow : ℕ} {result : CooperativeMembershipState × BranchSelection}
    (h : state.finishResync env now wallNow = .ok result) : StateValid env result.1 := by
  obtain ⟨round, hsome, hresult⟩ := finishResync_eq_ok h
  obtain ⟨hround, -⟩ := hstate.round round hsome
  rw [hresult]
  exact ⟨hround.best, hround.names, fun _ h => by cases h⟩

end Operations

end P2pVpn.Checkpoint
