/-
# Resync rounds

A resync round begins, collects offers, and finishes with the best branch it has seen.  Which
offers a round accepts does not depend on the order (`resync_eq_ok_iff`), and what it makes of them
is the collection under a running best source of `Lib.RunningBest`: the sources are the node's own
snapshot and the offered ones, each with its claims (`closedRound_refines`).

The branch that a round selects is the one of the highest rank, so it depends on neither the order
of the offers nor the node that runs the round (`resync_selects_highest_rank`).
-/
import P2pVpn.Checkpoint.Sample
import P2pVpn.Lib.RunningBest

namespace P2pVpn.Checkpoint

open Lib CooperativeMembershipState

variable {T K : Type} [DecidableEq T] (env : CheckpointPlatform T K)

/-- When a round begins and ends, and the nonce of its challenge. -/
structure RoundSchedule where
  startedAt : ℕ
  window : ℕ
  nonce : {nonce : Bytes32 // nonce ≠ 0}
  finishedAt : ℕ
  wallNow : ℕ

/-- `collect_offer` on one offer after another, each of which must be accepted. -/
def collectOffers (state : CooperativeMembershipState) (arrivals : List (Arrival T)) :
    Except CheckpointError CooperativeMembershipState :=
  arrivals.foldlM (fun state arrival =>
    Prod.fst <$> state.collectOffer env arrival.offer arrival.transportPeer arrival.now) state

/-- A whole round. -/
def resync (state : CooperativeMembershipState) (schedule : RoundSchedule)
    (arrivals : List (Arrival T)) : Except CheckpointError CooperativeMembershipState := do
  let (begun, _) ← state.beginResync env schedule.startedAt schedule.window schedule.nonce
  let collected ← collectOffers env begun arrivals
  Prod.fst <$> collected.finishResync env schedule.finishedAt schedule.wallNow

/-- The snapshots that a round chooses from. -/
def candidates (state : CooperativeMembershipState) (arrivals : List (Arrival T)) :
    List AuthenticatedSnapshot :=
  state.current :: arrivals.map Arrival.snapshot

/-! ## Rounds as folds -/

/-- A round after an accepted offer. -/
def absorbArrival (round : ResyncRound) (arrival : Arrival T) : ResyncRound :=
  { round.absorb env arrival.snapshot arrival.claims with observedOffer := true }

/-- The round at its start. -/
def openRound (state : CooperativeMembershipState) (schedule : RoundSchedule) : ResyncRound where
  challenge := { anchor := state.capability.anchor, nonce := schedule.nonce.1 }
  deadline := schedule.startedAt + schedule.window
  best := state.current
  names := state.names
  observedOffer := false

/-- The round after all offers. -/
def closedRound (state : CooperativeMembershipState) (schedule : RoundSchedule)
    (arrivals : List (Arrival T)) : ResyncRound :=
  arrivals.foldl (absorbArrival env) (openRound state schedule)

/-- The offers that a round of this state and schedule accepts. -/
def Acceptable (state : CooperativeMembershipState) (schedule : RoundSchedule)
    (arrival : Arrival T) : Prop :=
  OfferAccepted env state.capability state.current (openRound state schedule).challenge
    (openRound state schedule).deadline arrival

/-- The times at which a round can begin and end. -/
structure RoundSchedule.Proper (env : CheckpointPlatform T K) (schedule : RoundSchedule) :
    Prop where
  window_pos : schedule.window ≠ 0
  window_le : schedule.window ≤ maxResyncWindow
  deadline_le : schedule.startedAt + schedule.window ≤ env.maxInstant
  elapsed : schedule.startedAt + schedule.window ≤ schedule.finishedAt

variable {env} {state begun : CooperativeMembershipState} {schedule : RoundSchedule}
  {arrivals : List (Arrival T)} {round : ResyncRound}

lemma absorbArrival_valid {capability : NetworkCapability} {current : AuthenticatedSnapshot}
    {arrival : Arrival T} (hround : RoundValid env capability current round)
    (hsource : SourceValid env capability arrival.snapshot arrival.claims) :
    RoundValid env capability current (absorbArrival env round arrival) := by
  obtain ⟨hbest, hnames, hrank⟩ := hround.absorb hsource
  exact ⟨hbest, hnames, hrank⟩

/-- Collecting offers: each must be acceptable, and the round absorbs them one by one. -/
lemma collectOffers_eq_ok_iff (hcurrent : begun.capability.verify env begun.current = .ok ())
    (hround : RoundValid env begun.capability begun.current round)
    (hsome : begun.round = some round) {collected : CooperativeMembershipState} :
    collectOffers env begun arrivals = .ok collected ↔
      (∀ arrival ∈ arrivals, OfferAccepted env begun.capability begun.current round.challenge
        round.deadline arrival) ∧
      collected = { begun with round := some (arrivals.foldl (absorbArrival env) round) } := by
  induction arrivals generalizing begun round with
  | nil =>
    have hself : begun = { begun with round := some round } := by
      cases begun
      simp only at hsome
      subst hsome
      rfl
    constructor
    · intro h
      exact ⟨by simp, (Except.ok.inj h).symm.trans hself⟩
    · rintro ⟨-, rfl⟩
      exact congrArg Except.ok hself
  | cons arrival arrivals ih =>
    rw [collectOffers, List.foldlM_cons, bind_eq_ok]
    simp only [map_fst_eq_ok, collectOffer_eq_ok_iff hcurrent hround hsome, Prod.mk.injEq,
      List.forall_mem_cons, List.foldl_cons]
    constructor
    · rintro ⟨_, ⟨_, haccepted, rfl, -⟩, hrest⟩
      have hnext := absorbArrival_valid hround haccepted.source
      obtain ⟨hall, hcollected⟩ := (@ih { begun with
        round := some (absorbArrival env round arrival) } _ hcurrent hnext rfl).mp hrest
      exact ⟨⟨haccepted, hall⟩, hcollected⟩
    · rintro ⟨⟨haccepted, hall⟩, hcollected⟩
      have hnext := absorbArrival_valid hround haccepted.source
      exact ⟨_, ⟨_, haccepted, rfl, rfl⟩, (@ih { begun with
        round := some (absorbArrival env round arrival) } _ hcurrent hnext rfl).mpr
          ⟨hall, hcollected⟩⟩

lemma closedRound_valid (hstate : StateValid env state)
    (hall : ∀ arrival ∈ arrivals, Acceptable env state schedule arrival) :
    RoundValid env state.capability state.current (closedRound env state schedule arrivals) := by
  induction arrivals using List.reverseRecOn with
  | nil => exact ⟨hstate.current, hstate.names, le_rfl⟩
  | append_singleton arrivals arrival ih =>
    rw [closedRound, List.foldl_append]
    exact absorbArrival_valid (ih fun a ha => hall a (List.mem_append_left _ ha))
      (hall arrival (by simp)).source

omit [DecidableEq T] in
/-- Offers do not move the deadline. -/
lemma closedRound_deadline : (closedRound env state schedule arrivals).deadline
    = schedule.startedAt + schedule.window := by
  induction arrivals using List.reverseRecOn with
  | nil => rfl
  | append_singleton arrivals arrival ih =>
    rw [closedRound, List.foldl_append]
    exact ih

variable {final : CooperativeMembershipState} {arrivals' : List (Arrival T)}

/-- **What a round does.**  On a valid state, a round succeeds exactly when its times are proper and
all its offers are acceptable, and then it ends with the branch and the names of the closed
round. -/
lemma resync_eq_ok_iff (hstate : StateValid env state) :
    resync env state schedule arrivals = .ok final ↔
      schedule.Proper env ∧ (∀ arrival ∈ arrivals, Acceptable env state schedule arrival) ∧
      final = state.adopt (closedRound env state schedule arrivals) schedule.wallNow := by
  let opened : CooperativeMembershipState :=
    { state with round := some (openRound state schedule), syncState := .resyncing }
  let collected : CooperativeMembershipState :=
    { opened with round := some (closedRound env state schedule arrivals) }
  have hround : RoundValid env state.capability state.current (openRound state schedule) :=
    ⟨hstate.current, hstate.names, le_rfl⟩
  have hcollect : ∀ next, collectOffers env opened arrivals = .ok next ↔
      (∀ arrival ∈ arrivals, Acceptable env state schedule arrival) ∧ next = collected := fun _ =>
    @collectOffers_eq_ok_iff T K _ env opened arrivals _ hstate.current hround rfl _
  have hfinish : (∀ arrival ∈ arrivals, Acceptable env state schedule arrival) →
      (Prod.fst <$> collected.finishResync env schedule.finishedAt schedule.wallNow = .ok final ↔
        schedule.startedAt + schedule.window ≤ schedule.finishedAt ∧
          final = state.adopt (closedRound env state schedule arrivals) schedule.wallNow) := by
    intro hall
    have hclosed := closedRound_valid hstate hall
    rw [← @closedRound_deadline T K env state schedule arrivals]
    exact @finishResync_eq_ok_iff T K _ env _ collected final _ hstate.current hclosed rfl _
  simp only [resync, bind_eq_ok, beginResync_eq_ok_iff]
  constructor
  · rintro ⟨_, ⟨hwindow, rfl⟩, next, hnext, h⟩
    obtain ⟨hall, rfl⟩ := (hcollect next).mp hnext
    obtain ⟨helapsed, hfinal⟩ := (hfinish hall).mp h
    exact ⟨⟨hwindow.1, hwindow.2.1, hwindow.2.2, helapsed⟩, hall, hfinal⟩
  · rintro ⟨hproper, hall, hfinal⟩
    exact ⟨_, ⟨⟨hproper.window_pos, hproper.window_le, hproper.deadline_le⟩, rfl⟩, _,
      (hcollect _).mpr ⟨hall, rfl⟩, (hfinish hall).mpr ⟨hproper.elapsed, hfinal⟩⟩

/-! ## Rounds collect under a running best source -/

/-- A snapshot with the claims that come with it. -/
abbrev Source : Type := AuthenticatedSnapshot × List SignedHostnameClaim

def Source.rank (env : CheckpointPlatform T K) (source : Source) : SnapshotRank :=
  source.1.payload.rankOf env

def Source.admits (source : Source) : SnapshotPublisher × Bytes32 → Bool :=
  source.1.payload.admits

def Source.version (source : Source) : SnapshotPublisher × Bytes32 → WithBot (ℕ ×ₗ String) :=
  heldVersion source.2

def Arrival.source (arrival : Arrival T) : Source := (arrival.snapshot, arrival.claims)

/-- What the node itself brings to a round. -/
def CooperativeMembershipState.ownSource (state : CooperativeMembershipState) : Source :=
  (state.current, state.names)

/-- **Refinement.**  The round's branch is the best source, and its names are the table that is
collected under the running best source. -/
lemma closedRound_refines (hstate : StateValid env state)
    (hall : ∀ arrival ∈ arrivals, Acceptable env state schedule arrival) :
    (closedRound env state schedule arrivals).best
        = (best (Source.rank env) state.ownSource (arrivals.map Arrival.source)).1 ∧
      ∀ holder, heldVersion (closedRound env state schedule arrivals).names holder
        = table (Source.rank env) Source.admits Source.version state.ownSource
            (arrivals.map Arrival.source) holder := by
  induction arrivals using List.reverseRecOn with
  | nil => exact ⟨rfl, fun _ => rfl⟩
  | append_singleton arrivals arrival ih =>
    have hbefore : ∀ a ∈ arrivals, Acceptable env state schedule a := fun a ha =>
      hall a (List.mem_append_left _ ha)
    have hsource := (hall arrival (by simp)).source
    have hround := closedRound_valid hstate hbefore
    obtain ⟨hbest, hnames⟩ := ih hbefore
    have hclosed : closedRound env state schedule (arrivals ++ [arrival])
        = absorbArrival env (closedRound env state schedule arrivals) arrival := by
      rw [closedRound, List.foldl_append]
      rfl
    have hbest' : ((closedRound env state schedule arrivals).bestWith env arrival.snapshot)
        = (best (Source.rank env) state.ownSource
            ((arrivals ++ [arrival]).map Arrival.source)).1 := by
      rw [List.map_append, List.map_singleton, best_concat, better, ResyncRound.bestWith, hbest,
        apply_ite Prod.fst]
      rfl
    refine ⟨by rw [hclosed]; exact hbest', fun holder => ?_⟩
    have hverified := hround.verify_bestWith hsource
    have hown : SourceValid env state.capability (closedRound env state schedule arrivals).best
        (closedRound env state schedule arrivals).names := ⟨hround.best, hround.names⟩
    have hmerged := ((hown.compatible hverified).mergeClaims (hsource.compatible hverified)).2 holder
    rw [heldVersion_compatibleNames, heldVersion_compatibleNames, hnames] at hmerged
    rw [hclosed, List.map_append, List.map_singleton, table_concat]
    refine hmerged.trans ?_
    rw [hbest', List.map_append, List.map_singleton]
    show _ = if CheckpointSnapshot.admits _ holder = true then _ else _
    split
    · rfl
    · rfl

/-! ## The selected branch -/

/-- The digests of some snapshots do not collide. -/
def DigestsDistinct (env : CheckpointPlatform T K) (snapshots : List AuthenticatedSnapshot) : Prop :=
  ∀ s ∈ snapshots, ∀ t ∈ snapshots, s.payload.digest env = t.payload.digest env →
    s.payload = t.payload

instance (env : CheckpointPlatform T K) (snapshots : List AuthenticatedSnapshot) :
    Decidable (DigestsDistinct env snapshots) :=
  inferInstanceAs (Decidable (∀ s ∈ snapshots, ∀ t ∈ snapshots,
    s.payload.digest env = t.payload.digest env → s.payload = t.payload))

omit [DecidableEq T] in
lemma candidates_eq_map :
    candidates state arrivals = (state.ownSource :: arrivals.map Arrival.source).map Prod.fst := by
  simp [candidates, CooperativeMembershipState.ownSource, Arrival.source]

/-- A round that succeeds ends with the branch of its closed round. -/
lemma current_of_resync (hstate : StateValid env state)
    (h : resync env state schedule arrivals = .ok final) :
    final.current
      = (best (Source.rank env) state.ownSource (arrivals.map Arrival.source)).1 := by
  obtain ⟨-, hall, rfl⟩ := (resync_eq_ok_iff hstate).mp h
  exact (closedRound_refines hstate hall).1

lemma verify_of_mem_candidates (hstate : StateValid env state)
    (h : resync env state schedule arrivals = .ok final) :
    ∀ s ∈ candidates state arrivals, state.capability.verify env s = .ok () := by
  obtain ⟨-, hall, -⟩ := (resync_eq_ok_iff hstate).mp h
  refine List.forall_mem_cons.mpr ⟨hstate.current, ?_⟩
  intro s hs
  obtain ⟨arrival, harrival, rfl⟩ := List.mem_map.mp hs
  exact (hall arrival harrival).verified

/-- The selected branch is a candidate, and no candidate has a higher rank. -/
lemma current_isGreatest (hstate : StateValid env state)
    (h : resync env state schedule arrivals = .ok final) :
    final.current ∈ candidates state arrivals ∧ ∀ s ∈ candidates state arrivals,
      s.payload.rankOf env ≤ final.current.payload.rankOf env := by
  rw [current_of_resync hstate h, candidates_eq_map]
  refine ⟨List.mem_map_of_mem best_mem, ?_⟩
  intro s hs
  obtain ⟨source, hsource, rfl⟩ := List.mem_map.mp hs
  exact @rank_le_rank_best Source SnapshotRank _ (Source.rank env) _ _ source hsource

section Agreement

variable (hstate : StateValid env state) {final : CooperativeMembershipState}
  (hround : resync env state schedule arrivals = .ok final)
  (hdigest : DigestsDistinct env (candidates state arrivals))
include hstate hround hdigest

/-- Only one candidate has the highest rank. -/
lemma eq_current_of_rank_eq {s : AuthenticatedSnapshot} (hs : s ∈ candidates state arrivals)
    (hrank : s.payload.rankOf env = final.current.payload.rankOf env) : s = final.current := by
  have hverified := verify_of_mem_candidates hstate hround
  have hmem := (current_isGreatest hstate hround).1
  exact eq_of_rankOf_eq (hverified s hs) (hverified _ hmem) (hdigest s hs _ hmem) hrank

/-- Rounds with the same candidates select the same branch. -/
lemma current_eq_of_same_candidates {other final' : CooperativeMembershipState}
    {schedule' : RoundSchedule} (hother : StateValid env other)
    (hround' : resync env other schedule' arrivals' = .ok final')
    (hsame : ∀ s, s ∈ candidates other arrivals' ↔ s ∈ candidates state arrivals) :
    final'.current = final.current := by
  obtain ⟨hmem, hmax⟩ := current_isGreatest hstate hround
  obtain ⟨hmem', hmax'⟩ := current_isGreatest hother hround'
  have hmem' := (hsame _).mp hmem'
  exact eq_current_of_rank_eq hstate hround hdigest hmem'
    (le_antisymm (hmax _ hmem') (hmax' _ ((hsame _).mpr hmem)))

omit hdigest in
/-- A round accepts its offers in every order. -/
lemma resync_perm (hperm : arrivals'.Perm arrivals) :
    ∃ final', resync env state schedule arrivals' = .ok final' := by
  obtain ⟨hproper, hall, -⟩ := (resync_eq_ok_iff hstate).mp hround
  exact ⟨_, (resync_eq_ok_iff hstate).mpr
    ⟨hproper, fun arrival harrival => hall arrival (hperm.subset harrival), rfl⟩⟩

end Agreement

omit [DecidableEq T] in
lemma mem_candidates_perm (hperm : arrivals'.Perm arrivals) (s : AuthenticatedSnapshot) :
    s ∈ candidates state arrivals' ↔ s ∈ candidates state arrivals :=
  ((hperm.map Arrival.snapshot).cons state.current).mem_iff

/-- **Resync selects the highest branch.**  If the digests of the candidates do not collide, then
the branch that a round selects is the candidate of the highest rank, every order of the offers is
accepted and selects it, and so does the round of any other node with the same candidates. -/
theorem resync_selects_highest_rank (hstate : StateValid env state)
    {final : CooperativeMembershipState} (hround : resync env state schedule arrivals = .ok final)
    (hdigest : DigestsDistinct env (candidates state arrivals)) :
    (final.current ∈ candidates state arrivals ∧
      ∀ s ∈ candidates state arrivals, s ≠ final.current →
        s.payload.rankOf env < final.current.payload.rankOf env) ∧
    (∀ arrivals', arrivals'.Perm arrivals → ∃ final',
      resync env state schedule arrivals' = .ok final' ∧ final'.current = final.current) ∧
    (∀ other schedule' arrivals' final', StateValid env other →
      resync env other schedule' arrivals' = .ok final' →
      (∀ s, s ∈ candidates other arrivals' ↔ s ∈ candidates state arrivals) →
      final'.current = final.current) := by
  obtain ⟨hmem, hmax⟩ := current_isGreatest hstate hround
  refine ⟨⟨hmem, ?_⟩, ?_, ?_⟩
  · intro s hs hne
    exact (hmax s hs).lt_of_ne fun heq =>
      hne (eq_current_of_rank_eq hstate hround hdigest hs heq)
  · intro arrivals' hperm
    obtain ⟨final', hround'⟩ := resync_perm hstate hround hperm
    exact ⟨final', hround', current_eq_of_same_candidates hstate hround hdigest hstate hround'
      (mem_candidates_perm hperm)⟩
  · intro other schedule' arrivals' final' hother hround' hsame
    exact current_eq_of_same_candidates hstate hround hdigest hother hround' hsame

/-- A round of one second. -/
def sampleSchedule : RoundSchedule := ⟨0, 1000000000, ⟨5, by decide⟩, 1000000000, 100⟩

/-- The state that adopts a branch of the sample network with some names. -/
def sampleFinal (names : List SignedHostnameClaim) : CooperativeMembershipState :=
  { sampleState with current := sampleRetention.snapshot, names := names }

lemma resync_removal_first :
    resync sampleEnv sampleState sampleSchedule [sampleRemoval, sampleRetention]
      = .ok (sampleFinal []) := by
  decide +kernel

/-- In both orders the higher branch is selected. -/
theorem sample_resync_selects_highest_rank :
    resync sampleEnv sampleState sampleSchedule [sampleRemoval, sampleRetention]
        = .ok (sampleFinal []) ∧
      ∃ final', resync sampleEnv sampleState sampleSchedule [sampleRetention, sampleRemoval]
        = .ok final' ∧ final'.current = sampleRetention.snapshot := by
  obtain ⟨-, hperm, -⟩ := resync_selects_highest_rank sampleState_valid resync_removal_first
    (by decide +kernel)
  exact ⟨resync_removal_first, hperm _ (List.Perm.swap ..)⟩

end P2pVpn.Checkpoint
