/-
# Revocations dominate

The state of a member only ever moves to higher versions, and a member that is not active comes
back only through a higher epoch (`Advances`).  Hence, whatever the order in which grants and
revocations of different issuers arrive, an active member is newer than every accepted
revocation, and of a later epoch than every revocation or expiry its state went through.
-/
import P2pVpn.Membership.Replay
import P2pVpn.Membership.Sample

namespace P2pVpn.Membership

open Lib

variable {ι : Type} [DecidableEq ι] {record : ι → SignedMembershipRecord}
  {trustedRoots : Finset String}

/-- The version of the record a state rests on. -/
def stateVersion (record : ι → SignedMembershipRecord) (state : LedgerMemberState ι) : ℕ ×ₗ ℕ :=
  (record state.recordIndex).payload.recordVersion

/-- The epoch of the record a state rests on. -/
def stateEpoch (record : ι → SignedMembershipRecord) (state : LedgerMemberState ι) : ℕ :=
  (record state.recordIndex).payload.membershipEpoch

/-- How the state of one member may move: to no lower version, and back to active only with a
higher epoch. -/
structure Advances (record : ι → SignedMembershipRecord) (s s' : LedgerMemberState ι) : Prop where
  version_le : stateVersion record s ≤ stateVersion record s'
  epoch_lt : s.active = false → s'.active = true → stateEpoch record s < stateEpoch record s'

variable {s : LedgerMemberState ι} {e : MembershipLedgerEvaluation ι}

omit [DecidableEq ι] in
lemma epoch_le_of_version_le {s' : LedgerMemberState ι}
    (h : stateVersion record s ≤ stateVersion record s') :
    stateEpoch record s ≤ stateEpoch record s' := by
  rcases Prod.Lex.le_iff.mp h with h | h
  · exact h.le
  · exact h.1.le

omit [DecidableEq ι] in
lemma version_lt_of_epoch_lt {s' : LedgerMemberState ι}
    (h : stateEpoch record s < stateEpoch record s') :
    stateVersion record s < stateVersion record s' :=
  Prod.Lex.lt_iff.mpr (Or.inl h)

omit [DecidableEq ι] in
lemma Advances.refl (s : LedgerMemberState ι) : Advances record s s :=
  ⟨le_rfl, fun h h' => by simp [h] at h'⟩

omit [DecidableEq ι] in
lemma Advances.trans {a b c : LedgerMemberState ι} (h : Advances record a b)
    (h' : Advances record b c) : Advances record a c := by
  refine ⟨h.version_le.trans h'.version_le, fun ha hc => ?_⟩
  cases hb : b.active with
  | true => exact (h.epoch_lt ha hb).trans_le (epoch_le_of_version_le h'.version_le)
  | false => exact (epoch_le_of_version_le h.version_le).trans_lt (h'.epoch_lt hb hc)

/-! ## One step -/

/-- The record that replaces a state has no lower version, and a higher epoch when a grant
replaces an inactive state. -/
lemma version_le_of_wins {candidate current : SignedMembershipRecord} {active : Bool}
    (h : membershipEventWins candidate current active) :
    current.payload.recordVersion ≤ candidate.payload.recordVersion := by
  unfold membershipEventWins at h
  split at h
  · exact (Prod.Lex.lt_iff.mpr (Or.inl (of_decide_eq_true h))).le
  · simp only [Bool.or_eq_true, Bool.and_eq_true, decide_eq_true_eq] at h
    rcases h with (h | ⟨⟨h, -⟩, -⟩) | ⟨⟨h, -⟩, -⟩
    · exact h.le
    · exact h.ge
    · exact h.ge

omit [DecidableEq ι] in
/-- Applying one event advances the state of every member that has one. -/
lemma applyMembershipEvent_advances {states : LedgerStates ι} {m : String}
    (hs : states.get? m = some s) (index : ι) :
    ∃ s', (applyMembershipEvent record states index).get? m = some s' ∧ Advances record s s' := by
  rw [get?_applyMembershipEvent]
  split
  · rename_i hif
    obtain ⟨rfl, hreplaces⟩ := hif
    refine ⟨_, rfl, ?_⟩
    simp only [replacesState, hs] at hreplaces
    refine ⟨version_le_of_wins hreplaces, fun hinactive hactive => ?_⟩
    -- A grant over an inactive state: the first branch of `membership_event_wins`.
    have hgrant : (record index).payload.revoked = false := by
      simp only [stateOf, Bool.and_eq_true, Bool.not_eq_true'] at hactive
      exact hactive.1
    simpa [membershipEventWins, hinactive, hgrant, stateEpoch, stateOf] using hreplaces
  · exact ⟨s, hs, Advances.refl s⟩

lemma runStep_advances {m : String} (hs : e.states.get? m = some s) (step : LedgerStep ι) :
    ∃ s', (runStep record e step).states.get? m = some s' ∧ Advances record s s' := by
  cases step with
  | expire now =>
    simp only [runStep, expireGroup_states, get?_expireMembersAt, hs, Option.map_some]
    refine ⟨_, rfl, ?_⟩
    split
    · exact ⟨le_rfl, fun _ h => by simp at h⟩
    · exact Advances.refl s
  | accept index =>
    simp only [runStep, acceptRecord_states]
    exact applyMembershipEvent_advances hs index

/-! ## Whole runs -/

/-- Along any run, the state of a member advances. -/
lemma runSteps_advances {steps : List (LedgerStep ι)} (more : List (LedgerStep ι)) {m : String}
    (hs : (runSteps record steps).states.get? m = some s) :
    ∃ s', (runSteps record (steps ++ more)).states.get? m = some s' ∧ Advances record s s' := by
  induction more using List.reverseRecOn with
  | nil => exact ⟨s, by rwa [List.append_nil], Advances.refl s⟩
  | append_singleton more step ih =>
    obtain ⟨s', hs', hadv⟩ := ih
    obtain ⟨s'', hs'', hadv'⟩ := runStep_advances hs' step
    refine ⟨s'', ?_, hadv.trans hadv'⟩
    rw [← List.append_assoc, runSteps_concat]
    exact hs''

/-- A revocation is dominated when the state of its member is newer, or as new and inactive. -/
def Dominated (record : ι → SignedMembershipRecord) (e : MembershipLedgerEvaluation ι)
    (index : ι) : Prop :=
  ∃ s, e.states.get? (record index).payload.memberPeer = some s ∧
    ((record index).payload.recordVersion < stateVersion record s ∨
      (record index).payload.recordVersion ≤ stateVersion record s ∧ s.active = false)

lemma Dominated.runStep {index : ι} (h : Dominated record e index) (step : LedgerStep ι) :
    Dominated record (runStep record e step) index := by
  obtain ⟨s, hs, hdom⟩ := h
  obtain ⟨s', hs', hadv⟩ := runStep_advances hs step
  refine ⟨s', hs', ?_⟩
  rcases hdom with hlt | ⟨hle, hinactive⟩
  · exact Or.inl (hlt.trans_le hadv.version_le)
  · cases hactive : s'.active with
    | true => exact Or.inl (hle.trans_lt (version_lt_of_epoch_lt (hadv.epoch_lt hinactive hactive)))
    | false => exact Or.inr ⟨hle.trans hadv.version_le, rfl⟩

/-- A revocation is dominated as soon as it is accepted: it becomes the state, or the state it
does not replace is newer, or is a revocation of the same version. -/
lemma dominated_acceptRecord (hsound : StatesSound record e) {index : ι}
    (hrevoked : (record index).payload.revoked) :
    Dominated record (acceptRecord record e index) index := by
  unfold Dominated
  rw [acceptRecord_states, get?_applyMembershipEvent]
  split
  · exact ⟨_, rfl, Or.inr ⟨le_rfl, by simp [stateOf, hrevoked]⟩⟩
  · rename_i hkeep
    have hkeep : ¬ replacesState record e.states index := fun h => hkeep ⟨rfl, h⟩
    cases hs : e.states.get? (record index).payload.memberPeer with
    | none => simp [replacesState, hs] at hkeep
    | some s =>
      refine ⟨s, rfl, ?_⟩
      simp only [replacesState, hs, membershipEventWins, hrevoked, Bool.not_true, Bool.and_false,
        Bool.false_eq_true, if_false, Bool.or_eq_true, Bool.and_eq_true, decide_eq_true_eq,
        not_or, not_lt] at hkeep
      obtain ⟨⟨hle, hrev⟩, -⟩ := hkeep
      rcases hle.lt_or_eq with hlt | heq
      · exact Or.inl hlt
      · refine Or.inr ⟨hle, ?_⟩
        have hcurrent : (record s.recordIndex).payload.revoked := by
          by_contra hgrant
          exact hrev ⟨⟨heq, trivial⟩, by simpa using hgrant⟩
        by_contra hactive
        exact ((hsound _ s hs).grant (by simpa using hactive)).1 hcurrent

lemma dominated_runSteps (steps : List (LedgerStep ι)) :
    ∀ index ∈ (runSteps record steps).accepted, (record index).payload.revoked →
      Dominated record (runSteps record steps) index := by
  induction steps using List.reverseRecOn with
  | nil => simp [runSteps, MembershipLedgerEvaluation.empty]
  | append_singleton steps step ih =>
    rw [runSteps_concat]
    intro index hindex hrevoked
    cases step with
    | expire now => exact (ih index hindex hrevoked).runStep (.expire now)
    | accept j =>
      simp only [runStep, acceptRecord_accepted, List.mem_append, List.mem_singleton] at hindex
      rcases hindex with hindex | rfl
      · exact (ih index hindex hrevoked).runStep (.accept j)
      · exact dominated_acceptRecord (statesSound_runSteps steps) hrevoked

/-! ## The evaluator -/

/-- The result of the evaluator is the run of its steps. -/
lemma evaluate_eq_ok {records : List SignedMembershipRecord} {now : ℕ}
    {evaluation : MembershipLedgerEvaluation (Fin records.length)}
    (h : evaluateMembershipLedgerAt records trustedRoots now = .ok evaluation) :
    evaluation = evaluateOrdered records.get trustedRoots (orderedIndices records now) now := by
  simp only [evaluateMembershipLedgerAt, bind_eq_ok] at h
  obtain ⟨-, -, h⟩ := h
  exact (Except.ok.inj h).symm

/-- **Revocation dominance.**  A member that is active in the end is newer than every accepted
revocation of it, and of a later epoch than every revocation that was its state at some point of
the replay.  At no point does a member that was inactive before (revoked, expired or without the
overlay role) become active again without a higher epoch. -/
theorem active_member_dominates_revocations (records : List SignedMembershipRecord)
    (trustedRoots : Finset String) (now : ℕ)
    (evaluation : MembershipLedgerEvaluation (Fin records.length))
    (h : evaluateMembershipLedgerAt records trustedRoots now = .ok evaluation) :
    (∀ m state, evaluation.states.get? m = some state → state.active = true →
      (∀ index ∈ evaluation.accepted, (records.get index).payload.revoked = true →
        (records.get index).payload.memberPeer = m →
        (records.get index).payload.recordVersion
          < (records.get state.recordIndex).payload.recordVersion) ∧
      ∀ steps, steps <+: ledgerSteps records.get trustedRoots (orderedIndices records now) now →
        ∀ earlier, (runSteps records.get steps).states.get? m = some earlier →
          (records.get earlier.recordIndex).payload.revoked = true →
          (records.get earlier.recordIndex).payload.membershipEpoch
            < (records.get state.recordIndex).payload.membershipEpoch) ∧
    ∀ steps more,
      steps ++ more <+: ledgerSteps records.get trustedRoots (orderedIndices records now) now →
        ∀ m earlier later, (runSteps records.get steps).states.get? m = some earlier →
          earlier.active = false →
          (runSteps records.get (steps ++ more)).states.get? m = some later →
          later.active = true →
          (records.get earlier.recordIndex).payload.membershipEpoch
            < (records.get later.recordIndex).payload.membershipEpoch := by
  have hrun := (evaluate_eq_ok h).trans (evaluateOrdered_eq_runSteps _ _)
  -- Between any two points of a run, an inactive state becomes active only in a later epoch.
  have hreturn : ∀ steps more m earlier later,
      (runSteps records.get steps).states.get? m = some earlier → earlier.active = false →
      (runSteps records.get (steps ++ more)).states.get? m = some later → later.active = true →
      stateEpoch records.get earlier < stateEpoch records.get later := by
    intro steps more m earlier later hearlier hinactive hlater hactive
    obtain ⟨later', hlater', hadv⟩ := runSteps_advances more hearlier
    obtain rfl : later' = later := Option.some.inj (hlater'.symm.trans hlater)
    exact hadv.epoch_lt hinactive hactive
  refine ⟨?_, fun steps more _ m earlier later => hreturn steps more m earlier later⟩
  intro m state hstate hactive
  rw [hrun] at hstate
  refine ⟨?_, ?_⟩
  · intro index hindex hrevoked hmember
    rw [hrun] at hindex
    obtain ⟨s, hs, hdom⟩ := dominated_runSteps _ index hindex hrevoked
    rw [hmember, hstate] at hs
    obtain rfl := Option.some.inj hs
    exact hdom.resolve_right fun hle => by simp [hactive] at hle
  · intro steps hprefix earlier hearlier hrevoked
    obtain ⟨more, hmore⟩ := hprefix
    have hinactive : earlier.active = false := by
      by_contra hne
      exact ((statesSound_runSteps steps m earlier hearlier).grant (by simpa using hne)).1 hrevoked
    exact hreturn steps more m earlier state hearlier hinactive (by rwa [hmore]) hactive

/-- `B` resigns and is admitted again in a later epoch. -/
def readmissionHistory : List SignedMembershipRecord :=
  [sampleGrant .A .A 1 1 1 none "A1", sampleGrant .A .B 1 1 10 none "A2", sampleResignation,
    sampleGrant .A .B 2 1 30 none "A3"]

/-- After its return `B` is newer than its resignation. -/
theorem readmitted_member_dominates_resignation :
    ∃ evaluation,
      evaluateMembershipLedgerAt readmissionHistory {SamplePeer.A.text} 50 = .ok evaluation ∧
      ∃ state, evaluation.states.get? SamplePeer.B.text = some state ∧ state.active = true ∧
        ∀ index ∈ evaluation.accepted, (readmissionHistory.get index).payload.revoked = true →
          (readmissionHistory.get index).payload.memberPeer = SamplePeer.B.text →
          (readmissionHistory.get index).payload.recordVersion
            < (readmissionHistory.get state.recordIndex).payload.recordVersion := by
  have heval : evaluateMembershipLedgerAt readmissionHistory {SamplePeer.A.text} 50
      = .ok (evaluateOrdered readmissionHistory.get {SamplePeer.A.text}
        (orderedIndices readmissionHistory 50) 50) := by
    have hlatest : latestMembershipRecordIndices readmissionHistory
        = .ok [⟨0, by decide⟩, ⟨2, by decide⟩, ⟨3, by decide⟩] := by decide +kernel
    simp only [evaluateMembershipLedgerAt, hlatest]
    rfl
  have hstate : (evaluateOrdered readmissionHistory.get {SamplePeer.A.text}
      (orderedIndices readmissionHistory 50) 50).states.get? SamplePeer.B.text
        = some ⟨⟨3, by decide⟩, true⟩ := by decide +kernel
  exact ⟨_, heval, _, hstate, rfl, ((active_member_dominates_revocations readmissionHistory
    {SamplePeer.A.text} 50 _ heval).1 _ _ hstate rfl).1⟩

end P2pVpn.Membership
