/-
# The replay as a run of steps

The nested loops of the evaluator perform a sequence of steps of two kinds: memberships run out
at some second, and one record is accepted.  `ledgerSteps` lists them in the order in which the
evaluator performs them, and `evaluateOrdered_eq_runSteps` says that running them is the whole
replay.  Facts about every state the replay passes through are then facts about runs of steps.
-/
import P2pVpn.Membership.Ledger

namespace P2pVpn.Membership

open Lib

variable {ι : Type} [DecidableEq ι] (record : ι → SignedMembershipRecord)
  (trustedRoots : Finset String)

/-- Accept a record of either kind. -/
def acceptRecord (e : MembershipLedgerEvaluation ι) (index : ι) : MembershipLedgerEvaluation ι :=
  if (record index).payload.revoked then acceptRevocation record e index
  else acceptGrant record e index

/-- The records of a group that are accepted, in the order in which they are: the grants as the
sweeps find them, then the authorised revocations. -/
def acceptedInSecond (e : MembershipLedgerEvaluation ι) (issuedAt : ℕ) (group : List ι) : List ι :=
  settleLog (grantEnabled record trustedRoots) (acceptGrant record) (grantsOf record group).length
      (expireGroup record e issuedAt) (grantsOf record group) ++
    authorizedRevocations record trustedRoots
      (admitGrants record trustedRoots (expireGroup record e issuedAt) group).states group

/-- One step of the replay. -/
inductive LedgerStep (ι : Type) where
  | expire (now : ℕ)
  | accept (index : ι)
deriving DecidableEq, Repr

/-- The effect of one step. -/
def runStep (e : MembershipLedgerEvaluation ι) : LedgerStep ι → MembershipLedgerEvaluation ι
  | .expire now => expireGroup record e now
  | .accept index => acceptRecord record e index

variable (steps : List (LedgerStep ι))

/-- The evaluation after a sequence of steps. -/
def runSteps : MembershipLedgerEvaluation ι :=
  steps.foldl (runStep record) (MembershipLedgerEvaluation.empty ι)

/-- The steps of one turn of the outer loop. -/
def groupSteps (e : MembershipLedgerEvaluation ι) (group : List ι) : List (LedgerStep ι) :=
  match group with
  | [] => []
  | first :: _ =>
      .expire (record first).payload.issuedAtUnixSeconds ::
        (acceptedInSecond record trustedRoots e (record first).payload.issuedAtUnixSeconds
          group).map .accept

/-- The steps of the outer loop over the remaining groups. -/
def stepsFrom (e : MembershipLedgerEvaluation ι) : List (List ι) → List (LedgerStep ι)
  | [] => []
  | group :: groups =>
      groupSteps record trustedRoots e group ++
        stepsFrom (evaluateGroup record trustedRoots e group) groups

/-- All steps of the replay of an ordered list. -/
def ledgerSteps (ordered : List ι) (nowUnixSeconds : ℕ) : List (LedgerStep ι) :=
  stepsFrom record trustedRoots (MembershipLedgerEvaluation.empty ι)
    (issueGroups record ordered) ++ [.expire nowUnixSeconds]

variable {record trustedRoots}

/-! ## Running the steps is the replay -/

/-- Folding one action over a list is folding another that agrees with it on its elements. -/
lemma foldl_eq_foldl {σ α : Type} {f g : σ → α → σ} {l : List α}
    (h : ∀ a ∈ l, ∀ s, f s a = g s a) (s : σ) : l.foldl f s = l.foldl g s := by
  induction l generalizing s with
  | nil => rfl
  | cons a l ih =>
    rw [List.foldl_cons, List.foldl_cons, h a List.mem_cons_self]
    exact ih (fun b hb => h b (List.mem_cons_of_mem a hb)) _

variable {index : ι} {group : List ι} {e : MembershipLedgerEvaluation ι}

lemma acceptRecord_of_revoked (h : (record index).payload.revoked)
    (e : MembershipLedgerEvaluation ι) :
    acceptRecord record e index = acceptRevocation record e index := if_pos h

lemma acceptRecord_of_not_revoked (h : ¬ (record index).payload.revoked)
    (e : MembershipLedgerEvaluation ι) :
    acceptRecord record e index = acceptGrant record e index := if_neg h

omit [DecidableEq ι] in
lemma mem_grantsOf :
    index ∈ grantsOf record group ↔ index ∈ group ∧ ¬ (record index).payload.revoked := by
  simp [grantsOf]

omit [DecidableEq ι] in
lemma mem_authorizedRevocations {states : LedgerStates ι} :
    index ∈ authorizedRevocations record trustedRoots states group ↔
      index ∈ group ∧ (record index).payload.revoked ∧
        issuerIsActive trustedRoots (record index).payload states := by
  simp [authorizedRevocations, and_comm]

/-- The grants accepted by the sweeps over a group. -/
lemma mem_group_of_mem_settleLog {fuel : ℕ}
    (h : index ∈ settleLog (grantEnabled record trustedRoots) (acceptGrant record)
      fuel e (grantsOf record group)) :
    index ∈ group ∧ ¬ (record index).payload.revoked :=
  mem_grantsOf.mp ((settleLog_perm ..).subset (List.mem_append_left _ h))

lemma admitGrants_eq_foldl (e : MembershipLedgerEvaluation ι) (group : List ι) :
    admitGrants record trustedRoots e group
      = (settleLog (grantEnabled record trustedRoots) (acceptGrant record)
          (grantsOf record group).length e (grantsOf record group)).foldl (acceptRecord record) e := by
  unfold admitGrants
  rw [settle_eq_foldl]
  exact foldl_eq_foldl (fun i hi s =>
    (acceptRecord_of_not_revoked (mem_group_of_mem_settleLog hi).2 s).symm) e

lemma evaluateSecond_eq_foldl (e : MembershipLedgerEvaluation ι) (issuedAt : ℕ) (group : List ι) :
    evaluateSecond record trustedRoots e issuedAt group
      = (acceptedInSecond record trustedRoots e issuedAt group).foldl (acceptRecord record)
          (expireGroup record e issuedAt) := by
  unfold acceptedInSecond
  rw [List.foldl_append, ← admitGrants_eq_foldl]
  exact foldl_eq_foldl (fun i hi s =>
    (acceptRecord_of_revoked (mem_authorizedRevocations.mp hi).2.1 s).symm) _

lemma evaluateGroup_eq_foldl (e : MembershipLedgerEvaluation ι) (group : List ι) :
    evaluateGroup record trustedRoots e group
      = (groupSteps record trustedRoots e group).foldl (runStep record) e := by
  cases group with
  | nil => rfl
  | cons first rest =>
    simp only [evaluateGroup, groupSteps, List.foldl_cons, List.foldl_map, runStep]
    exact evaluateSecond_eq_foldl e _ _

lemma foldl_evaluateGroup_eq_foldl (e : MembershipLedgerEvaluation ι) (groups : List (List ι)) :
    groups.foldl (evaluateGroup record trustedRoots) e
      = (stepsFrom record trustedRoots e groups).foldl (runStep record) e := by
  induction groups generalizing e with
  | nil => rfl
  | cons group groups ih =>
    rw [List.foldl_cons, stepsFrom, List.foldl_append, ← evaluateGroup_eq_foldl]
    exact ih _

/-- **The replay is the run of its steps.** -/
theorem evaluateOrdered_eq_runSteps (ordered : List ι) (now : ℕ) :
    evaluateOrdered record trustedRoots ordered now
      = runSteps record (ledgerSteps record trustedRoots ordered now) := by
  unfold evaluateOrdered evaluateGroups runSteps ledgerSteps
  rw [foldl_evaluateGroup_eq_foldl, List.foldl_append]
  rfl

/-! ## What one step does to the states -/

omit [DecidableEq ι] in
lemma get?_applyMembershipEvent (states : LedgerStates ι) (index : ι) (m : String) :
    (applyMembershipEvent record states index).get? m
      = if m = (record index).payload.memberPeer ∧ replacesState record states index then
          some (stateOf record index)
        else states.get? m := by
  unfold applyMembershipEvent
  split
  · rename_i hreplaces
    rw [HashMap.get?_insert]
    simp only [hreplaces, and_true]
  · rename_i hreplaces
    rw [if_neg fun h => hreplaces h.2]

omit [DecidableEq ι] in
lemma get?_expireMembersAt (states : LedgerStates ι) (now : ℕ) (m : String) :
    (expireMembersAt record states now).get? m = (states.get? m).map fun state =>
      if state.active && (record state.recordIndex).isExpiredAt now then
        { state with active := false }
      else state := by
  simp only [expireMembersAt, HashMap.get?_mapValues]

@[simp] lemma acceptRecord_states (e : MembershipLedgerEvaluation ι) (index : ι) :
    (acceptRecord record e index).states = applyMembershipEvent record e.states index := by
  unfold acceptRecord
  split <;> rfl

@[simp] lemma acceptRecord_accepted (e : MembershipLedgerEvaluation ι) (index : ι) :
    (acceptRecord record e index).accepted = e.accepted ++ [index] := by
  unfold acceptRecord
  split <;> rfl

omit [DecidableEq ι] in
@[simp] lemma expireGroup_states (e : MembershipLedgerEvaluation ι) (now : ℕ) :
    (expireGroup record e now).states = expireMembersAt record e.states now := rfl

omit [DecidableEq ι] in
@[simp] lemma expireGroup_accepted (e : MembershipLedgerEvaluation ι) (now : ℕ) :
    (expireGroup record e now).accepted = e.accepted := rfl

@[simp] lemma runSteps_concat (step : LedgerStep ι) :
    runSteps record (steps ++ [step]) = runStep record (runSteps record steps) step := by
  simp [runSteps]

/-! ## Invariants of runs -/

/-- A property that every step keeps holds after every run. -/
lemma runSteps_invariant {P : MembershipLedgerEvaluation ι → Prop}
    (hempty : P (MembershipLedgerEvaluation.empty ι))
    (hstep : ∀ e step, P e → P (runStep record e step)) (steps : List (LedgerStep ι)) :
    P (runSteps record steps) := by
  induction steps using List.reverseRecOn with
  | nil => exact hempty
  | append_singleton steps step ih =>
    rw [runSteps_concat]
    exact hstep _ step ih

/-- A state rests on an accepted record about its member, and an active one on a grant of
overlay membership. -/
structure StateSound (e : MembershipLedgerEvaluation ι) (m : String)
    (state : LedgerMemberState ι) (record : ι → SignedMembershipRecord) : Prop where
  accepted : state.recordIndex ∈ e.accepted
  member : (record state.recordIndex).payload.memberPeer = m
  grant : state.active → ¬ (record state.recordIndex).payload.revoked ∧
    (record state.recordIndex).payload.roles.contains .overlayMember

/-- Every state of an evaluation is sound. -/
def StatesSound (record : ι → SignedMembershipRecord) (e : MembershipLedgerEvaluation ι) : Prop :=
  ∀ m state, e.states.get? m = some state → StateSound e m state record

lemma statesSound_runStep (h : StatesSound record e) (step : LedgerStep ι) :
    StatesSound record (runStep record e step) := by
  intro m state hstate
  cases step with
  | expire now =>
    simp only [runStep, expireGroup_states, get?_expireMembersAt] at hstate
    obtain ⟨old, hold, rfl⟩ := Option.map_eq_some_iff.mp hstate
    obtain ⟨h1, h2, h3⟩ := h m old hold
    split
    · exact ⟨h1, h2, by simp⟩
    · exact ⟨h1, h2, h3⟩
  | accept index =>
    simp only [runStep, acceptRecord_states, get?_applyMembershipEvent] at hstate
    split at hstate
    · rename_i hif
      cases hstate
      refine ⟨by simp [runStep, stateOf], hif.1.symm, ?_⟩
      intro hactive
      simpa [stateOf] using hactive
    · obtain ⟨h1, h2, h3⟩ := h m state hstate
      exact ⟨by simp [runStep, h1], h2, h3⟩

/-- **Every state is sound** after every run of steps. -/
theorem statesSound_runSteps : StatesSound record (runSteps record steps) := by
  refine runSteps_invariant (P := StatesSound record) ?_
    (fun _ step h => statesSound_runStep h step) steps
  intro m state h
  simp [MembershipLedgerEvaluation.empty] at h

/-- The admissions of an evaluation are accepted records. -/
structure AdmissionsSound (e : MembershipLedgerEvaluation ι) : Prop where
  first : ∀ m index, e.firstAdmissions.get? m = some index → index ∈ e.accepted
  current : ∀ m index, e.currentAdmissions.get? m = some index → index ∈ e.accepted

lemma admissionsSound_acceptGrant (h : AdmissionsSound e) (index : ι) :
    AdmissionsSound (acceptGrant record e index) := by
  constructor
  · intro m i hi
    simp only [acceptGrant, List.mem_append, List.mem_singleton] at hi ⊢
    split at hi
    · rw [HashMap.get?_orInsert] at hi
      split at hi
      · cases hfirst : e.firstAdmissions.get? (record index).payload.memberPeer with
        | none => right; simpa [hfirst] using hi.symm
        | some j =>
          left
          obtain rfl : j = i := by simpa [hfirst] using hi
          exact h.first _ _ hfirst
      · exact Or.inl (h.first m i hi)
    · exact Or.inl (h.first m i hi)
  · intro m i hi
    simp only [acceptGrant, List.mem_append, List.mem_singleton] at hi ⊢
    split at hi
    · rw [HashMap.get?_insert] at hi
      split at hi
      · exact Or.inr (Option.some.inj hi).symm
      · exact Or.inl (h.current m i hi)
    · exact Or.inl (h.current m i hi)

lemma admissionsSound_runStep (h : AdmissionsSound e) (step : LedgerStep ι) :
    AdmissionsSound (runStep record e step) := by
  cases step with
  | expire now => exact ⟨h.first, h.current⟩
  | accept index =>
    simp only [runStep, acceptRecord]
    split
    · exact ⟨fun m i hi => List.mem_append_left _ (h.first m i hi),
        fun m i hi => List.mem_append_left _ (h.current m i hi)⟩
    · exact admissionsSound_acceptGrant h index

theorem admissionsSound_runSteps : AdmissionsSound (runSteps record steps) := by
  refine runSteps_invariant (P := AdmissionsSound) ?_
    (fun _ step h => admissionsSound_runStep h step) steps
  exact ⟨fun m i h => by simp [MembershipLedgerEvaluation.empty] at h,
    fun m i h => by simp [MembershipLedgerEvaluation.empty] at h⟩

/-! ## Accepted records come from the list -/

/-- The record a step accepts, if it accepts one. -/
def LedgerStep.accepted? : LedgerStep ι → Option ι
  | .expire _ => none
  | .accept index => some index

lemma runSteps_accepted :
    (runSteps record steps).accepted = steps.filterMap LedgerStep.accepted? := by
  induction steps using List.reverseRecOn with
  | nil => rfl
  | append_singleton steps step ih =>
    rw [runSteps_concat, List.filterMap_append, ← ih]
    cases step <;> simp [runStep, LedgerStep.accepted?]

lemma mem_group_of_mem_acceptedInSecond {issuedAt : ℕ}
    (h : index ∈ acceptedInSecond record trustedRoots e issuedAt group) : index ∈ group := by
  rcases List.mem_append.mp h with h | h
  · exact (mem_group_of_mem_settleLog h).1
  · exact (mem_authorizedRevocations.mp h).1

lemma exists_second_of_accept_mem_stepsFrom {groups : List (List ι)}
    (h : .accept index ∈ stepsFrom record trustedRoots e groups) :
    ∃ e issuedAt, ∃ group ∈ groups,
      index ∈ acceptedInSecond record trustedRoots e issuedAt group := by
  induction groups generalizing e with
  | nil => simp [stepsFrom] at h
  | cons group groups ih =>
    rw [stepsFrom, List.mem_append] at h
    rcases h with h | h
    · cases group with
      | nil => simp [groupSteps] at h
      | cons first rest =>
        simp only [groupSteps, List.mem_cons, List.mem_map, reduceCtorEq, false_or] at h
        obtain ⟨j, hj, hjindex⟩ := h
        obtain rfl : j = index := LedgerStep.accept.inj hjindex
        exact ⟨_, _, _, List.mem_cons_self, hj⟩
    · obtain ⟨e, issuedAt, group', hgroup', hindex⟩ := ih h
      exact ⟨e, issuedAt, group', List.mem_cons_of_mem group hgroup', hindex⟩

/-- An accepted record is accepted in its group's turn of the outer loop. -/
lemma exists_second_of_accepted {ordered : List ι} {now : ℕ}
    (h : index ∈ (evaluateOrdered record trustedRoots ordered now).accepted) :
    ∃ e issuedAt, ∃ group ∈ issueGroups record ordered,
      index ∈ acceptedInSecond record trustedRoots e issuedAt group := by
  rw [evaluateOrdered_eq_runSteps, runSteps_accepted] at h
  obtain ⟨step, hstep, haccept⟩ := List.mem_filterMap.mp h
  cases step with
  | expire now => simp [LedgerStep.accepted?] at haccept
  | accept j =>
    obtain rfl : j = index := by simpa [LedgerStep.accepted?] using haccept
    rw [ledgerSteps, List.mem_append] at hstep
    exact exists_second_of_accept_mem_stepsFrom (hstep.resolve_right (by simp))

/-- Only records of the list are accepted. -/
theorem accepted_subset_ordered (ordered : List ι) (now : ℕ) :
    (evaluateOrdered record trustedRoots ordered now).accepted ⊆ ordered := by
  intro index hindex
  obtain ⟨e, issuedAt, group, hgroup, hindex⟩ := exists_second_of_accepted hindex
  have hmem := List.mem_flatten.mpr ⟨group, hgroup, mem_group_of_mem_acceptedInSecond hindex⟩
  rwa [issueGroups, List.flatten_splitBy] at hmem

/-- An accepted record passed the check of its kind in some state of the replay. -/
theorem authorized_of_accepted {ordered : List ι} {now : ℕ}
    (h : index ∈ (evaluateOrdered record trustedRoots ordered now).accepted) :
    ∃ states : LedgerStates ι,
      if (record index).payload.revoked then
        issuerIsActive trustedRoots (record index).payload states = true
      else issuerIsActiveOrGenesis trustedRoots (record index).payload states = true := by
  obtain ⟨e, issuedAt, group, -, hindex⟩ := exists_second_of_accepted h
  rcases List.mem_append.mp hindex with hindex | hindex
  · obtain ⟨s, hs⟩ := (settleLog_enabled ..).exists_enabled hindex
    exact ⟨s.states, by rw [if_neg (mem_group_of_mem_settleLog hindex).2]; exact hs⟩
  · obtain ⟨-, hrevoked, hactive⟩ := mem_authorizedRevocations.mp hindex
    exact ⟨_, by rw [if_pos hrevoked]; exact hactive⟩

end P2pVpn.Membership
