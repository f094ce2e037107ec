/-
# The replay does not depend on how records are named

The program names records by their position in a slice.  When two ways of naming records agree
through a map `f`, the replay of a list and the replay of the renamed list go through the same
steps: they accept the same records, and end with the same states and admissions up to `f`
(`Renames.evaluateOrdered`).  In particular every replay is a replay of the records themselves.
-/
import P2pVpn.Membership.Ledger

namespace P2pVpn.Membership

open Lib

variable {ι κ : Type} [DecidableEq ι] [DecidableEq κ]

/-- The same state under another name of its record. -/
def LedgerMemberState.rename (f : ι → κ) (state : LedgerMemberState ι) : LedgerMemberState κ :=
  ⟨f state.recordIndex, state.active⟩

/-- Two evaluations that agree up to the renaming `f`. -/
structure Renames (f : ι → κ) (e : MembershipLedgerEvaluation ι)
    (e' : MembershipLedgerEvaluation κ) : Prop where
  accepted : e'.accepted = e.accepted.map f
  states : e'.states = e.states.mapValues (LedgerMemberState.rename f)
  firstAdmissions : e'.firstAdmissions = e.firstAdmissions.mapValues f
  currentAdmissions : e'.currentAdmissions = e.currentAdmissions.mapValues f

variable {f : ι → κ} {record : ι → SignedMembershipRecord} {record' : κ → SignedMembershipRecord}
  {trustedRoots : Finset String}

/-! ## Reading states -/

omit [DecidableEq ι] [DecidableEq κ] in
lemma issuerIsActive_rename (payload : MembershipRecordPayload) (states : LedgerStates ι) :
    issuerIsActive trustedRoots payload (states.mapValues (LedgerMemberState.rename f))
      = issuerIsActive trustedRoots payload states := by
  unfold issuerIsActive
  rw [HashMap.get?_mapValues]
  cases states.get? payload.issuerPeer <;> rfl

omit [DecidableEq ι] [DecidableEq κ] in
lemma issuerIsActiveOrGenesis_rename (payload : MembershipRecordPayload) (states : LedgerStates ι) :
    issuerIsActiveOrGenesis trustedRoots payload (states.mapValues (LedgerMemberState.rename f))
      = issuerIsActiveOrGenesis trustedRoots payload states := by
  unfold issuerIsActiveOrGenesis
  rw [issuerIsActive_rename, HashMap.get?_mapValues]
  cases states.get? payload.issuerPeer <;> rfl

section Steps

variable (hf : ∀ i, record' (f i) = record i)
include hf

omit [DecidableEq ι] [DecidableEq κ] in
lemma replacesState_rename (states : LedgerStates ι) (i : ι) :
    replacesState record' (states.mapValues (LedgerMemberState.rename f)) (f i)
      = replacesState record states i := by
  unfold replacesState
  rw [hf, HashMap.get?_mapValues]
  cases states.get? (record i).payload.memberPeer with
  | none => rfl
  | some state => simp [LedgerMemberState.rename, hf]

omit [DecidableEq ι] [DecidableEq κ] in
lemma stateOf_rename (i : ι) : stateOf record' (f i) = (stateOf record i).rename f := by
  simp [stateOf, LedgerMemberState.rename, hf]

omit [DecidableEq ι] [DecidableEq κ] in
lemma applyMembershipEvent_rename (states : LedgerStates ι) (i : ι) :
    applyMembershipEvent record' (states.mapValues (LedgerMemberState.rename f)) (f i)
      = (applyMembershipEvent record states i).mapValues (LedgerMemberState.rename f) := by
  unfold applyMembershipEvent
  rw [replacesState_rename hf, hf, stateOf_rename hf]
  split
  · rw [HashMap.mapValues_insert]
  · rfl

omit [DecidableEq ι] [DecidableEq κ] in
lemma expireMembersAt_rename (states : LedgerStates ι) (now : ℕ) :
    expireMembersAt record' (states.mapValues (LedgerMemberState.rename f)) now
      = (expireMembersAt record states now).mapValues (LedgerMemberState.rename f) := by
  simp only [expireMembersAt, HashMap.mapValues_mapValues]
  congr 1
  funext state
  simp only [Function.comp_apply, LedgerMemberState.rename, hf]
  split <;> rfl

/-! ## Accepting records -/

variable {e : MembershipLedgerEvaluation ι} {e' : MembershipLedgerEvaluation κ}

lemma Renames.acceptGrant (h : Renames f e e') (i : ι) :
    Renames f (acceptGrant record e i) (acceptGrant record' e' (f i)) := by
  have hactive : (e'.states.get? (record i).payload.memberPeer).any (·.active)
      = (e.states.get? (record i).payload.memberPeer).any (·.active) := by
    rw [h.states, HashMap.get?_mapValues]
    cases e.states.get? (record i).payload.memberPeer <;> rfl
  have hreplaces : replacesState record' e'.states (f i) = replacesState record e.states i := by
    rw [h.states, replacesState_rename hf]
  refine ⟨?_, ?_, ?_, ?_⟩
  · simp [Membership.acceptGrant, h.accepted]
  · simp only [Membership.acceptGrant]
    rw [h.states, applyMembershipEvent_rename hf]
  · simp only [Membership.acceptGrant, hf, hreplaces, h.firstAdmissions]
    split
    · rw [HashMap.mapValues_orInsert]
    · rfl
  · simp only [Membership.acceptGrant, hf, hreplaces, hactive, h.currentAdmissions]
    split
    · rw [HashMap.mapValues_insert]
    · rfl

lemma Renames.acceptRevocation (h : Renames f e e') (i : ι) :
    Renames f (acceptRevocation record e i) (acceptRevocation record' e' (f i)) := by
  refine ⟨?_, ?_, h.firstAdmissions, h.currentAdmissions⟩
  · simp [Membership.acceptRevocation, h.accepted]
  · simp only [Membership.acceptRevocation]
    rw [h.states, applyMembershipEvent_rename hf]

lemma Renames.foldl_acceptRevocation (h : Renames f e e') (l : List ι) :
    Renames f (l.foldl (Membership.acceptRevocation record) e)
      ((l.map f).foldl (Membership.acceptRevocation record') e') := by
  induction l generalizing e e' with
  | nil => exact h
  | cons i l ih => exact ih (h.acceptRevocation hf i)

/-! ## Groups and whole replays -/

omit [DecidableEq ι] [DecidableEq κ] in
lemma Renames.expireGroup (h : Renames f e e') (now : ℕ) :
    Renames f (expireGroup record e now) (expireGroup record' e' now) := by
  refine ⟨h.accepted, ?_, h.firstAdmissions, h.currentAdmissions⟩
  simp only [Membership.expireGroup]
  rw [h.states, expireMembersAt_rename hf]

omit [DecidableEq ι] [DecidableEq κ] in
lemma grantsOf_rename (group : List ι) :
    grantsOf record' (group.map f) = (grantsOf record group).map f := by
  simp [grantsOf, List.filter_map, Function.comp_def, hf]

omit [DecidableEq ι] [DecidableEq κ] in
lemma authorizedRevocations_rename (h : Renames f e e') (group : List ι) :
    authorizedRevocations record' trustedRoots e'.states (group.map f)
      = (authorizedRevocations record trustedRoots e.states group).map f := by
  simp only [authorizedRevocations, List.filter_map, Function.comp_def, hf, h.states,
    issuerIsActive_rename]

lemma Renames.admitGrants (h : Renames f e e') (group : List ι) :
    Renames f (admitGrants record trustedRoots e group)
      (admitGrants record' trustedRoots e' (group.map f)) := by
  have hsim : Simulation (grantEnabled record trustedRoots) (Membership.acceptGrant record)
      (grantEnabled record' trustedRoots) (Membership.acceptGrant record') (Renames f) f
      (grantsOf record group) := by
    refine ⟨?_, ?_⟩
    · intro s s' hs i _
      simp only [grantEnabled, hf, hs.states, issuerIsActiveOrGenesis_rename]
    · intro s s' hs i _ _
      exact hs.acceptGrant hf i
  unfold Membership.admitGrants
  rw [grantsOf_rename hf, List.length_map]
  exact hsim.settle _ h

lemma Renames.revokeMembers (h : Renames f e e') (group : List ι) :
    Renames f (revokeMembers record trustedRoots e group)
      (revokeMembers record' trustedRoots e' (group.map f)) := by
  unfold Membership.revokeMembers
  rw [authorizedRevocations_rename hf h]
  exact h.foldl_acceptRevocation hf _

lemma Renames.evaluateSecond (h : Renames f e e') (issuedAt : ℕ) (group : List ι) :
    Renames f (evaluateSecond record trustedRoots e issuedAt group)
      (evaluateSecond record' trustedRoots e' issuedAt (group.map f)) :=
  ((h.expireGroup hf issuedAt).admitGrants hf group).revokeMembers hf group

lemma Renames.evaluateGroup (h : Renames f e e') (group : List ι) :
    Renames f (evaluateGroup record trustedRoots e group)
      (evaluateGroup record' trustedRoots e' (group.map f)) := by
  cases group with
  | nil => exact h
  | cons first rest =>
    simp only [Membership.evaluateGroup, List.map_cons, hf]
    exact h.evaluateSecond hf (record first).payload.issuedAtUnixSeconds (first :: rest)

omit [DecidableEq ι] [DecidableEq κ] in
lemma issueGroups_rename (ordered : List ι) :
    issueGroups record' (ordered.map f) = (issueGroups record ordered).map (List.map f) :=
  splitBy_map f (fun i j => by simp only [hf]) ordered

lemma Renames.foldl_evaluateGroup (h : Renames f e e') (groups : List (List ι)) :
    Renames f (groups.foldl (Membership.evaluateGroup record trustedRoots) e)
      ((groups.map (List.map f)).foldl (Membership.evaluateGroup record' trustedRoots) e') := by
  induction groups generalizing e e' with
  | nil => exact h
  | cons group groups ih => exact ih (h.evaluateGroup hf group)

/-- **Renaming.**  The replay of renamed records is the renamed replay. -/
theorem renames_evaluateOrdered (ordered : List ι) (now : ℕ) :
    Renames f (evaluateOrdered record trustedRoots ordered now)
      (evaluateOrdered record' trustedRoots (ordered.map f) now) := by
  have hempty : Renames f (MembershipLedgerEvaluation.empty ι)
      (MembershipLedgerEvaluation.empty κ) := ⟨rfl, by simp [MembershipLedgerEvaluation.empty],
    by simp [MembershipLedgerEvaluation.empty], by simp [MembershipLedgerEvaluation.empty]⟩
  unfold evaluateOrdered evaluateGroups
  rw [issueGroups_rename hf]
  exact (hempty.foldl_evaluateGroup hf _).expireGroup hf now

end Steps

end P2pVpn.Membership
