/-
# Replaying the membership ledger

The membership of a network is not stored: it is computed from the retained records by
replaying them in signed order.  Records are sorted by `membershipEventOrder` and cut into
groups of one issue second.  Each group first lets memberships expire, then sweeps its grants
until no further grant finds an active issuer, then applies the revocations whose issuer was
active once the grants were in.

Records are named by an index type `ι` with a function `record` that looks them up, as the
program names them by their position in a slice.
-/
import Mathlib.Data.List.Sort
import P2pVpn.Lib.Grouping
import P2pVpn.Lib.HashMap
import P2pVpn.Lib.Retain
import P2pVpn.Membership.Record

namespace P2pVpn.Membership

open Lib

/-- The effective state of one member: the record that decided it, and whether the member is
active. -/
structure LedgerMemberState (ι : Type) where
  recordIndex : ι
  active : Bool
deriving DecidableEq, Repr

/-- The states of all members with history. -/
abbrev LedgerStates (ι : Type) : Type := HashMap String (LedgerMemberState ι)

/-- The result of a replay.  The set of accepted records is kept as the list of its elements in
the order of their acceptance. -/
structure MembershipLedgerEvaluation (ι : Type) where
  accepted : List ι
  states : LedgerStates ι
  /-- For each accepted record, the record that had made its issuer a member, if any. -/
  eventAuthorizers : HashMap ι (Option ι)
  firstAdmissions : HashMap String ι
  currentAdmissions : HashMap String ι

/-- The evaluation of no records. -/
def MembershipLedgerEvaluation.empty (ι : Type) : MembershipLedgerEvaluation ι :=
  ⟨[], ∅, ∅, ∅, ∅⟩

/-! ## The order of events -/

/-- The fields that order two records: issue time, grants before revocations, self-issued
before delegated, version, issuer, member and signature. -/
def membershipEventKey (record : SignedMembershipRecord) :
    ℕ ×ₗ Bool ×ₗ Bool ×ₗ (ℕ ×ₗ ℕ) ×ₗ String ×ₗ String ×ₗ String :=
  toLex (record.payload.issuedAtUnixSeconds, toLex (record.payload.revoked,
    toLex (!record.selfIssued, toLex (record.payload.recordVersion,
      toLex (record.payload.issuerPeer, toLex (record.payload.memberPeer, record.signature))))))

/-- `membership_event_order`, as the relation its sort establishes. -/
def membershipEventOrder (left right : SignedMembershipRecord) : Prop :=
  membershipEventKey left ≤ membershipEventKey right

instance : DecidableRel membershipEventOrder := fun left right =>
  inferInstanceAs (Decidable (membershipEventKey left ≤ membershipEventKey right))

/-- `membership_event_wins`: whether a candidate replaces the record a member's state rests
on.  A member that is not active comes back only through a higher epoch. -/
def membershipEventWins (candidate current : SignedMembershipRecord) (currentActive : Bool) :
    Bool :=
  if !currentActive && !candidate.payload.revoked then
    decide (current.payload.membershipEpoch < candidate.payload.membershipEpoch)
  else
    decide (current.payload.recordVersion < candidate.payload.recordVersion) ||
    decide (candidate.payload.recordVersion = current.payload.recordVersion) &&
      candidate.payload.revoked && !current.payload.revoked ||
    decide (candidate.payload.recordVersion = current.payload.recordVersion) &&
      candidate.payload.revoked == current.payload.revoked &&
      decide (toLex (current.payload.issuerPeer, current.signature)
        < toLex (candidate.payload.issuerPeer, candidate.signature))

section Replay

variable {ι : Type} (record : ι → SignedMembershipRecord) (trustedRoots : Finset String)

/-! ## Authorisation -/

/-- `issuer_is_active`: the issuer is an active member, or a root without any history. -/
def issuerIsActive (payload : MembershipRecordPayload) (states : LedgerStates ι) : Bool :=
  match states.get? payload.issuerPeer with
  | none => decide (payload.issuerPeer ∈ trustedRoots)
  | some state => state.active

/-- `issuer_is_active_or_genesis`: a self-issued grant needs a root in addition. -/
def issuerIsActiveOrGenesis (payload : MembershipRecordPayload) (states : LedgerStates ι) : Bool :=
  if payload.issuerPeer = payload.memberPeer then
    decide (payload.issuerPeer ∈ trustedRoots) &&
      match states.get? payload.issuerPeer with
      | none => true
      | some state => state.active
  else issuerIsActive trustedRoots payload states

/-! ## Applying one event -/

variable [DecidableEq ι] (evaluation : MembershipLedgerEvaluation ι) (states : LedgerStates ι)
  (group : List ι)

/-- Whether a record would replace its member's state. -/
def replacesState (candidate : ι) : Bool :=
  match states.get? (record candidate).payload.memberPeer with
  | none => true
  | some current =>
      membershipEventWins (record candidate) (record current.recordIndex) current.active

/-- The state a record puts its member into. -/
def stateOf (candidate : ι) : LedgerMemberState ι where
  recordIndex := candidate
  active := !(record candidate).payload.revoked &&
    (record candidate).payload.roles.contains .overlayMember

/-- `apply_membership_event`: the states after it; the source also returns `replacesState`. -/
def applyMembershipEvent (candidate : ι) : LedgerStates ι :=
  if replacesState record states candidate then
    states.insert (record candidate).payload.memberPeer (stateOf record candidate)
  else states

/-- `expire_members_at`. -/
def expireMembersAt (nowUnixSeconds : ℕ) : LedgerStates ι :=
  states.mapValues fun state =>
    if state.active && (record state.recordIndex).isExpiredAt nowUnixSeconds then
      { state with active := false }
    else state

/-- Accept a grant: remember what authorised it, apply it and keep the admissions. -/
def acceptGrant (index : ι) : MembershipLedgerEvaluation ι :=
  let payload := (record index).payload
  let wasActive := (evaluation.states.get? payload.memberPeer).any (·.active)
  let admits := replacesState record evaluation.states index &&
    payload.roles.contains .overlayMember
  { accepted := evaluation.accepted ++ [index]
    states := applyMembershipEvent record evaluation.states index
    eventAuthorizers := evaluation.eventAuthorizers.insert index
      ((evaluation.states.get? payload.issuerPeer).map (·.recordIndex))
    firstAdmissions :=
      if admits then evaluation.firstAdmissions.orInsert payload.memberPeer index
      else evaluation.firstAdmissions
    currentAdmissions :=
      if admits && !wasActive then evaluation.currentAdmissions.insert payload.memberPeer index
      else evaluation.currentAdmissions }

/-- The guard of the sweep over pending grants. -/
def grantEnabled (index : ι) : Bool :=
  issuerIsActiveOrGenesis trustedRoots (record index).payload evaluation.states

/-- Accept a revocation: remember what authorised it and apply it. -/
def acceptRevocation (index : ι) : MembershipLedgerEvaluation ι :=
  { evaluation with
    accepted := evaluation.accepted ++ [index]
    states := applyMembershipEvent record evaluation.states index
    eventAuthorizers := evaluation.eventAuthorizers.insert index
      ((evaluation.states.get? (record index).payload.issuerPeer).map (·.recordIndex)) }

/-! ## One issue second -/

/-- The grants of a group. -/
def grantsOf : List ι := group.filter fun index => !(record index).payload.revoked

/-- The revocations of a group whose issuer is active in the given states. -/
def authorizedRevocations : List ι :=
  (group.filter fun index => (record index).payload.revoked).filter fun index =>
    issuerIsActive trustedRoots (record index).payload states

/-- Lets memberships expire at the group's second. -/
def expireGroup (issuedAt : ℕ) : MembershipLedgerEvaluation ι :=
  { evaluation with states := expireMembersAt record evaluation.states issuedAt }

/-- Sweeps the grants of a group until no pending grant finds an active issuer. -/
def admitGrants : MembershipLedgerEvaluation ι :=
  (settle (grantEnabled record trustedRoots) (acceptGrant record) (grantsOf record group).length
    evaluation (grantsOf record group)).1

/-- Applies the authorised revocations of a group; they are chosen before any is applied. -/
def revokeMembers : MembershipLedgerEvaluation ι :=
  (authorizedRevocations record trustedRoots evaluation.states group).foldl
    (acceptRevocation record) evaluation

/-- One turn of the outer loop, on a group issued in second `issuedAt`. -/
def evaluateSecond (issuedAt : ℕ) (group : List ι) : MembershipLedgerEvaluation ι :=
  revokeMembers record trustedRoots
    (admitGrants record trustedRoots (expireGroup record evaluation issuedAt) group) group

/-- One turn of the outer loop; the second is that of the group's first record. -/
def evaluateGroup : MembershipLedgerEvaluation ι :=
  match group with
  | [] => evaluation
  | first :: _ =>
      evaluateSecond record trustedRoots evaluation (record first).payload.issuedAtUnixSeconds group

/-- The groups of equal issue second of an ordered list. -/
def issueGroups (ordered : List ι) : List (List ι) :=
  ordered.splitBy fun i j =>
    (record i).payload.issuedAtUnixSeconds == (record j).payload.issuedAtUnixSeconds

/-- The replay of ordered records, up to the last group. -/
def evaluateGroups (ordered : List ι) : MembershipLedgerEvaluation ι :=
  (issueGroups record ordered).foldl (evaluateGroup record trustedRoots)
    (MembershipLedgerEvaluation.empty ι)

/-- The replay of ordered records, with the memberships that have run out by the end removed. -/
def evaluateOrdered (ordered : List ι) (nowUnixSeconds : ℕ) : MembershipLedgerEvaluation ι :=
  expireGroup record (evaluateGroups record trustedRoots ordered) nowUnixSeconds

end Replay

/-! ## The replay of a record list -/

/-- The records issued by `nowUnixSeconds`, in replay order. -/
def orderedIndices (records : List SignedMembershipRecord) (nowUnixSeconds : ℕ) :
    List (Fin records.length) :=
  ((List.finRange records.length).filter fun index =>
      (records.get index).payload.issuedAtUnixSeconds ≤ nowUnixSeconds).insertionSort
    fun left right => membershipEventOrder (records.get left) (records.get right)

/-- The key under which two records must not differ. -/
def relationship (record : SignedMembershipRecord) : String × String :=
  (record.payload.issuerPeer, record.payload.memberPeer)

/-- One step of `latest_membership_record_indices`: keep the index of the highest version of
every relationship, and refuse an equal version with different content. -/
def noteLatest (records : List SignedMembershipRecord)
    (latest : HashMap (String × String) (Fin records.length)) (index : Fin records.length) :
    Except MembershipRecordError (HashMap (String × String) (Fin records.length)) :=
  let record := records.get index
  match latest.get? (relationship record) with
  | none => .ok (latest.insert (relationship record) index)
  | some existingIndex =>
      let existing := records.get existingIndex
      if existing.payload.recordVersion < record.payload.recordVersion then
        .ok (latest.insert (relationship record) index)
      else if record.payload.recordVersion = existing.payload.recordVersion ∧ record ≠ existing then
        .error (conflictingRecordVersion record)
      else .ok latest

/-- `latest_membership_record_indices`: the indices kept, in increasing order. -/
def latestMembershipRecordIndices (records : List SignedMembershipRecord) :
    Except MembershipRecordError (List (Fin records.length)) := do
  let latest ← (List.finRange records.length).foldlM (noteLatest records) ∅
  pure ((List.finRange records.length).filter fun index =>
    latest.get? (relationship (records.get index)) = some index)

/-- `evaluate_membership_ledger_at`. -/
def evaluateMembershipLedgerAt (records : List SignedMembershipRecord)
    (trustedRoots : Finset String) (nowUnixSeconds : ℕ) :
    Except MembershipRecordError (MembershipLedgerEvaluation (Fin records.length)) := do
  let _ ← latestMembershipRecordIndices records
  pure (evaluateOrdered records.get trustedRoots (orderedIndices records nowUnixSeconds)
    nowUnixSeconds)

end P2pVpn.Membership
