/-
# Effective membership and audit

What a node acts on is derived from the replay: the active members with their grants, the set of
peers the ledger governs, and an audit entry for every peer with history.  Both views walk over
hash maps, so they take the order of the iteration as a parameter.
-/
import P2pVpn.Membership.History

namespace P2pVpn.Membership

open Lib Net

section Views

variable {T K : Type} (env : Platform T K)

/-! ## The program -/

/-- `inviter_peer`: nobody for a self-issued record, its issuer otherwise. -/
def inviterPeer (payload : MembershipRecordPayload) : Except MembershipRecordError (Option T) :=
  if payload.issuerPeer = payload.memberPeer then .ok none
  else do
    let peer ← parsePeer env payload.issuerPeer
    pure (some peer)

/-- The canonical hostname of a payload, if it has one. -/
def payloadHostname (payload : MembershipRecordPayload) :
    Except MembershipRecordError (Option String) :=
  match payload.hostname with
  | none => .ok none
  | some hostname => do
      let label ← recordHostname hostname
      pure (some label)

/-- An active member as the rest of the program sees it. -/
structure EffectiveMember (T : Type) where
  peer : Bytes32
  transportPeer : T
  membershipEpoch : ℕ
  sequence : ℕ
  effectiveInviterPeer : Option T
  originalInviterPeer : Option T
  admittedAtUnixSeconds : ℕ
  originalAdmittedAtUnixSeconds : ℕ
  hostnames : List String
  roles : List MembershipRole
  routeGrants : List RouteConfig
deriving DecidableEq

/-- `EffectiveMember::try_from_payload`. -/
def EffectiveMember.tryFromPayload (payload currentAdmission : MembershipRecordPayload)
    (originalAdmission : Option MembershipRecordPayload) :
    Except MembershipRecordError (EffectiveMember T) := do
  let transportPeer ← parsePeer env payload.memberPeer
  let originalAdmission := originalAdmission.getD payload
  let effectiveInviterPeer ← inviterPeer env currentAdmission
  let originalInviterPeer ← inviterPeer env originalAdmission
  let hostname ← payloadHostname payload
  pure
    { peer := fromLibp2p env transportPeer
      transportPeer := transportPeer
      membershipEpoch := payload.membershipEpoch
      sequence := payload.sequence
      effectiveInviterPeer := effectiveInviterPeer
      originalInviterPeer := originalInviterPeer
      admittedAtUnixSeconds := currentAdmission.issuedAtUnixSeconds
      originalAdmittedAtUnixSeconds := originalAdmission.issuedAtUnixSeconds
      hostnames := hostname.toList
      roles := payload.roles
      routeGrants := payload.routeGrants }

/-- The active members by overlay address, and every address the ledger has history about. -/
structure EffectiveMembership (T : Type) where
  members : HashMap Bytes32 (EffectiveMember T)
  governedPeers : Finset Bytes32
  checkpointAuthoritative : Bool
deriving DecidableEq

inductive MembershipState where
  | active
  | revoked
  | expired
  | inactive
deriving DecidableEq, Repr

/-- One line of the audit. -/
structure MembershipAuditMember (T : Type) where
  peer : Bytes32
  transportPeer : T
  state : MembershipState
  effectiveInviterPeer : Option T
  originalInviterPeer : Option T
  admittedAtUnixSeconds : Option ℕ
  originalAdmittedAtUnixSeconds : Option ℕ
  stateChangedAtUnixSeconds : ℕ
  hostname : Option String
deriving DecidableEq

/-- The audited state of a member and the time it entered it. -/
def auditState (statePayload : MembershipRecordPayload) (active : Bool) (nowUnixSeconds : ℕ) :
    MembershipState × ℕ :=
  if active then (.active, statePayload.issuedAtUnixSeconds)
  else if statePayload.revoked then (.revoked, statePayload.issuedAtUnixSeconds)
  else
    match statePayload.expiresAtUnixSeconds with
    | none => (.inactive, statePayload.issuedAtUnixSeconds)
    | some expiresAt =>
        if expiresAt ≤ nowUnixSeconds then (.expired, expiresAt)
        else (.inactive, statePayload.issuedAtUnixSeconds)

/-- `inviter_peer` and `canonical_dns_label` under an optional admission. -/
def ofAdmission {α : Type} (f : MembershipRecordPayload → Except MembershipRecordError (Option α)) :
    Option MembershipRecordPayload → Except MembershipRecordError (Option α)
  | none => .ok none
  | some payload => f payload

/-- `MembershipAuditMember::try_from_payloads`. -/
def MembershipAuditMember.tryFromPayloads (statePayload : MembershipRecordPayload)
    (currentAdmission originalAdmission : Option MembershipRecordPayload) (active : Bool)
    (nowUnixSeconds : ℕ) : Except MembershipRecordError (MembershipAuditMember T) := do
  let transportPeer ← parsePeer env statePayload.memberPeer
  let effectiveInviterPeer ← ofAdmission (inviterPeer env) currentAdmission
  let originalInviterPeer ← ofAdmission (inviterPeer env) originalAdmission
  let hostname ← ofAdmission payloadHostname currentAdmission
  pure
    { peer := fromLibp2p env transportPeer
      transportPeer := transportPeer
      state := (auditState statePayload active nowUnixSeconds).1
      effectiveInviterPeer := effectiveInviterPeer
      originalInviterPeer := originalInviterPeer
      admittedAtUnixSeconds := currentAdmission.map (·.issuedAtUnixSeconds)
      originalAdmittedAtUnixSeconds := originalAdmission.map (·.issuedAtUnixSeconds)
      stateChangedAtUnixSeconds := (auditState statePayload active nowUnixSeconds).2
      hostname := hostname }

section Evaluation

variable {ι : Type} (record : ι → SignedMembershipRecord)
  (evaluation : MembershipLedgerEvaluation ι)

/-- The payloads of a member's current and first admission. -/
def currentAdmission (memberPeer : String) : Option MembershipRecordPayload :=
  (evaluation.currentAdmissions.get? memberPeer).map fun index => (record index).payload

def originalAdmission (memberPeer : String) : Option MembershipRecordPayload :=
  (evaluation.firstAdmissions.get? memberPeer).map fun index => (record index).payload

/-- The member that an active state stands for. -/
def effectiveMemberOf (state : LedgerMemberState ι) :
    Except MembershipRecordError (EffectiveMember T) :=
  let payload := (record state.recordIndex).payload
  EffectiveMember.tryFromPayload env payload
    ((currentAdmission record evaluation payload.memberPeer).getD payload)
    (originalAdmission record evaluation payload.memberPeer)

/-- The body of the loop over the states. -/
def projectState (membership : EffectiveMembership T) (entry : String × LedgerMemberState ι) :
    Except MembershipRecordError (EffectiveMembership T) := do
  let stateTransportPeer ← parsePeer env (record entry.2.recordIndex).payload.memberPeer
  let governed : EffectiveMembership T :=
    { membership with
      governedPeers := insert (fromLibp2p env stateTransportPeer) membership.governedPeers }
  if entry.2.active then do
    let candidate ← effectiveMemberOf env record evaluation entry.2
    pure { governed with members := governed.members.insert candidate.peer candidate }
  else pure governed

/-- `effective_membership_from_evaluation`. -/
def effectiveMembershipFromEvaluation (order : KeyOrder String) :
    Except MembershipRecordError (EffectiveMembership T) :=
  (order.entries evaluation.states).foldlM (projectState env record evaluation) ⟨∅, ∅, false⟩

/-- The audit entry of one peer with history. -/
def auditMember (nowUnixSeconds : ℕ) (entry : String × LedgerMemberState ι) :
    Except MembershipRecordError (MembershipAuditMember T) :=
  MembershipAuditMember.tryFromPayloads env (record entry.2.recordIndex).payload
    (currentAdmission record evaluation entry.1) (originalAdmission record evaluation entry.1)
    entry.2.active nowUnixSeconds

/-- `membership_audit_from_evaluation`. -/
def membershipAuditFromEvaluation [LinearOrder T] (order : KeyOrder String)
    (nowUnixSeconds : ℕ) : Except MembershipRecordError (List (MembershipAuditMember T)) := do
  let members ← (order.entries evaluation.states).mapM
    (auditMember env record evaluation nowUnixSeconds)
  pure (members.insertionSort fun left right => left.transportPeer ≤ right.transportPeer)

end Evaluation

/-- The last two lines of `effective_membership_at`, for roots of one's own choice. -/
def effectiveMembershipUnder (order : KeyOrder String) (records : List SignedMembershipRecord)
    (trustedRoots : Finset String) (nowUnixSeconds : ℕ) :
    Except MembershipRecordError (EffectiveMembership T) := do
  let evaluation ← evaluateMembershipLedgerAt records trustedRoots nowUnixSeconds
  effectiveMembershipFromEvaluation env records.get evaluation order

/-- `effective_membership_at`. -/
def effectiveMembershipAt [DecidableEq T] (order : KeyOrder String)
    (records : List SignedMembershipRecord) (networkName : String) (nowUnixSeconds : ℕ) :
    Except MembershipRecordError (EffectiveMembership T) := do
  validateMembershipRecordHistory env records networkName
  let anchors ← membershipTrustAnchors env records networkName
  effectiveMembershipUnder env order records anchors nowUnixSeconds

/-- `membership_audit_at`. -/
def membershipAuditAt [LinearOrder T] (order : KeyOrder String)
    (records : List SignedMembershipRecord) (networkName : String) (nowUnixSeconds : ℕ) :
    Except MembershipRecordError (List (MembershipAuditMember T)) := do
  validateMembershipRecordHistory env records networkName
  let anchors ← membershipTrustAnchors env records networkName
  let evaluation ← evaluateMembershipLedgerAt records anchors nowUnixSeconds
  membershipAuditFromEvaluation env records.get evaluation order nowUnixSeconds

end Views

end P2pVpn.Membership
