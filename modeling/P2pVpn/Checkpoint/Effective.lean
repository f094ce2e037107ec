/-
# The membership of a checkpoint

While a node takes part in its network, the active members of its current snapshot are the
effective membership, with the names they claim and, if the policy allows it, with their routes.
-/
import P2pVpn.Checkpoint.State
import P2pVpn.Membership.Effective

namespace P2pVpn.Checkpoint

open Lib P2pVpn.Membership

variable {T K : Type} [DecidableEq T] (env : CheckpointPlatform T K)

namespace CooperativeMembershipState

variable (state : CooperativeMembershipState)

/-- The names that are claimed for a member. -/
def memberHostnames (member : CheckpointMember) : List String :=
  (state.names.filter fun claim => claim.payload.subject = member.subject ∧
    claim.payload.incarnation = member.incarnation).map (·.payload.hostname)

/-- The member that an entry of the roster stands for. -/
def effectiveMember (member : CheckpointMember) (transportPeer : T) : EffectiveMember T where
  peer := fromLibp2p env.toPlatform transportPeer
  transportPeer := transportPeer
  membershipEpoch := max state.current.payload.authorityRevision 1
  sequence := 0
  effectiveInviterPeer := none
  originalInviterPeer := none
  admittedAtUnixSeconds := 0
  originalAdmittedAtUnixSeconds := 0
  hostnames := state.memberHostnames member
  roles :=
    if state.current.payload.policy.routeGrantsEnabled then member.roles
    else member.roles.filter (· ≠ .routeAuthority)
  routeGrants := if state.current.payload.policy.routeGrantsEnabled then member.routeGrants else []

/-- The body of the loop over the roster. -/
def insertMember (members : HashMap Bytes32 (EffectiveMember T)) (member : CheckpointMember) :
    Except CheckpointError (HashMap Bytes32 (EffectiveMember T)) := do
  let transportPeer ← liftRecord (parsePeer env.toPlatform member.subject.peerId)
  let effective := state.effectiveMember env member transportPeer
  pure (members.insert effective.peer effective)

/-- `effective_membership_at`.  The checkpoint seals the namespace, also for a node that does not
take part. -/
def effectiveMembershipAt (now : ℕ) : Except CheckpointError (EffectiveMembership T) :=
  match state.requireParticipation now with
  | .error _ => .ok ⟨∅, ∅, true⟩
  | .ok () => do
      let members ← (state.current.payload.members.filter (·.activeAt now)).foldlM
        (state.insertMember env) ∅
      pure ⟨members, ∅, true⟩

end CooperativeMembershipState

end P2pVpn.Checkpoint
