/-
# Snapshots and their rank

The checks on a snapshot, its digest and its rank, and its authentication by the key that the
members of the network share.  Ranks are compared by revision, then by the size of the roster,
then by digest; snapshots that authenticate under one capability and have equal ranks are equal,
unless their digests collide (`eq_of_rankOf_eq`).
-/
import Mathlib.Order.Fin.Basic
import P2pVpn.Checkpoint.Objects

namespace P2pVpn.Checkpoint

open Lib Net P2pVpn.Membership

/-! ## Anchors, policies and members -/

def NetworkAnchor.validate (anchor : NetworkAnchor) : Except CheckpointError Unit := do
  refuseIf (anchor.version ≠ 1 ∨ anchor.policyVersion ≠ 1 ∨ anchor.rankVersion ≠ 1)
    (.invalid "unsupported anchor/policy/rank version")
  refuseIf (anchor.networkId = 0) (.invalid "empty network identity")

/-- `SnapshotPolicy::validate`, for a roster of `count` members. -/
def SnapshotPolicy.validate (policy : SnapshotPolicy) (count : ℕ) : Except CheckpointError Unit :=
  refuseIf (policy.maxActiveMembers = 0 ∨ policy.maxActiveMembers > maxCheckpointMembers ∨
    count > policy.maxActiveMembers) (.invalid "invalid member limit")

/-- `canonical_route`: the text of the address block with its host bits cleared. -/
def canonicalRoute (route : RouteConfig) : Except CheckpointError String :=
  match route.cidr with
  | .error _ => .error (.invalid "invalid route prefix")
  | .ok cidr =>
      .ok ((normalizeAddress cidr.address cidr.prefixLen).text ++ "/" ++ toString cidr.prefixLen)

/-- `CheckpointMember::active_at`. -/
def CheckpointMember.activeAt (member : CheckpointMember) (now : ℕ) : Bool :=
  match member.expiresAtUnixSeconds with
  | none => true
  | some expiry => decide (now < expiry)

/-- The body of the loop over route grants. -/
def validateRoute (last : Option (String ×ₗ ℕ)) (route : RouteConfig) :
    Except CheckpointError Unit := do
  fieldBound route.prefixText 64
  let canonical ← canonicalRoute route
  refuseIf (canonical ≠ route.prefixText ∨
      last.any fun last => last ≥ toLex (route.prefixText, route.metric))
    (.invalid "noncanonical route grants")

variable {T K : Type} [DecidableEq T] (env : CheckpointPlatform T K)

def CheckpointMember.validate (member : CheckpointMember) : Except CheckpointError Unit := do
  let _ ← member.subject.validate env
  refuseIf (member.incarnation = 0) (.invalid "empty member incarnation")
  refuseIf (member.roles ≠ [.overlayMember] ∧ member.roles ≠ [.overlayMember, .routeAuthority])
    (.invalid "noncanonical membership roles")
  refuseIf (member.routeGrants.length > maxCheckpointRoutes) (.invalid "too many route grants")
  refuseIf (member.routeGrants ≠ [] ∧ .routeAuthority ∉ member.roles)
    (.invalid "route grants without route authority")
  forWithLast (fun route => toLex (route.prefixText, route.metric)) validateRoute none
    member.routeGrants
  match member.expiresAtUnixSeconds with
  | none => pure ()
  | some expiry => portable expiry

/-! ## Snapshots -/

/-- The key of the roster. -/
def CheckpointMember.peerId (member : CheckpointMember) : String := member.subject.peerId

/-- `CheckpointSnapshot::member`, by binary search. -/
def CheckpointSnapshot.member (snapshot : CheckpointSnapshot) (peer : String) :
    Option CheckpointMember :=
  lookup CheckpointMember.peerId snapshot.members peer

/-- The body of the loop over members. -/
def validateMember (last : Option String) (member : CheckpointMember) :
    Except CheckpointError Unit := do
  member.validate env
  refuseIf (last.any fun last => last ≥ member.peerId) (.invalid "noncanonical member ordering")

def CheckpointSnapshot.validate (snapshot : CheckpointSnapshot) : Except CheckpointError Unit := do
  refuseIf (snapshot.version ≠ cooperativeCheckpointVersion)
    (.invalid "unsupported checkpoint version")
  snapshot.anchor.validate
  portable snapshot.authorityRevision
  refuseIf (¬ (snapshot.authorityRevision = 0 ↔ snapshot.parentDigest = none) ∨
      snapshot.parentDigest = some 0)
    (.invalid "invalid checkpoint boundary")
  refuseIf (snapshot.members.length > maxCheckpointMembers) (.invalid "too many members")
  snapshot.policy.validate snapshot.members.length
  forWithLast CheckpointMember.peerId (validateMember env) none snapshot.members
  bytesBound (env.snapshotJson snapshot).length maxCheckpointBytes

/-- `digest(SNAPSHOT_DOMAIN, snapshot)`. -/
def CheckpointSnapshot.digest (snapshot : CheckpointSnapshot) : Bytes32 :=
  Checkpoint.digest env snapshotDomain (env.snapshotJson snapshot)

def CheckpointSnapshot.boundary (snapshot : CheckpointSnapshot) :
    Except CheckpointError CheckpointBoundary := do
  snapshot.validate env
  pure { authorityRevision := snapshot.authorityRevision, digest := snapshot.digest env }

/-- The rank of a snapshot, with the order of its fields. -/
structure SnapshotRank where
  authorityRevision : ℕ
  activeMemberCount : ℕ
  digest : Bytes32
deriving DecidableEq, Repr

instance : LinearOrder SnapshotRank :=
  LinearOrder.lift'
    (fun rank => toLex (rank.authorityRevision, toLex (rank.activeMemberCount, rank.digest)))
    fun a b h => by
      cases a
      cases b
      simpa [Prod.ext_iff] using h

/-- The rank of a snapshot that passes its checks. -/
def CheckpointSnapshot.rankOf (snapshot : CheckpointSnapshot) : SnapshotRank where
  authorityRevision := snapshot.authorityRevision
  activeMemberCount := snapshot.members.length
  digest := snapshot.digest env

def CheckpointSnapshot.rank (snapshot : CheckpointSnapshot) :
    Except CheckpointError SnapshotRank := do
  let boundary ← snapshot.boundary env
  pure { authorityRevision := snapshot.authorityRevision
         activeMemberCount := snapshot.members.length
         digest := boundary.digest }

/-! ## Capabilities -/

/-- `validate_scope`. -/
def NetworkCapability.validateScope (capability : NetworkCapability)
    (snapshot : CheckpointSnapshot) : Except CheckpointError Unit := do
  refuseIf (snapshot.anchor ≠ capability.anchor) .wrongAnchor
  snapshot.validate env

/-- The authentication code of a snapshot. -/
def NetworkCapability.snapshotMac (capability : NetworkCapability)
    (snapshot : CheckpointSnapshot) : Bytes32 :=
  env.hmacSha256 capability.macKey (snapshotDomain ++ env.snapshotJson snapshot)

def NetworkCapability.authenticate (capability : NetworkCapability)
    (payload : CheckpointSnapshot) : Except CheckpointError AuthenticatedSnapshot := do
  capability.validateScope env payload
  pure { payload := payload, mac := capability.snapshotMac env payload }

def NetworkCapability.verify (capability : NetworkCapability)
    (snapshot : AuthenticatedSnapshot) : Except CheckpointError Unit := do
  capability.validateScope env snapshot.payload
  refuseIf (capability.snapshotMac env snapshot.payload ≠ snapshot.mac) .invalidMac

variable {env}

/-! ## What passing the checks means -/

lemma SnapshotRank.le_iff {a b : SnapshotRank} :
    a ≤ b ↔ toLex (a.authorityRevision, toLex (a.activeMemberCount, a.digest))
      ≤ toLex (b.authorityRevision, toLex (b.activeMemberCount, b.digest)) :=
  Iff.rfl

lemma SnapshotRank.lt_iff {a b : SnapshotRank} :
    a < b ↔ toLex (a.authorityRevision, toLex (a.activeMemberCount, a.digest))
      < toLex (b.authorityRevision, toLex (b.activeMemberCount, b.digest)) :=
  Iff.rfl

/-- A higher rank never has a lower revision. -/
lemma SnapshotRank.authorityRevision_le {a b : SnapshotRank} (h : a ≤ b) :
    a.authorityRevision ≤ b.authorityRevision := by
  rw [SnapshotRank.le_iff, Prod.Lex.le_iff] at h
  rcases h with h | ⟨h, -⟩
  · exact h.le
  · exact h.le

lemma SnapshotRank.lt_of_authorityRevision_lt {a b : SnapshotRank}
    (h : a.authorityRevision < b.authorityRevision) : a < b := by
  rw [SnapshotRank.lt_iff, Prod.Lex.lt_iff]
  exact Or.inl h

section Validate

variable {snapshot : CheckpointSnapshot}

lemma validateMember_eq_ok (last : Option String) (member : CheckpointMember) :
    validateMember env last member = .ok () ↔
      member.validate env = .ok () ∧ ∀ x ∈ last, x < member.peerId := by
  simp only [validateMember, bind_eq_ok, exists_unit_iff, refuseIf_eq_ok, Option.any_eq_true,
    decide_eq_true_eq, not_exists, not_and, not_le, Option.mem_def, ge_iff_le]

/-- A valid snapshot has a bounded, sorted roster. -/
lemma CheckpointSnapshot.validate_members (h : snapshot.validate env = .ok ()) :
    snapshot.members.length ≤ maxCheckpointMembers ∧
      Sorted CheckpointMember.peerId snapshot.members := by
  simp only [CheckpointSnapshot.validate, bind_eq_ok, refuseIf_eq_ok, not_lt] at h
  obtain ⟨_, _, _, _, _, _, _, _, _, hlength, _, _, _, hmembers, _⟩ := h
  exact ⟨hlength, ((forWithLast_eq_ok validateMember_eq_ok).mp hmembers).2.1⟩

lemma CheckpointSnapshot.boundary_eq_ok {boundary : CheckpointBoundary} :
    snapshot.boundary env = .ok boundary ↔ snapshot.validate env = .ok () ∧
      boundary = ⟨snapshot.authorityRevision, snapshot.digest env⟩ := by
  simp only [CheckpointSnapshot.boundary, bind_eq_ok, exists_unit_iff, pure_eq_ok]

lemma CheckpointSnapshot.rank_eq_ok {rank : SnapshotRank} :
    snapshot.rank env = .ok rank ↔ snapshot.validate env = .ok () ∧ rank = snapshot.rankOf env := by
  simp only [CheckpointSnapshot.rank, bind_eq_ok, boundary_eq_ok, pure_eq_ok, and_assoc, exists_and_left,
    exists_eq_left]
  rfl

end Validate

section Capability

variable {capability : NetworkCapability} {snapshot other : AuthenticatedSnapshot}

lemma NetworkCapability.validateScope_eq_ok {payload : CheckpointSnapshot} :
    capability.validateScope env payload = .ok () ↔
      payload.anchor = capability.anchor ∧ payload.validate env = .ok () := by
  rw [NetworkCapability.validateScope, bind_eq_ok]
  simp only [refuseIf_eq_ok, ne_eq, not_not]
  exact exists_const Unit

lemma NetworkCapability.verify_eq_ok :
    capability.verify env snapshot = .ok () ↔ snapshot.payload.anchor = capability.anchor ∧
      snapshot.payload.validate env = .ok () ∧
      capability.snapshotMac env snapshot.payload = snapshot.mac := by
  simp only [NetworkCapability.verify, bind_eq_ok, exists_unit_iff, validateScope_eq_ok, refuseIf_eq_ok,
    ne_eq, not_not, and_assoc]

/-- What a capability authenticates, it verifies. -/
lemma NetworkCapability.authenticate_eq_ok {payload : CheckpointSnapshot}
    (h : capability.authenticate env payload = .ok snapshot) :
    snapshot.payload = payload ∧ capability.verify env snapshot = .ok () := by
  obtain ⟨⟨⟩, hscope, hsnapshot⟩ := bind_eq_ok.mp h
  obtain rfl := Except.ok.inj hsnapshot
  obtain ⟨hanchor, hvalid⟩ := validateScope_eq_ok.mp hscope
  exact ⟨rfl, verify_eq_ok.mpr ⟨hanchor, hvalid, rfl⟩⟩

/-- The authentication code is a function of the content. -/
lemma eq_of_payload_eq (hsnapshot : capability.verify env snapshot = .ok ())
    (hother : capability.verify env other = .ok ()) (h : snapshot.payload = other.payload) :
    snapshot = other := by
  obtain ⟨-, -, hmac⟩ := NetworkCapability.verify_eq_ok.mp hsnapshot
  obtain ⟨-, -, hmac'⟩ := NetworkCapability.verify_eq_ok.mp hother
  cases snapshot
  cases other
  simp only at h hmac hmac'
  subst h
  rw [← hmac, ← hmac']

/-- Snapshots of equal rank are equal if their digests do not collide. -/
lemma eq_of_rankOf_eq (hsnapshot : capability.verify env snapshot = .ok ())
    (hother : capability.verify env other = .ok ())
    (hdigest : snapshot.payload.digest env = other.payload.digest env →
      snapshot.payload = other.payload)
    (h : snapshot.payload.rankOf env = other.payload.rankOf env) : snapshot = other :=
  eq_of_payload_eq hsnapshot hother (hdigest (congrArg SnapshotRank.digest h))

end Capability

end P2pVpn.Checkpoint
