/-
# Hostname claims

Members name themselves by signed claims, each bound to the incarnation under which the peer is a
member.  A node keeps at most one claim per peer, in a table sorted by peer, and merges tables by
keeping the claim with the greater sequence number and, between equal ones, the greater name.

`heldVersion` says what a table holds for an incarnation.  Merging takes the greater of what two
tables hold (`NamesValid.mergeClaims`), and restricting a table to a snapshot forgets exactly the
incarnations that the snapshot does not have (`heldVersion_compatibleNames`).
-/
import Mathlib.Order.WithBot
import P2pVpn.Checkpoint.Snapshot

namespace P2pVpn.Checkpoint

open Lib Dns P2pVpn.Membership

/-! ## Claims and tables of claims -/

/-- The key of the table: the peer that makes the claim. -/
def SignedHostnameClaim.peerId (claim : SignedHostnameClaim) : String := claim.payload.subject.peerId

/-- The member that a claim is for: a peer with its key, and an incarnation of it. -/
def SignedHostnameClaim.holder (claim : SignedHostnameClaim) : SnapshotPublisher × Bytes32 :=
  (claim.payload.subject, claim.payload.incarnation)

/-- What claims for one member are compared by. -/
def SignedHostnameClaim.version (claim : SignedHostnameClaim) : ℕ ×ₗ String :=
  toLex (claim.payload.sequence, claim.payload.hostname)

/-- The snapshot has this member, under this incarnation. -/
def CheckpointSnapshot.admits (snapshot : CheckpointSnapshot)
    (holder : SnapshotPublisher × Bytes32) : Bool :=
  (snapshot.member holder.1.peerId).any fun member =>
    member.subject = holder.1 ∧ member.incarnation = holder.2

section Checks

variable {T K : Type} [DecidableEq T] (env : CheckpointPlatform T K)

/-- `validate_hostname_payload`. -/
def validateHostnamePayload (payload : HostnameClaimPayload) : Except CheckpointError Unit := do
  refuseIf (payload.version ≠ 1 ∨ payload.incarnation = 0)
    (.invalid "invalid hostname version/incarnation")
  payload.anchor.validate
  let _ ← payload.subject.validate env
  portable payload.sequence
  fieldBound payload.hostname 63
  let canonical ← liftRecord (recordHostname payload.hostname)
  refuseIf (canonical ≠ payload.hostname) (.invalid "noncanonical hostname")

/-- `SignedHostnameClaim::verify`. -/
def SignedHostnameClaim.verify (claim : SignedHostnameClaim) (snapshot : CheckpointSnapshot) :
    Except CheckpointError Unit := do
  validateHostnamePayload env claim.payload
  refuseIf (claim.payload.anchor ≠ snapshot.anchor) .wrongAnchor
  match snapshot.member claim.payload.subject.peerId with
  | none => throw (.invalid "unknown hostname subject")
  | some member =>
      refuseIf (claim.payload.subject ≠ member.subject ∨
          claim.payload.incarnation ≠ member.incarnation)
        (.invalid "hostname subject/incarnation mismatch")
      verifySignature env claim.payload.subject hostnameDomain
        (env.hostnamePayloadJson claim.payload) claim.signature

/-- The body of the loop over names. -/
def validateName (snapshot : CheckpointSnapshot) (last : Option String)
    (name : SignedHostnameClaim) : Except CheckpointError Unit := do
  refuseIf (last.any fun last => last ≥ name.peerId) (.invalid "noncanonical hostname ordering")
  name.verify env snapshot

/-- `validate_names`. -/
def validateNames (snapshot : CheckpointSnapshot) (names : List SignedHostnameClaim) :
    Except CheckpointError Unit := do
  refuseIf (names.length > maxCheckpointMembers ∨ names.length > snapshot.members.length)
    (.invalid "too many hostname claims")
  forWithLast SignedHostnameClaim.peerId (validateName env snapshot) none names

/-- `compatible_names`. -/
def compatibleNames (snapshot : CheckpointSnapshot) (names : List SignedHostnameClaim) :
    List SignedHostnameClaim :=
  names.filter fun claim => snapshot.admits claim.holder

/-- Which of two claims for one member stays in the table. -/
def supersede (name claim : SignedHostnameClaim) : SignedHostnameClaim :=
  if name.payload.sequence > claim.payload.sequence then name
  else if name.payload.sequence = claim.payload.sequence then
    if claim.payload.hostname > name.payload.hostname then claim else name
  else claim

/-- The loop of `merge_names`. -/
def mergeClaims (current incoming : List SignedHostnameClaim) : List SignedHostnameClaim :=
  incoming.foldl (upsert SignedHostnameClaim.peerId supersede) current

/-- `merge_names`. -/
def mergeNames (snapshot : CheckpointSnapshot) (current incoming : List SignedHostnameClaim) :
    Except CheckpointError (List SignedHostnameClaim) := do
  validateNames env snapshot current
  validateNames env snapshot incoming
  pure (mergeClaims current incoming)

end Checks

/-- The version of the claim that a table holds for a member, if any. -/
def heldVersion (names : List SignedHostnameClaim) (holder : SnapshotPublisher × Bytes32) :
    WithBot (ℕ ×ₗ String) :=
  names.foldr (fun claim held => (if claim.holder = holder then ↑claim.version else ⊥) ⊔ held) ⊥

/-! ## What validity means -/

variable {T K : Type} [DecidableEq T] {env : CheckpointPlatform T K}
  {snapshot next : CheckpointSnapshot} {names current incoming : List SignedHostnameClaim}
  {claim : SignedHostnameClaim} {holder : SnapshotPublisher × Bytes32}

/-- The part of a claim's check that does not depend on a roster. -/
structure ClaimSigned (env : CheckpointPlatform T K) (anchor : NetworkAnchor)
    (claim : SignedHostnameClaim) : Prop where
  payload : validateHostnamePayload env claim.payload = .ok ()
  anchor : claim.payload.anchor = anchor
  signature : verifySignature env claim.payload.subject hostnameDomain
    (env.hostnamePayloadJson claim.payload) claim.signature = .ok ()

/-- A table of claims that is in order for a snapshot. -/
structure NamesValid (env : CheckpointPlatform T K) (snapshot : CheckpointSnapshot)
    (names : List SignedHostnameClaim) : Prop where
  signed : ∀ claim ∈ names, ClaimSigned env snapshot.anchor claim
  admitted : ∀ claim ∈ names, snapshot.admits claim.holder = true
  sorted : Sorted SignedHostnameClaim.peerId names

lemma admits_iff : snapshot.admits holder = true ↔ ∃ member,
    snapshot.member holder.1.peerId = some member ∧ member.subject = holder.1 ∧
      member.incarnation = holder.2 := by
  simp [CheckpointSnapshot.admits, Option.any_eq_true]

/-- A snapshot admits a peer under one key and one incarnation only. -/
lemma eq_of_admits {holder' : SnapshotPublisher × Bytes32} (h : snapshot.admits holder = true)
    (h' : snapshot.admits holder' = true) (hpeer : holder.1.peerId = holder'.1.peerId) :
    holder = holder' := by
  obtain ⟨member, hmember, hsubject, hincarnation⟩ := admits_iff.mp h
  obtain ⟨member', hmember', hsubject', hincarnation'⟩ := admits_iff.mp h'
  obtain rfl : member = member' := by simpa [hpeer, hmember'] using hmember.symm
  exact Prod.ext (hsubject.symm.trans hsubject') (hincarnation.symm.trans hincarnation')

lemma SignedHostnameClaim.verify_eq_ok :
    claim.verify env snapshot = .ok () ↔
      ClaimSigned env snapshot.anchor claim ∧ snapshot.admits claim.holder = true := by
  simp only [SignedHostnameClaim.verify, admits_iff, bind_eq_ok, exists_unit_iff, refuseIf_eq_ok, not_not]
  cases hmember : snapshot.member claim.payload.subject.peerId with
  | none => simp [hmember, SignedHostnameClaim.holder, throw, throwThe, MonadExceptOf.throw]
  | some member =>
    simp only [hmember, SignedHostnameClaim.holder, bind_eq_ok, exists_unit_iff, refuseIf_eq_ok, not_or,
      not_not, Option.some.injEq, exists_eq_left']
    constructor
    · rintro ⟨hpayload, hanchor, ⟨hsubject, hincarnation⟩, hsignature⟩
      exact ⟨⟨hpayload, hanchor, hsignature⟩, hsubject.symm, hincarnation.symm⟩
    · rintro ⟨⟨hpayload, hanchor, hsignature⟩, hsubject, hincarnation⟩
      exact ⟨hpayload, hanchor, ⟨hsubject.symm, hincarnation.symm⟩, hsignature⟩

lemma validateName_eq_ok (last : Option String) (name : SignedHostnameClaim) :
    validateName env snapshot last name = .ok () ↔
      (ClaimSigned env snapshot.anchor name ∧ snapshot.admits name.holder = true) ∧
        ∀ x ∈ last, x < name.peerId := by
  simp only [validateName, bind_eq_ok, exists_unit_iff, refuseIf_eq_ok, Option.any_eq_true,
    decide_eq_true_eq, not_exists, not_and, not_le, Option.mem_def, ge_iff_le,
    SignedHostnameClaim.verify_eq_ok]
  exact and_comm

/-- A table has no more claims than the roster has members. -/
lemma NamesValid.length_le (h : NamesValid env snapshot names)
    (hmembers : Sorted CheckpointMember.peerId snapshot.members) :
    names.length ≤ snapshot.members.length := by
  have hsub : names.map SignedHostnameClaim.peerId ⊆
      snapshot.members.map CheckpointMember.peerId := by
    intro peer hpeer
    obtain ⟨claim, hclaim, rfl⟩ := List.mem_map.mp hpeer
    obtain ⟨member, hmember, -⟩ := admits_iff.mp (h.admitted claim hclaim)
    obtain ⟨hmem, hkey⟩ := (lookup_eq_some_iff hmembers).mp hmember
    exact List.mem_map.mpr ⟨member, hmem, hkey⟩
  simpa using (List.subperm_of_subset h.sorted.nodup_map hsub).length_le

lemma validateNames_eq_ok (hvalid : snapshot.validate env = .ok ()) :
    validateNames env snapshot names = .ok () ↔ NamesValid env snapshot names := by
  obtain ⟨hbound, hmembers⟩ := CheckpointSnapshot.validate_members hvalid
  rw [validateNames, bind_eq_ok]
  simp only [refuseIf_eq_ok, forWithLast_eq_ok validateName_eq_ok, not_or, not_lt]
  constructor
  · rintro ⟨⟨⟩, -, hclaims, hsorted, -⟩
    exact ⟨fun claim hclaim => (hclaims claim hclaim).1, fun claim hclaim => (hclaims claim hclaim).2,
      hsorted⟩
  · intro h
    have hlength := h.length_le hmembers
    exact ⟨(), ⟨hlength.trans hbound, hlength⟩,
      fun claim hclaim => ⟨h.signed claim hclaim, h.admitted claim hclaim⟩, h.sorted, by simp⟩

/-- What a snapshot of the same network keeps of a table is in order for that snapshot. -/
lemma NamesValid.compatible (h : NamesValid env snapshot names)
    (hanchor : next.anchor = snapshot.anchor) :
    NamesValid env next (compatibleNames next names) where
  signed claim hclaim := hanchor ▸ h.signed claim (List.mem_of_mem_filter hclaim)
  admitted claim hclaim := by simpa using List.of_mem_filter hclaim
  sorted := List.Pairwise.filter _ h.sorted

/-! ## Merging tables -/

lemma supersede_eq_or (name claim : SignedHostnameClaim) :
    supersede name claim = name ∨ supersede name claim = claim := by
  unfold supersede
  split_ifs <;> simp

lemma version_le_iff {name claim : SignedHostnameClaim} : name.version ≤ claim.version ↔
    name.payload.sequence < claim.payload.sequence ∨
      name.payload.sequence = claim.payload.sequence ∧
        name.payload.hostname ≤ claim.payload.hostname :=
  Prod.Lex.le_iff

/-- The claim that stays has the greater version. -/
lemma version_supersede (name claim : SignedHostnameClaim) :
    (supersede name claim).version = name.version ⊔ claim.version := by
  unfold supersede
  split_ifs with hgt heq hname
  · exact (sup_eq_left.mpr (version_le_iff.mpr (Or.inl hgt))).symm
  · exact (sup_eq_right.mpr (version_le_iff.mpr (Or.inr ⟨heq, hname.le⟩))).symm
  · exact (sup_eq_left.mpr (version_le_iff.mpr (Or.inr ⟨heq.symm, not_lt.mp hname⟩))).symm
  · exact (sup_eq_right.mpr (version_le_iff.mpr (Or.inl (by omega)))).symm

lemma peerId_supersede {name claim : SignedHostnameClaim} (h : name.peerId = claim.peerId) :
    (supersede name claim).peerId = claim.peerId := by
  rcases supersede_eq_or name claim with h' | h' <;> rw [h']
  exact h

@[simp] lemma heldVersion_nil : heldVersion [] holder = ⊥ := rfl

lemma heldVersion_cons : heldVersion (claim :: names) holder
    = (if claim.holder = holder then ↑claim.version else ⊥) ⊔ heldVersion names holder := rfl

lemma heldVersion_append : heldVersion (current ++ incoming) holder
    = heldVersion current holder ⊔ heldVersion incoming holder := by
  induction current with
  | nil => simp
  | cons claim current ih => rw [List.cons_append, heldVersion_cons, heldVersion_cons, ih, sup_assoc]

lemma coe_le_heldVersion_iff {v : ℕ ×ₗ String} : ↑v ≤ heldVersion names holder ↔
    ∃ claim ∈ names, claim.holder = holder ∧ v ≤ claim.version := by
  induction names with
  | nil => simp
  | cons claim names ih =>
    rw [heldVersion_cons, le_sup_iff, ih]
    split
    · rename_i h
      simp [h]
    · rename_i h
      simp [h]

/-- Restricting a table to a snapshot forgets exactly the members it does not have. -/
lemma heldVersion_compatibleNames : heldVersion (compatibleNames snapshot names) holder
    = if snapshot.admits holder then heldVersion names holder else ⊥ := by
  induction names with
  | nil => simp [compatibleNames]
  | cons claim names ih =>
    have hcons : compatibleNames snapshot (claim :: names)
        = if snapshot.admits claim.holder then claim :: compatibleNames snapshot names
          else compatibleNames snapshot names := by
      simp [compatibleNames, List.filter_cons]
    rw [hcons, heldVersion_cons]
    by_cases hholder : claim.holder = holder
    · subst hholder
      split
      · rename_i hadmits
        rw [heldVersion_cons, ih, if_pos hadmits]
      · rename_i hadmits
        rw [ih, if_neg hadmits]
    · rw [if_neg hholder, bot_sup_eq, ← ih]
      split
      · rw [heldVersion_cons, if_neg hholder, bot_sup_eq]
      · rfl

section Merge

/-- Putting one claim into a table. -/
lemma NamesValid.upsert (h : NamesValid env snapshot names)
    (hsigned : ClaimSigned env snapshot.anchor claim)
    (hadmits : snapshot.admits claim.holder = true) :
    NamesValid env snapshot (upsert SignedHostnameClaim.peerId supersede names claim) := by
  have hmem : ∀ c ∈ Lib.upsert SignedHostnameClaim.peerId supersede names claim,
      c ∈ names ∨ c = claim := by
    intro c hc
    rcases @upsert_cases _ _ _ _ _ supersede claim h.sorted with
      ⟨before, old, after, rfl, -, heq⟩ | ⟨before, after, rfl, -, -, heq⟩
    · rw [heq, List.mem_append, List.mem_cons] at hc
      rcases hc with hc | rfl | hc
      · exact Or.inl (by simp [hc])
      · rcases supersede_eq_or old claim with hs | hs <;> rw [hs] <;> simp
      · exact Or.inl (by simp [hc])
    · rw [heq, List.mem_append, List.mem_cons] at hc
      rcases hc with hc | rfl | hc
      · exact Or.inl (by simp [hc])
      · exact Or.inr rfl
      · exact Or.inl (by simp [hc])
  refine ⟨?_, ?_, h.sorted.upsert fun old => peerId_supersede⟩
  · intro c hc
    rcases hmem c hc with hc | rfl
    · exact h.signed c hc
    · exact hsigned
  · intro c hc
    rcases hmem c hc with hc | rfl
    · exact h.admitted c hc
    · exact hadmits

lemma heldVersion_upsert (h : NamesValid env snapshot names)
    (hadmits : snapshot.admits claim.holder = true) :
    heldVersion (upsert SignedHostnameClaim.peerId supersede names claim) holder
      = heldVersion names holder ⊔ heldVersion [claim] holder := by
  rcases @upsert_cases _ _ _ _ _ supersede claim h.sorted with
    ⟨before, old, after, rfl, hpeer, heq⟩ | ⟨before, after, rfl, -, -, heq⟩
  · -- the claim in the table is for the same member, since the snapshot admits both
    have hholder : old.holder = claim.holder :=
      eq_of_admits (h.admitted old (by simp)) hadmits hpeer
    have hnew : (supersede old claim).holder = claim.holder := by
      rcases supersede_eq_or old claim with hs | hs <;> rw [hs]
      exact hholder
    rw [heq]
    simp only [heldVersion_append, heldVersion_cons, heldVersion_nil, hnew, hholder,
      version_supersede, sup_bot_eq]
    split
    · rw [WithBot.coe_sup]
      ac_rfl
    · simp
  · rw [heq]
    simp only [heldVersion_append, heldVersion_cons, heldVersion_nil, sup_bot_eq]
    ac_rfl

/-- Merging tables that are in order for a snapshot. -/
lemma NamesValid.mergeClaims (hcurrent : NamesValid env snapshot current)
    (hincoming : NamesValid env snapshot incoming) :
    NamesValid env snapshot (mergeClaims current incoming) ∧
      ∀ holder, heldVersion (mergeClaims current incoming) holder
        = heldVersion current holder ⊔ heldVersion incoming holder := by
  have hclaims : ∀ claim ∈ incoming, ClaimSigned env snapshot.anchor claim ∧
      snapshot.admits claim.holder = true := fun claim hclaim =>
    ⟨hincoming.signed claim hclaim, hincoming.admitted claim hclaim⟩
  clear hincoming
  induction incoming generalizing current with
  | nil => exact ⟨hcurrent, fun holder => by simp [Checkpoint.mergeClaims]⟩
  | cons claim incoming ih =>
    obtain ⟨⟨hsigned, hadmits⟩, hrest⟩ := List.forall_mem_cons.mp hclaims
    obtain ⟨hvalid, hheld⟩ := ih (hcurrent.upsert hsigned hadmits) hrest
    refine ⟨hvalid, fun holder => ?_⟩
    rw [show Checkpoint.mergeClaims current (claim :: incoming) = Checkpoint.mergeClaims
        (Lib.upsert SignedHostnameClaim.peerId supersede current claim) incoming from rfl,
      hheld, heldVersion_upsert hcurrent hadmits, sup_assoc, ← heldVersion_append]
    rfl

/-- Merging never fails on tables that are in order. -/
lemma mergeNames_eq_ok (hvalid : snapshot.validate env = .ok ())
    (hcurrent : NamesValid env snapshot current) (hincoming : NamesValid env snapshot incoming) :
    mergeNames env snapshot current incoming = .ok (mergeClaims current incoming) := by
  rw [mergeNames, (validateNames_eq_ok hvalid).mpr hcurrent,
    (validateNames_eq_ok hvalid).mpr hincoming]
  rfl

end Merge

end P2pVpn.Checkpoint
