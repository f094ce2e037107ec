/-
# What the views over a replay contain

The loops over hash maps that build the effective membership and the audit are described without
reference to the order of the iteration: every state with a verified record contributes exactly
its own entry (`Projects`), provided different member identifiers have different overlay
addresses.  Two iterations of one evaluation therefore give the same view.
-/
import P2pVpn.Membership.Effective
import P2pVpn.Membership.Renaming
import P2pVpn.Membership.Replay

namespace P2pVpn.Membership

open Lib

variable {T K : Type} {env : Platform T K} {ι : Type}
  {record : ι → SignedMembershipRecord} {evaluation : MembershipLedgerEvaluation ι}

/-- The overlay address of a member, when its identifier can be read. -/
def overlayPeer (env : Platform T K) (memberPeer : String) : Option Bytes32 :=
  (env.parsePeerId memberPeer).map (fromLibp2p env)

/-- Different member identifiers of the list have different overlay addresses: reading an
identifier is injective and the hash has no collision among them. -/
def DistinctAddresses (env : Platform T K) (records : List SignedMembershipRecord) : Prop :=
  ∀ a ∈ records, ∀ b ∈ records,
    overlayPeer env a.payload.memberPeer = overlayPeer env b.payload.memberPeer →
      a.payload.memberPeer = b.payload.memberPeer

/-- The evaluation only rests on verified records, with the facts every replay ensures. -/
structure VerifiedEvaluation (env : Platform T K) (record : ι → SignedMembershipRecord)
    (evaluation : MembershipLedgerEvaluation ι) : Prop where
  states : StatesSound record evaluation
  admissions : AdmissionsSound evaluation
  verified : ∀ index ∈ evaluation.accepted, VerifiedRecord env (record index)

/-! ## Every entry can be built -/

lemma inviterPeer_ok {r : SignedMembershipRecord} (h : VerifiedRecord env r) :
    ∃ inviter, inviterPeer env r.payload = .ok inviter := by
  unfold inviterPeer
  split
  · exact ⟨none, rfl⟩
  · obtain ⟨peer, hpeer⟩ := h.issuer_parses
    exact ⟨some peer, bind_eq_ok.mpr ⟨peer, parsePeer_eq_ok.mpr hpeer, rfl⟩⟩

lemma payloadHostname_ok {r : SignedMembershipRecord} (h : VerifiedRecord env r) :
    ∃ hostname, payloadHostname r.payload = .ok hostname := by
  unfold payloadHostname
  split
  · exact ⟨none, rfl⟩
  · rename_i hostname hhost
    obtain ⟨label, hlabel⟩ := h.payload.hostname_ok hostname hhost
    exact ⟨some label, bind_eq_ok.mpr ⟨label, hlabel, rfl⟩⟩

/-- The payloads of admissions come from accepted records. -/
lemma verified_of_currentAdmission (h : VerifiedEvaluation env record evaluation) {m : String}
    {payload : MembershipRecordPayload} (hp : currentAdmission record evaluation m = some payload) :
    ∃ r, VerifiedRecord env r ∧ r.payload = payload := by
  obtain ⟨index, hindex, rfl⟩ := Option.map_eq_some_iff.mp hp
  exact ⟨_, h.verified index (h.admissions.current m index hindex), rfl⟩

lemma verified_of_originalAdmission (h : VerifiedEvaluation env record evaluation) {m : String}
    {payload : MembershipRecordPayload} (hp : originalAdmission record evaluation m = some payload) :
    ∃ r, VerifiedRecord env r ∧ r.payload = payload := by
  obtain ⟨index, hindex, rfl⟩ := Option.map_eq_some_iff.mp hp
  exact ⟨_, h.verified index (h.admissions.first m index hindex), rfl⟩

lemma effectiveMemberOf_ok (h : VerifiedEvaluation env record evaluation) {m : String}
    {state : LedgerMemberState ι} (hstate : evaluation.states.get? m = some state) :
    ∃ member, effectiveMemberOf env record evaluation state = .ok member := by
  have hverified := h.verified _ (h.states m state hstate).accepted
  obtain ⟨peer, hpeer⟩ := hverified.member_parses
  obtain ⟨current, hcurrent, hcurrentEq⟩ : ∃ r, VerifiedRecord env r ∧ r.payload
      = (currentAdmission record evaluation (record state.recordIndex).payload.memberPeer).getD
          (record state.recordIndex).payload := by
    cases hc : currentAdmission record evaluation (record state.recordIndex).payload.memberPeer with
    | none => exact ⟨_, hverified, rfl⟩
    | some payload => exact verified_of_currentAdmission h hc
  obtain ⟨original, horiginal, horiginalEq⟩ : ∃ r, VerifiedRecord env r ∧ r.payload
      = (originalAdmission record evaluation (record state.recordIndex).payload.memberPeer).getD
          (record state.recordIndex).payload := by
    cases hc : originalAdmission record evaluation (record state.recordIndex).payload.memberPeer with
    | none => exact ⟨_, hverified, rfl⟩
    | some payload => exact verified_of_originalAdmission h hc
  obtain ⟨inviter, hinviter⟩ := inviterPeer_ok hcurrent
  obtain ⟨first, hfirst⟩ := inviterPeer_ok horiginal
  obtain ⟨hostname, hhostname⟩ := payloadHostname_ok hverified
  simp only [effectiveMemberOf, EffectiveMember.tryFromPayload, bind_eq_ok, ← hcurrentEq,
    ← horiginalEq]
  exact ⟨_, peer, parsePeer_eq_ok.mpr hpeer, inviter, hinviter, first, hfirst, hostname, hhostname,
    rfl⟩

/-- A member is filed under the overlay address of its state's record. -/
lemma effectiveMemberOf_peer {state : LedgerMemberState ι} {member : EffectiveMember T}
    (h : effectiveMemberOf env record evaluation state = .ok member) :
    overlayPeer env (record state.recordIndex).payload.memberPeer = some member.peer := by
  simp only [effectiveMemberOf, EffectiveMember.tryFromPayload, bind_eq_ok] at h
  obtain ⟨peer, hpeer, _, -, _, -, _, -, hmember⟩ := h
  cases hmember
  rw [overlayPeer, parsePeer_eq_ok.mp hpeer]
  rfl

lemma ofAdmission_ok {α : Type}
    {f : MembershipRecordPayload → Except MembershipRecordError (Option α)}
    {admission : Option MembershipRecordPayload}
    (h : ∀ payload, admission = some payload → ∃ value, f payload = .ok value) :
    ∃ value, ofAdmission f admission = .ok value := by
  cases admission with
  | none => exact ⟨none, rfl⟩
  | some payload => exact h payload rfl

lemma auditMember_ok (h : VerifiedEvaluation env record evaluation) (now : ℕ) {m : String}
    {state : LedgerMemberState ι} (hstate : evaluation.states.get? m = some state) :
    ∃ member, auditMember env record evaluation now (m, state) = .ok member := by
  have hverified := h.verified _ (h.states m state hstate).accepted
  obtain ⟨peer, hpeer⟩ := hverified.member_parses
  obtain ⟨inviter, hinviter⟩ : ∃ v, ofAdmission (inviterPeer env)
      (currentAdmission record evaluation m) = .ok v := by
    refine ofAdmission_ok fun payload hp => ?_
    obtain ⟨r, hr, rfl⟩ := verified_of_currentAdmission h hp
    exact inviterPeer_ok hr
  obtain ⟨first, hfirst⟩ : ∃ v, ofAdmission (inviterPeer env)
      (originalAdmission record evaluation m) = .ok v := by
    refine ofAdmission_ok fun payload hp => ?_
    obtain ⟨r, hr, rfl⟩ := verified_of_originalAdmission h hp
    exact inviterPeer_ok hr
  obtain ⟨hostname, hhostname⟩ : ∃ v, ofAdmission payloadHostname
      (currentAdmission record evaluation m) = .ok v := by
    refine ofAdmission_ok fun payload hp => ?_
    obtain ⟨r, hr, rfl⟩ := verified_of_currentAdmission h hp
    exact payloadHostname_ok hr
  simp only [auditMember, MembershipAuditMember.tryFromPayloads, bind_eq_ok]
  exact ⟨_, peer, parsePeer_eq_ok.mpr hpeer, inviter, hinviter, first, hfirst, hostname, hhostname,
    rfl⟩

lemma auditMember_transportPeer {now : ℕ} {entry : String × LedgerMemberState ι}
    {member : MembershipAuditMember T} (h : auditMember env record evaluation now entry = .ok member) :
    env.parsePeerId (record entry.2.recordIndex).payload.memberPeer = some member.transportPeer := by
  simp only [auditMember, MembershipAuditMember.tryFromPayloads, bind_eq_ok] at h
  obtain ⟨peer, hpeer, _, -, _, -, _, -, hmember⟩ := h
  cases hmember
  exact parsePeer_eq_ok.mp hpeer

/-! ## The effective membership -/

/-- The membership that the states of `entries` contribute to. -/
structure Projects (env : Platform T K) (record : ι → SignedMembershipRecord)
    (evaluation : MembershipLedgerEvaluation ι) (entries : List (String × LedgerMemberState ι))
    (membership : EffectiveMembership T) : Prop where
  governed : ∀ p, p ∈ membership.governedPeers ↔ ∃ entry ∈ entries,
    overlayPeer env (record entry.2.recordIndex).payload.memberPeer = some p
  members : ∀ p member, membership.members.get? p = some member ↔ ∃ entry ∈ entries,
    entry.2.active = true ∧ effectiveMemberOf env record evaluation entry.2 = .ok member ∧
      member.peer = p
  unsealed : membership.checkpointAuthoritative = false

/-- The contributions of the states determine the membership. -/
lemma Projects.unique {entries entries' : List (String × LedgerMemberState ι)}
    {membership membership' : EffectiveMembership T}
    (h : Projects env record evaluation entries membership)
    (h' : Projects env record evaluation entries' membership')
    (hmem : ∀ entry, entry ∈ entries ↔ entry ∈ entries') : membership = membership' := by
  have hmembers : membership.members = membership'.members := by
    refine HashMap.ext_get? fun p => Option.ext fun member => ?_
    rw [h.members, h'.members]
    simp only [hmem]
  have hgoverned : membership.governedPeers = membership'.governedPeers := by
    ext p
    rw [h.governed, h'.governed]
    simp only [hmem]
  cases membership
  cases membership'
  simp only [EffectiveMembership.mk.injEq]
  exact ⟨hmembers, hgoverned, h.unsealed.trans h'.unsealed.symm⟩

/-- The loop body adds the contribution of one state. -/
lemma Projects.snoc {entries : List (String × LedgerMemberState ι)}
    {membership : EffectiveMembership T} (h : Projects env record evaluation entries membership)
    (entry : String × LedgerMemberState ι)
    (hmember : ∃ peer, env.parsePeerId (record entry.2.recordIndex).payload.memberPeer = some peer)
    (hok : ∃ member, effectiveMemberOf env record evaluation entry.2 = .ok member)
    (hfresh : ∀ other ∈ entries,
      overlayPeer env (record other.2.recordIndex).payload.memberPeer
        ≠ overlayPeer env (record entry.2.recordIndex).payload.memberPeer) :
    ∃ membership', projectState env record evaluation membership entry = .ok membership' ∧
      Projects env record evaluation (entries ++ [entry]) membership' := by
  obtain ⟨peer, hpeer⟩ := hmember
  have hoverlay : overlayPeer env (record entry.2.recordIndex).payload.memberPeer
      = some (fromLibp2p env peer) := by rw [overlayPeer, hpeer]; rfl
  have hgoverned : ∀ p, p ∈ insert (fromLibp2p env peer) membership.governedPeers ↔
      ∃ x ∈ entries ++ [entry],
        overlayPeer env (record x.2.recordIndex).payload.memberPeer = some p := by
    intro p
    rw [Finset.mem_insert, h.governed]
    constructor
    · rintro (rfl | ⟨x, hx, hp⟩)
      · exact ⟨entry, by simp, hoverlay⟩
      · exact ⟨x, List.mem_append_left _ hx, hp⟩
    · rintro ⟨x, hx, hp⟩
      rcases List.mem_append.mp hx with hx | hx
      · exact Or.inr ⟨x, hx, hp⟩
      · rw [List.mem_singleton.mp hx, hoverlay] at hp
        exact Or.inl (Option.some.inj hp).symm
  simp only [projectState, parsePeer, hpeer, bind, Except.bind]
  cases hactive : entry.2.active with
  | false =>
    refine ⟨_, rfl, hgoverned, ?_, h.unsealed⟩
    intro p member
    rw [h.members]
    constructor
    · rintro ⟨x, hx, hrest⟩
      exact ⟨x, List.mem_append_left _ hx, hrest⟩
    · rintro ⟨x, hx, hxactive, hrest⟩
      rcases List.mem_append.mp hx with hx | hx
      · exact ⟨x, hx, hxactive, hrest⟩
      · rw [List.mem_singleton.mp hx, hactive] at hxactive
        cases hxactive
  | true =>
    obtain ⟨new, hnew⟩ := hok
    have hnewPeer := effectiveMemberOf_peer hnew
    rw [hnew]
    refine ⟨_, rfl, hgoverned, ?_, h.unsealed⟩
    intro p member
    rw [HashMap.get?_insert]
    constructor
    · intro hget
      split at hget
      · rename_i hp
        obtain rfl := Option.some.inj hget
        exact ⟨entry, by simp, hactive, hnew, hp.symm⟩
      · obtain ⟨x, hx, hrest⟩ := (h.members p member).mp hget
        exact ⟨x, List.mem_append_left _ hx, hrest⟩
    · rintro ⟨x, hx, hxactive, hxok, hxpeer⟩
      rcases List.mem_append.mp hx with hx | hx
      · -- Another state cannot be filed under the new address.
        rw [if_neg]
        · exact (h.members p member).mpr ⟨x, hx, hxactive, hxok, hxpeer⟩
        · rintro rfl
          exact hfresh x hx (by rw [effectiveMemberOf_peer hxok, hnewPeer, hxpeer])
      · obtain rfl := List.mem_singleton.mp hx
        obtain rfl : new = member := Except.ok.inj (hnew.symm.trans hxok)
        rw [if_pos hxpeer.symm]

/-- Different members of an evaluation are filed under different addresses. -/
def DistinctStates (env : Platform T K) (evaluation : MembershipLedgerEvaluation ι) : Prop :=
  ∀ m m' state state', evaluation.states.get? m = some state →
    evaluation.states.get? m' = some state' → overlayPeer env m = overlayPeer env m' → m = m'

/-- **The effective membership** of a verified evaluation consists of the contributions of its
states, whatever the order of the iteration. -/
theorem effectiveMembership_projects (h : VerifiedEvaluation env record evaluation)
    (hdistinct : DistinctStates env evaluation) (order : KeyOrder String) :
    ∃ membership, effectiveMembershipFromEvaluation env record evaluation order = .ok membership ∧
      Projects env record evaluation (order.entries evaluation.states) membership := by
  unfold effectiveMembershipFromEvaluation
  -- Induction over the entries still to visit, with the visited ones as a parameter.
  suffices hloop : ∀ rest visited (membership : EffectiveMembership T),
      order.entries evaluation.states = visited ++ rest →
      Projects env record evaluation visited membership →
      ∃ membership', rest.foldlM (projectState env record evaluation) membership = .ok membership' ∧
        Projects env record evaluation (visited ++ rest) membership' by
    refine hloop _ [] _ rfl ⟨by simp, by simp, rfl⟩
  intro rest
  induction rest with
  | nil =>
    intro visited membership _ hproj
    exact ⟨membership, rfl, by rwa [List.append_nil]⟩
  | cons entry rest ih =>
    intro visited membership hsplit hproj
    obtain ⟨m, state⟩ := entry
    have hstate : evaluation.states.get? m = some state :=
      order.mem_entries.mp (by rw [hsplit]; simp)
    have hsound := h.states m state hstate
    obtain ⟨membership', hstep, hproj'⟩ := hproj.snoc (m, state)
      (h.verified _ hsound.accepted).member_parses (effectiveMemberOf_ok h hstate) (by
        rintro ⟨m', state'⟩ hother heq
        have hstate' : evaluation.states.get? m' = some state' :=
          order.mem_entries.mp (by rw [hsplit]; exact List.mem_append_left _ hother)
        have hpair := order.entries_pairwise evaluation.states
        rw [hsplit, List.pairwise_append] at hpair
        refine hpair.2.2 _ hother _ List.mem_cons_self ?_
        simp only at heq ⊢
        rw [(h.states m' state' hstate').member, hsound.member] at heq
        exact hdistinct m' m state' state hstate' hstate heq)
    obtain ⟨final, hfinal, hprojFinal⟩ :=
      ih (visited ++ [(m, state)]) membership' (by simp [hsplit]) hproj'
    refine ⟨final, ?_, by simpa using hprojFinal⟩
    rw [List.foldlM_cons]
    exact bind_eq_ok.mpr ⟨membership', hstep, hfinal⟩

/-- The order of the iteration does not matter. -/
lemma effectiveMembership_order (h : VerifiedEvaluation env record evaluation)
    (hdistinct : DistinctStates env evaluation) (order order' : KeyOrder String) :
    effectiveMembershipFromEvaluation env record evaluation order
      = effectiveMembershipFromEvaluation env record evaluation order' := by
  obtain ⟨membership, heq, hproj⟩ := effectiveMembership_projects h hdistinct order
  obtain ⟨membership', heq', hproj'⟩ := effectiveMembership_projects h hdistinct order'
  rw [heq, heq', hproj.unique hproj' fun entry => (KeyOrder.entries_perm order' _).mem_iff]

/-! ## The audit -/

lemma pairwise_audit [LinearOrder T] (members : List (MembershipAuditMember T)) :
    (members.insertionSort fun a b => a.transportPeer ≤ b.transportPeer).Pairwise
      fun a b => a.transportPeer ≤ b.transportPeer := by
  have : IsTrans (MembershipAuditMember T) fun a b => a.transportPeer ≤ b.transportPeer :=
    ⟨fun _ _ _ h h' => le_trans h h'⟩
  have : Std.Total fun a b : MembershipAuditMember T => a.transportPeer ≤ b.transportPeer :=
    ⟨fun a b => le_total a.transportPeer b.transportPeer⟩
  exact List.pairwise_insertionSort _ _

/-- The order of the iteration does not matter for the audit either: its entries are sorted by
transport identifier, and no two of them have one. -/
lemma membershipAudit_order [LinearOrder T] (h : VerifiedEvaluation env record evaluation)
    (hdistinct : DistinctStates env evaluation) (order order' : KeyOrder String) (now : ℕ) :
    ∃ audit, membershipAuditFromEvaluation env record evaluation order now = .ok audit ∧
      membershipAuditFromEvaluation env record evaluation order' now = .ok audit := by
  obtain ⟨members, hmembers⟩ : ∃ members, (order.entries evaluation.states).mapM
      (auditMember env record evaluation now) = .ok members := by
    refine mapM_succeeds ?_
    rintro ⟨m, state⟩ hentry
    exact auditMember_ok h now (order.mem_entries.mp hentry)
  obtain ⟨members', hmembers', hperm⟩ := mapM_perm (KeyOrder.entries_perm order' _) hmembers
  have hinj : ∀ a ∈ members, ∀ b ∈ members, a.transportPeer = b.transportPeer → a = b := by
    intro a ha b hb heq
    obtain ⟨⟨m, state⟩, hentry, hauditA⟩ := exists_of_mem_mapM hmembers ha
    obtain ⟨⟨m', state'⟩, hentry', hauditB⟩ := exists_of_mem_mapM hmembers hb
    rw [order.mem_entries] at hentry hentry'
    have hparse := auditMember_transportPeer hauditA
    have hparse' := auditMember_transportPeer hauditB
    simp only [(h.states m state hentry).member] at hparse
    simp only [(h.states m' state' hentry').member] at hparse'
    obtain rfl : m = m' := hdistinct m m' state state' hentry hentry' (by
      rw [overlayPeer, overlayPeer, hparse, hparse', heq])
    obtain rfl : state = state' := Option.some.inj (hentry.symm.trans hentry')
    exact Except.ok.inj (hauditA.symm.trans hauditB)
  have hsorted : members.insertionSort (fun a b => a.transportPeer ≤ b.transportPeer)
      = members'.insertionSort fun a b => a.transportPeer ≤ b.transportPeer := by
    refine List.Perm.eq_of_pairwise ?_ (pairwise_audit _) (pairwise_audit _)
      ((List.perm_insertionSort _ _).trans (hperm.trans (List.perm_insertionSort _ _).symm))
    intro a b ha hb hab hba
    rw [List.mem_insertionSort] at ha hb
    exact hinj a ha b (hperm.mem_iff.mpr hb) (le_antisymm hab hba)
  refine ⟨_, bind_eq_ok.mpr ⟨members, hmembers, rfl⟩, bind_eq_ok.mpr ⟨members', hmembers', ?_⟩⟩
  rw [hsorted]
  rfl

/-! ## Renamed evaluations have the same views -/

section Renaming

variable {κ : Type} {f : ι → κ} {record' : κ → SignedMembershipRecord}
  {evaluation' : MembershipLedgerEvaluation κ}

lemma currentAdmission_rename (hf : ∀ i, record' (f i) = record i)
    (h : Renames f evaluation evaluation') (m : String) :
    currentAdmission record' evaluation' m = currentAdmission record evaluation m := by
  unfold currentAdmission
  rw [h.currentAdmissions, HashMap.get?_mapValues, Option.map_map]
  simp only [Function.comp_def, hf]

lemma originalAdmission_rename (hf : ∀ i, record' (f i) = record i)
    (h : Renames f evaluation evaluation') (m : String) :
    originalAdmission record' evaluation' m = originalAdmission record evaluation m := by
  unfold originalAdmission
  rw [h.firstAdmissions, HashMap.get?_mapValues, Option.map_map]
  simp only [Function.comp_def, hf]

lemma effectiveMembership_rename (hf : ∀ i, record' (f i) = record i)
    (h : Renames f evaluation evaluation') (order : KeyOrder String) :
    effectiveMembershipFromEvaluation env record' evaluation' order
      = effectiveMembershipFromEvaluation env record evaluation order := by
  unfold effectiveMembershipFromEvaluation
  rw [h.states, KeyOrder.entries_mapValues, List.foldlM_map]
  congr 1
  funext membership entry
  simp only [projectState, effectiveMemberOf, LedgerMemberState.rename, hf,
    currentAdmission_rename hf h, originalAdmission_rename hf h]

lemma membershipAudit_rename [LinearOrder T] (hf : ∀ i, record' (f i) = record i)
    (h : Renames f evaluation evaluation') (order : KeyOrder String) (now : ℕ) :
    membershipAuditFromEvaluation env record' evaluation' order now
      = membershipAuditFromEvaluation env record evaluation order now := by
  have haudit : ∀ entry : String × LedgerMemberState ι,
      auditMember env record' evaluation' now (entry.1, entry.2.rename f)
        = auditMember env record evaluation now entry := by
    intro entry
    simp only [auditMember, LedgerMemberState.rename, hf, currentAdmission_rename hf h,
      originalAdmission_rename hf h]
  unfold membershipAuditFromEvaluation
  rw [h.states, KeyOrder.entries_mapValues, List.mapM_map]
  simp only [Function.comp_def, haudit]

end Renaming

end P2pVpn.Membership
