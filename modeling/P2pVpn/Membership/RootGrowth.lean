/-
# More roots

Let the trusted roots grow, by peers whose records were all accepted before.  Within one second the
order in which grants are admitted may then change: a new root need not wait for its own admission.
Where every grant of the second makes its member active, the order does not matter, since the grants
admitted are in the end the same (`settleLog_subset`) and applying them commutes
(`applyMembershipEvent_comm`).  Second by second the replay accepts the same records
(`clockReplay_grow`).
-/
import P2pVpn.Membership.ClockSteps
import P2pVpn.Membership.Roots

namespace P2pVpn.Membership

open Lib

section States

variable {ι : Type} {record : ι → SignedMembershipRecord}

/-- Grants that can be admitted in any order: each makes its member active, and no two are one version
of one relationship. -/
structure AnyOrder (record : ι → SignedMembershipRecord) (grants : List ι) : Prop where
  grant : ∀ i ∈ grants, (record i).payload.revoked = false
  admits : ∀ i ∈ grants, (record i).payload.roles.contains .overlayMember = true
  distinct : ∀ i ∈ grants, ∀ j ∈ grants, i ≠ j → ¬ sameVersion (record i) (record j)

lemma AnyOrder.stateOf_active {grants : List ι} (h : AnyOrder record grants) {i : ι} (hi : i ∈ grants) :
    (stateOf record i).active = true := by
  simp only [stateOf, h.grant i hi, h.admits i hi, Bool.not_false, Bool.and_self]

/-! ## Applying grants in any order -/

/-- What decides between two grants for an active member. -/
def grantKey (r : SignedMembershipRecord) : (ℕ ×ₗ ℕ) ×ₗ String ×ₗ String :=
  toLex (r.payload.recordVersion, toLex (r.payload.issuerPeer, r.signature))

lemma wins_active_iff {candidate current : SignedMembershipRecord}
    (hgrant : candidate.payload.revoked = false) :
    membershipEventWins candidate current true = true ↔
      current.payload.recordVersion < candidate.payload.recordVersion ∨
        current.payload.revoked = false ∧ grantKey current < grantKey candidate := by
  simp only [membershipEventWins, grantKey, Prod.Lex.toLex_lt_toLex, hgrant]
  cases current.payload.revoked with
  | false => simp [@eq_comm _ candidate.payload.recordVersion]
  | true => simp

/-- Of two grants of which one wins against a state, that one has the greater key. -/
lemma grantKey_lt_of_wins {r r' current : SignedMembershipRecord} {active : Bool}
    (hr : r.payload.revoked = false) (hr' : r'.payload.revoked = false)
    (hwins : membershipEventWins r current active = true)
    (hloses : ¬ membershipEventWins r' current active = true) : grantKey r' < grantKey r := by
  have hversion : r'.payload.recordVersion < r.payload.recordVersion → grantKey r' < grantKey r :=
    fun h => Prod.Lex.lt_iff.mpr (Or.inl h)
  cases active with
  | false =>
    simp only [membershipEventWins, hr, hr', Bool.not_false, Bool.and_self, if_true,
      decide_eq_true_eq, not_lt] at hwins hloses
    exact hversion (Prod.Lex.lt_iff.mpr (Or.inl (hloses.trans_lt hwins)))
  | true =>
    rw [wins_active_iff hr] at hwins
    rw [wins_active_iff hr', not_or, not_and, not_lt, not_lt] at hloses
    rcases hwins with hlt | ⟨hcurrent, hlt⟩
    · exact hversion (hloses.1.trans_lt hlt)
    · exact (hloses.2 hcurrent).trans_lt hlt

lemma replacesState_congr {states states' : LedgerStates ι} {i : ι}
    (h : states'.get? (record i).payload.memberPeer = states.get? (record i).payload.memberPeer) :
    replacesState record states' i = replacesState record states i := by
  simp only [replacesState, h]

/-- Events about others leave the state of a member alone. -/
lemma get?_foldl_of_not_member {l : List ι} {m : String}
    (h : ∀ i ∈ l, (record i).payload.memberPeer ≠ m) (states : LedgerStates ι) :
    (l.foldl (applyMembershipEvent record) states).get? m = states.get? m := by
  induction l generalizing states with
  | nil => rfl
  | cons i l ih =>
    obtain ⟨hi, hl⟩ := List.forall_mem_cons.mp h
    rw [List.foldl_cons, ih hl, get?_applyMembershipEvent_of_ne states (Ne.symm hi)]

variable {grants : List ι} {states : LedgerStates ι} {i j : ι}

section

variable (h : AnyOrder record grants)
include h

/-- After one grant, another one for the same member replaces it if its key is greater. -/
lemma AnyOrder.replacesState_insert_iff (hi : i ∈ grants) (hj : j ∈ grants)
    {m : String} (hmember : (record j).payload.memberPeer = m) :
    replacesState record (states.insert m (stateOf record i)) j = true ↔
      grantKey (record i) < grantKey (record j) := by
  rw [replacesState, hmember, HashMap.get?_insert_self]
  simp only [h.stateOf_active hi]
  have hindex : (stateOf record i).recordIndex = i := rfl
  rw [hindex, wins_active_iff (h.grant j hj), h.grant i hi]
  refine ⟨fun hwins => hwins.elim (fun hlt => Prod.Lex.lt_iff.mpr (Or.inl hlt)) And.right,
    fun hlt => Or.inr ⟨rfl, hlt⟩⟩

lemma AnyOrder.grantKey_lt (hi : i ∈ grants) (hj : j ∈ grants)
    (hmember : (record i).payload.memberPeer = (record j).payload.memberPeer)
    (hwins : replacesState record states i = true) (hloses : ¬ replacesState record states j = true) :
    grantKey (record j) < grantKey (record i) := by
  simp only [replacesState, ← hmember] at hwins hloses
  split at hwins
  · rename_i hnone
    simp [hnone] at hloses
  · rename_i current hcurrent
    simp only [hcurrent] at hloses
    exact grantKey_lt_of_wins (h.grant i hi) (h.grant j hj) hwins hloses

/-- **Grants commute.** -/
lemma AnyOrder.applyMembershipEvent_comm (hi : i ∈ grants) (hj : j ∈ grants)
    (states : LedgerStates ι) :
    applyMembershipEvent record (applyMembershipEvent record states i) j
      = applyMembershipEvent record (applyMembershipEvent record states j) i := by
  by_cases hne : i = j
  · rw [hne]
  by_cases hmember : (record i).payload.memberPeer = (record j).payload.memberPeer
  · have hkeys : grantKey (record i) ≠ grantKey (record j) := by
      intro hkey
      obtain ⟨hversion, hrest⟩ := Prod.mk.inj (toLex_inj.mp hkey)
      refine h.distinct i hi j hj hne (sameVersion_iff.mpr ⟨?_, hversion⟩)
      exact Prod.ext (Prod.mk.inj (toLex_inj.mp hrest)).1 hmember
    by_cases hwi : replacesState record states i = true
    · by_cases hwj : replacesState record states j = true
      · -- Both replace the state they find: the one with the greater key stays.
        simp only [applyMembershipEvent, hwi, hwj, if_true, hmember, h.replacesState_insert_iff hi hj rfl,
          h.replacesState_insert_iff hj hi hmember, HashMap.insert_insert]
        rcases lt_or_gt_of_ne hkeys with hlt | hlt
        · rw [if_pos hlt, if_neg hlt.not_gt]
        · rw [if_neg hlt.not_gt, if_pos hlt]
      · have hlt := h.grantKey_lt hi hj hmember hwi hwj
        simp only [applyMembershipEvent, hwi, hwj, if_true, hmember, h.replacesState_insert_iff hi hj rfl,
          if_neg hlt.not_gt, Bool.false_eq_true, if_false]
    · by_cases hwj : replacesState record states j = true
      · have hlt := h.grantKey_lt hj hi hmember.symm hwj hwi
        simp only [applyMembershipEvent, hwi, hwj, if_true, h.replacesState_insert_iff hj hi hmember,
          if_neg hlt.not_gt, Bool.false_eq_true, if_false]
      · simp only [applyMembershipEvent, hwi, hwj, Bool.false_eq_true, if_false]
  · -- Each looks at its own member only.
    have hsecond : ∀ {i j : ι}, (record i).payload.memberPeer ≠ (record j).payload.memberPeer →
        applyMembershipEvent record (applyMembershipEvent record states i) j
          = if replacesState record states j then (applyMembershipEvent record states i).insert
              (record j).payload.memberPeer (stateOf record j)
            else applyMembershipEvent record states i := by
      intro i j hother
      rw [← replacesState_congr (get?_applyMembershipEvent_of_ne states (Ne.symm hother))]
      rfl
    rw [hsecond hmember, hsecond (Ne.symm hmember)]
    unfold applyMembershipEvent
    split_ifs
    · exact HashMap.insert_comm _ hmember _ _
    · rfl
    · rfl
    · rfl

end

/-! ## Who is active -/

/-- A member is active. -/
def IsActive (states : LedgerStates ι) (m : String) : Prop :=
  ∃ state, states.get? m = some state ∧ state.active = true

/-- After grants, a member is active that was, or for whom one of the grants replaced the state. -/
lemma AnyOrder.isActive_foldl_iff (h : AnyOrder record grants) {l : List ι} (hl : l ⊆ grants)
    (states : LedgerStates ι) (m : String) :
    IsActive (l.foldl (applyMembershipEvent record) states) m ↔ IsActive states m ∨
      ∃ i ∈ l, (record i).payload.memberPeer = m ∧ replacesState record states i = true := by
  induction l generalizing states with
  | nil => simp
  | cons i l ih =>
    obtain ⟨hi, hl⟩ := List.cons_subset.mp hl
    rw [List.foldl_cons, ih hl]
    by_cases hwins : (record i).payload.memberPeer = m ∧ replacesState record states i = true
    · have hactive : IsActive (applyMembershipEvent record states i) m := by
        refine ⟨stateOf record i, ?_, h.stateOf_active hi⟩
        rw [get?_applyMembershipEvent, if_pos ⟨hwins.1.symm, hwins.2⟩]
      exact iff_of_true (Or.inl hactive) (Or.inr ⟨i, List.mem_cons_self, hwins⟩)
    · have hget : (applyMembershipEvent record states i).get? m = states.get? m := by
        rw [get?_applyMembershipEvent, if_neg fun hc => hwins ⟨hc.1.symm, hc.2⟩]
      have hreplaces : ∀ j, (record j).payload.memberPeer = m →
          replacesState record (applyMembershipEvent record states i) j
            = replacesState record states j := by
        rintro j rfl
        exact replacesState_congr hget
      refine or_congr (by rw [IsActive, hget, IsActive]) ⟨?_, ?_⟩
      · rintro ⟨j, hj, hmember, hj'⟩
        exact ⟨j, List.mem_cons_of_mem i hj, hmember, (hreplaces j hmember).symm.trans hj'⟩
      · rintro ⟨j, hj, hmember, hj'⟩
        rcases List.mem_cons.mp hj with rfl | hj
        · exact absurd ⟨hmember, hj'⟩ hwins
        · exact ⟨j, hj, hmember, (hreplaces j hmember).trans hj'⟩

/-- Grants leave a member without history, or make it active. -/
lemma AnyOrder.foldl_of_none (h : AnyOrder record grants) {l : List ι} (hl : l ⊆ grants)
    {states : LedgerStates ι} {m : String} (hnone : states.get? m = none) :
    (l.foldl (applyMembershipEvent record) states).get? m = none ∨
      IsActive (l.foldl (applyMembershipEvent record) states) m := by
  by_cases hgranted : ∃ i ∈ l, (record i).payload.memberPeer = m
  · obtain ⟨i, hi, rfl⟩ := hgranted
    refine Or.inr ((h.isActive_foldl_iff hl states _).mpr (Or.inr ⟨i, hi, rfl, ?_⟩))
    simp only [replacesState, hnone]
  · left
    rw [← hnone]
    exact get?_foldl_of_not_member (fun i hi hmember => hgranted ⟨i, hi, hmember⟩) states

variable {roots roots' : Finset String}

lemma issuerIsActive_iff {payload : MembershipRecordPayload} :
    issuerIsActive roots payload states = true ↔ IsActive states payload.issuerPeer ∨
      states.get? payload.issuerPeer = none ∧ payload.issuerPeer ∈ roots := by
  unfold issuerIsActive IsActive
  cases hget : states.get? payload.issuerPeer <;> simp

lemma issuerIsActiveOrGenesis_iff {payload : MembershipRecordPayload} :
    issuerIsActiveOrGenesis roots payload states = true ↔
      (payload.issuerPeer = payload.memberPeer → payload.issuerPeer ∈ roots) ∧
        (IsActive states payload.issuerPeer ∨
          states.get? payload.issuerPeer = none ∧ payload.issuerPeer ∈ roots) := by
  unfold issuerIsActiveOrGenesis
  split_ifs with hself
  · unfold IsActive
    cases hget : states.get? payload.issuerPeer <;> simp [hself]
  · rw [issuerIsActive_iff]
    simp [hself]

/-- What some of the grants enable, all of them enable, and under more roots. -/
lemma AnyOrder.enabled_mono (h : AnyOrder record grants) {before l : List ι} (hl : l ⊆ grants)
    (hbefore : before ⊆ l) {payload : MembershipRecordPayload}
    (hroots : payload.issuerPeer ∈ roots → payload.issuerPeer ∈ roots')
    (henabled : issuerIsActiveOrGenesis roots payload
      (before.foldl (applyMembershipEvent record) states) = true) :
    issuerIsActiveOrGenesis roots' payload
      (l.foldl (applyMembershipEvent record) states) = true := by
  obtain ⟨hself, hissuer⟩ := issuerIsActiveOrGenesis_iff.mp henabled
  refine issuerIsActiveOrGenesis_iff.mpr ⟨fun heq => hroots (hself heq), ?_⟩
  rcases hissuer with hactive | ⟨hnone, hroot⟩
  · rw [h.isActive_foldl_iff (List.Subset.trans hbefore hl)] at hactive
    refine Or.inl ((h.isActive_foldl_iff hl states _).mpr (hactive.imp_right ?_))
    rintro ⟨i, hi, hmember⟩
    exact ⟨i, hbefore hi, hmember⟩
  · have hstart : states.get? payload.issuerPeer = none := by
      by_contra hsome
      have hkept : ((before.foldl (applyMembershipEvent record) states).get?
          payload.issuerPeer).isSome :=
        isSome_foldl_applyMembershipEvent (Option.isSome_iff_ne_none.mpr hsome) before
      rw [hnone] at hkept
      cases hkept
    exact (h.foldl_of_none hl hstart).symm.imp_right fun hend => ⟨hend, hroots hroot⟩

end States

/-! ## One second -/

section Replay

variable {ι : Type} [DecidableEq ι] {record : ι → SignedMembershipRecord}
  {roots roots' : Finset String} {e e' : MembershipLedgerEvaluation ι} {group : List ι}

/-- Two evaluations have the same states and have accepted the same records. -/
structure SameReplay (e e' : MembershipLedgerEvaluation ι) : Prop where
  states : e.states = e'.states
  accepted : ∀ i, i ∈ e.accepted ↔ i ∈ e'.accepted

/-- Accepting the same records, in an order that does not matter for the states. -/
lemma SameReplay.foldl (h : SameReplay e e') {l l' : List ι} (hmem : ∀ i, i ∈ l ↔ i ∈ l')
    (hstates : l.foldl (applyMembershipEvent record) e.states
      = l'.foldl (applyMembershipEvent record) e.states) :
    SameReplay (l.foldl (acceptRecord record) e) (l'.foldl (acceptRecord record) e') := by
  refine ⟨?_, fun i => ?_⟩
  · rw [(foldl_acceptRecord l e).1, (foldl_acceptRecord l' e').1, ← h.states, hstates]
  · rw [(foldl_acceptRecord l e).2, (foldl_acceptRecord l' e').2, List.mem_append, List.mem_append,
      h.accepted, hmem]

/-- The grants that the sweeps over a group admit. -/
def admitted (record : ι → SignedMembershipRecord) (roots : Finset String)
    (e : MembershipLedgerEvaluation ι) (group : List ι) : List ι :=
  settleLog (grantEnabled record roots) (acceptGrant record) (grantsOf record group).length e
    (grantsOf record group)

lemma admitGrants_eq (e : MembershipLedgerEvaluation ι) (group : List ι) :
    admitGrants record roots e group = (admitted record roots e group).foldl (acceptRecord record) e :=
  admitGrants_eq_foldl e group

lemma admitted_subset (e : MembershipLedgerEvaluation ι) (group : List ι) :
    admitted record roots e group ⊆ grantsOf record group := fun _ hi =>
  (settleLog_perm _ e _).subset (List.mem_append_left _ hi)

/-- The states that admitting grants leads to. -/
lemma foldl_acceptGrant_states {l : List ι} (hl : l ⊆ grantsOf record group)
    (e : MembershipLedgerEvaluation ι) :
    (l.foldl (acceptGrant record) e).states = l.foldl (applyMembershipEvent record) e.states := by
  rw [← foldl_eq_foldl fun i hi s => acceptRecord_of_not_revoked (mem_grantsOf.mp (hl hi)).2 s,
    (foldl_acceptRecord l e).1]

/-- What is admitted under some roots is admitted under others, if these have all roots of issuers that
the others have and do not admit anyway. -/
lemma AnyOrder.admitted_subset_admitted (h : SameReplay e e')
    (horder : AnyOrder record (grantsOf record group))
    (hroots : ∀ i ∈ grantsOf record group, (record i).payload.issuerPeer ∈ roots →
      (record i).payload.issuerPeer ∈ roots' ∨ i ∈ admitted record roots' e' group) :
    admitted record roots e group ⊆ admitted record roots' e' group := by
  refine settleLog_subset rfl (fun before hbefore i hi henabled => ?_) _
  have hsub := @admitted_subset ι _ record roots' e' group
  by_cases hmem : i ∈ admitted record roots' e' group
  · exact Or.inl hmem
  · right
    show grantEnabled record roots' ((admitted record roots' e' group).foldl _ e') i = true
    rw [grantEnabled, foldl_acceptGrant_states (List.Subset.trans hbefore hsub)] at henabled
    rw [grantEnabled, foldl_acceptGrant_states hsub, ← h.states]
    exact horder.enabled_mono hsub hbefore (fun hroot => (hroots i hi hroot).resolve_right hmem)
      henabled

/-- **Admission in another order.**  The grants of a group are admitted under more roots as they are
under fewer, if the new roots' grants are. -/
lemma AnyOrder.through_grants (horder : AnyOrder record (grantsOf record group)) (h : SameReplay e e')
    (hnodup : group.Nodup)
    (hkept : ∀ i ∈ grantsOf record group, (record i).payload.issuerPeer ∈ roots →
      (record i).payload.issuerPeer ∈ roots')
    (hnew : ∀ i ∈ grantsOf record group, (record i).payload.issuerPeer ∈ roots' →
      (record i).payload.issuerPeer ∉ roots → i ∈ admitted record roots e group) :
    SameReplay (admitGrants record roots e group) (admitGrants record roots' e' group) := by
  have hsub : admitted record roots e group ⊆ admitted record roots' e' group :=
    AnyOrder.admitted_subset_admitted h horder fun i hi hroot => Or.inl (hkept i hi hroot)
  have hsub' : admitted record roots' e' group ⊆ admitted record roots e group := by
    refine AnyOrder.admitted_subset_admitted ⟨h.states.symm, fun i => (h.accepted i).symm⟩ horder
      fun i hi hroot => ?_
    by_cases hold : (record i).payload.issuerPeer ∈ roots
    · exact Or.inl hold
    · exact Or.inr (hnew i hi hroot hold)
  have hadmitted : ∀ (roots : Finset String) (e : MembershipLedgerEvaluation ι),
      (admitted record roots e group).Nodup := fun roots e =>
    ((settleLog_perm _ e _).nodup_iff.mpr (hnodup.filter _)).of_append_left
  have hperm : (admitted record roots e group).Perm (admitted record roots' e' group) :=
    (List.perm_ext_iff_of_nodup (hadmitted _ _) (hadmitted _ _)).mpr fun i =>
      ⟨fun hi => hsub hi, fun hi => hsub' hi⟩
  rw [admitGrants_eq, admitGrants_eq]
  refine h.foldl (fun i => hperm.mem_iff) (hperm.foldl_eq' (fun i hi j hj states => ?_) _)
  exact horder.applyMembershipEvent_comm (admitted_subset e group hi) (admitted_subset e group hj) states

/-- Without new roots, everything goes as before. -/
lemma SameReplay.through_grants (h : SameReplay e e')
    (hblind : ∀ i ∈ grantsOf record group, RootBlind record roots roots' e.states i) :
    SameReplay (admitGrants record roots e group) (admitGrants record roots' e' group) := by
  rw [admitGrants_congr_roots hblind]
  have hsim : Simulation (grantEnabled record roots') (acceptGrant record)
      (grantEnabled record roots') (acceptGrant record) SameReplay id (grantsOf record group) := by
    refine ⟨fun s s' hs i _ => ?_, fun s s' hs i hi _ => ?_⟩
    · rw [grantEnabled, grantEnabled, hs.states]
      rfl
    · have hone : SameReplay ([i].foldl (acceptRecord record) s) ([i].foldl (acceptRecord record) s') :=
        hs.foldl (fun _ => Iff.rfl) rfl
      simp only [List.foldl_cons, List.foldl_nil] at hone
      rwa [acceptRecord_of_not_revoked (mem_grantsOf.mp hi).2,
        acceptRecord_of_not_revoked (mem_grantsOf.mp hi).2] at hone
  have hsettle := hsim.settle (grantsOf record group).length h
  rwa [List.map_id] at hsettle

/-- A peer becomes a root: it is one of the second set only. -/
def Promoted (roots roots' : Finset String) (peer : String) : Prop := peer ∈ roots' ∧ peer ∉ roots

/-- An issuer that becomes a root and had its grant admitted was known before, if no grant of the group
is about it. -/
lemma rootBlind_of_admitted {i : ι} (hi : i ∈ admitted record roots e group)
    (hroot : (record i).payload.issuerPeer ∉ roots)
    (hothers : ∀ a ∈ grantsOf record group,
      (record a).payload.memberPeer ≠ (record i).payload.issuerPeer) :
    RootBlind record roots roots' e.states i := by
  obtain ⟨before, after, hsplit⟩ := List.append_of_mem hi
  have hrun := @settleLog_enabled _ _ (grantEnabled record roots) (acceptGrant record)
    (grantsOf record group).length e (grantsOf record group)
  have hbefore : before ⊆ grantsOf record group := fun j hj =>
    admitted_subset e group (hsplit ▸ List.mem_append_left _ hj)
  rw [← admitted, hsplit] at hrun
  have henabled := hrun.enabled_of_append
  rw [grantEnabled, foldl_acceptGrant_states hbefore, issuerIsActiveOrGenesis_iff] at henabled
  obtain ⟨hself, hissuer⟩ := henabled
  obtain ⟨state, hstate, -⟩ := hissuer.resolve_right fun h => hroot h.2
  rw [get?_foldl_of_not_member fun a ha => hothers a (hbefore ha)] at hstate
  refine Or.inr ⟨Or.inr ?_, Option.isSome_iff_exists.mpr ⟨state, hstate⟩⟩
  rw [SignedMembershipRecord.selfIssued, decide_eq_false_iff_not]
  exact fun heq => hroot (hself heq)

/-- **One second under more roots.**  The roots keep those of the issuers, the records of peers that
become roots are accepted, and grants of such peers that are themselves granted in this second can be
admitted in any order. -/
lemma SameReplay.through_second (h : SameReplay e e') (t : ℕ) (hnodup : group.Nodup)
    (hkept : ∀ i ∈ group, (record i).payload.issuerPeer ∈ roots →
      (record i).payload.issuerPeer ∈ roots')
    (hnew : ∀ i ∈ group, Promoted roots roots' (record i).payload.issuerPeer →
      i ∈ acceptedInSecond record roots e t group)
    (horder : ∀ i ∈ grantsOf record group, Promoted roots roots' (record i).payload.issuerPeer →
      ∀ a ∈ grantsOf record group, (record a).payload.memberPeer = (record i).payload.issuerPeer →
        AnyOrder record (grantsOf record group)) :
    SameReplay (evaluateSecond record roots e t group) (evaluateSecond record roots' e' t group) := by
  have hexpired : SameReplay (expireGroup record e t) (expireGroup record e' t) :=
    ⟨by rw [expireGroup_states, expireGroup_states, h.states], h.accepted⟩
  -- On all other issuers the roots agree.
  have hiff : ∀ i ∈ group, ¬ Promoted roots roots' (record i).payload.issuerPeer →
      ((record i).payload.issuerPeer ∈ roots ↔ (record i).payload.issuerPeer ∈ roots') :=
    fun i hi hpromoted => ⟨hkept i hi, fun hroot => by_contra fun hnot => hpromoted ⟨hroot, hnot⟩⟩
  have hnewGrant : ∀ i ∈ grantsOf record group, Promoted roots roots' (record i).payload.issuerPeer →
      i ∈ admitted record roots (expireGroup record e t) group := fun i hi hpromoted =>
    (List.mem_append.mp (hnew i (mem_grantsOf.mp hi).1 hpromoted)).resolve_right fun hrevoked =>
      (mem_grantsOf.mp hi).2 (mem_authorizedRevocations.mp hrevoked).2.1
  have hadmit : SameReplay (admitGrants record roots (expireGroup record e t) group)
      (admitGrants record roots' (expireGroup record e' t) group) := by
    by_cases hrace : AnyOrder record (grantsOf record group)
    · exact hrace.through_grants hexpired hnodup (fun i hi => hkept i (mem_grantsOf.mp hi).1)
        fun i hi hroot hold => hnewGrant i hi ⟨hroot, hold⟩
    · refine hexpired.through_grants fun i hi => ?_
      by_cases hpromoted : Promoted roots roots' (record i).payload.issuerPeer
      · exact rootBlind_of_admitted (hnewGrant i hi hpromoted) hpromoted.2 fun a ha hmember =>
          hrace (horder i hi hpromoted a ha hmember)
      · exact Or.inl (hiff i (mem_grantsOf.mp hi).1 hpromoted)
  have hauthorized : authorizedRevocations record roots
        (admitGrants record roots (expireGroup record e t) group).states group
      = authorizedRevocations record roots'
        (admitGrants record roots' (expireGroup record e' t) group).states group := by
    rw [← hadmit.states]
    refine List.filter_congr fun i hi => Bool.eq_iff_iff.mpr ?_
    obtain ⟨hi, hrevoked⟩ := List.mem_filter.mp hi
    by_cases hpromoted : Promoted roots roots' (record i).payload.issuerPeer
    · have haccepted := (List.mem_append.mp (hnew i hi hpromoted)).resolve_left fun hgrant =>
        (mem_grantsOf.mp (admitted_subset _ group hgrant)).2 hrevoked
      have hactive := (mem_authorizedRevocations.mp haccepted).2.2
      refine iff_of_true hactive (issuerIsActive_iff.mpr (Or.inl ?_))
      exact (issuerIsActive_iff.mp hactive).resolve_right fun hroot => hpromoted.2 hroot.2
    · rw [issuerIsActive_iff, issuerIsActive_iff, hiff i hi hpromoted]
  rw [evaluateSecond_eq_foldl, evaluateSecond_eq_foldl, acceptedInSecond, acceptedInSecond,
    List.foldl_append, List.foldl_append, ← admitGrants_eq_foldl, ← admitGrants_eq_foldl, hauthorized]
  exact hadmit.foldl (fun _ => Iff.rfl) rfl

/-! ## The whole replay -/

/-- **The replay under more roots.**  Let the roots keep those of all issuers, let all records of the
peers that become roots be accepted, and let grants of such peers that are themselves granted in the
same second be admissible in any order.  Then the same records are accepted. -/
theorem clockReplay_grow {group : ℕ → List ι} (hgroups : ClockGroups record group) {now : ℕ}
    (hkept : ∀ t ≤ now, ∀ i ∈ group t, (record i).payload.issuerPeer ∈ roots →
      (record i).payload.issuerPeer ∈ roots')
    (hnew : ∀ t ≤ now, ∀ i ∈ group t, Promoted roots roots' (record i).payload.issuerPeer →
      i ∈ (clockReplay record roots group now).accepted)
    (horder : ∀ t ≤ now, ∀ i ∈ grantsOf record (group t),
      Promoted roots roots' (record i).payload.issuerPeer → ∀ a ∈ grantsOf record (group t),
        (record a).payload.memberPeer = (record i).payload.issuerPeer →
          AnyOrder record (grantsOf record (group t))) (i : ι) :
    i ∈ (clockReplay record roots group now).accepted ↔
      i ∈ (clockReplay record roots' group now).accepted := by
  have hrun : ∀ t ≤ now + 1, SameReplay (runSteps record (clockSteps record roots group t))
      (runSteps record (clockSteps record roots' group t)) := by
    intro t ht
    induction t with
    | zero => exact ⟨rfl, fun _ => Iff.rfl⟩
    | succ t ih =>
      rw [runSteps_clockSteps_succ, runSteps_clockSteps_succ]
      have hle : t ≤ now := Nat.le_of_succ_le_succ ht
      refine (ih (Nat.le_of_succ_le ht)).through_second t (hgroups.nodup t) (hkept t hle)
        (fun i hi hpromoted => ?_) (horder t hle)
      -- A record is accepted in its own second only.
      have haccepted := hnew t hle i hi hpromoted
      rw [clockReplay_eq_runSteps, runSteps_accepted] at haccepted
      obtain ⟨t', -, hi'⟩ := exists_second_of_accepted_clockSteps haccepted
      have htime := hgroups.issued t' i (mem_group_of_mem_acceptedInSecond hi')
      rw [hgroups.issued t i hi] at htime
      exact htime ▸ hi'
  rw [clockReplay_eq_runSteps, clockReplay_eq_runSteps]
  exact (hrun (now + 1) le_rfl).accepted i

end Replay

end P2pVpn.Membership
