/-
# How the replay depends on the trusted roots

The set of trusted roots is consulted in two places: for an issuer without any history, and for
a self-issued grant.  Two root sets therefore lead to the same replay as long as they agree on
every issuer (`clockReplay_congr_roots`); and within the grants of a second they need not agree on an
issuer with history (`admitGrants_congr_roots`).
-/
import P2pVpn.Membership.Clock

namespace P2pVpn.Membership

open Lib

variable {ι : Type} {record : ι → SignedMembershipRecord}
  {roots roots' : Finset String}

/-! ## What an event changes -/

variable {states : LedgerStates ι}

/-- An event changes the state of its own member only, and looks at no other. -/
lemma get?_applyMembershipEvent_congr {states' : LedgerStates ι} {m : String}
    (h : states'.get? m = states.get? m) (i : ι) :
    (applyMembershipEvent record states' i).get? m
      = (applyMembershipEvent record states i).get? m := by
  rw [get?_applyMembershipEvent, get?_applyMembershipEvent, h]
  by_cases hm : m = (record i).payload.memberPeer
  · subst hm
    simp only [replacesState, h]
  · rw [if_neg fun hc => hm hc.1, if_neg fun hc => hm hc.1]

lemma get?_applyMembershipEvent_of_ne (states : LedgerStates ι) {i : ι} {m : String}
    (h : m ≠ (record i).payload.memberPeer) :
    (applyMembershipEvent record states i).get? m = states.get? m := by
  rw [get?_applyMembershipEvent, if_neg fun hc => h hc.1]

/-! ## History is never forgotten -/

lemma isSome_applyMembershipEvent {m : String} (h : (states.get? m).isSome) (i : ι) :
    ((applyMembershipEvent record states i).get? m).isSome := by
  rw [get?_applyMembershipEvent]
  split
  · rfl
  · exact h

lemma isSome_foldl_applyMembershipEvent {m : String} (h : (states.get? m).isSome) (l : List ι) :
    ((l.foldl (applyMembershipEvent record) states).get? m).isSome := by
  induction l generalizing states with
  | nil => exact h
  | cons i l ih => exact ih (isSome_applyMembershipEvent h i)

lemma foldl_acceptRecord [DecidableEq ι] (l : List ι) (e : MembershipLedgerEvaluation ι) :
    (l.foldl (acceptRecord record) e).states = l.foldl (applyMembershipEvent record) e.states ∧
      (l.foldl (acceptRecord record) e).accepted = e.accepted ++ l := by
  induction l generalizing e with
  | nil => exact ⟨rfl, (List.append_nil _).symm⟩
  | cons i l ih =>
    rw [List.foldl_cons, List.foldl_cons, (ih _).1, (ih _).2]
    simp

/-! ## Where the roots are consulted -/

/-- The two root sets agree on the issuer of a record, or neither is consulted for it: the issuer
has history, and the record is not a self-issued grant. -/
def RootBlind (record : ι → SignedMembershipRecord) (roots roots' : Finset String)
    (states : LedgerStates ι) (i : ι) : Prop :=
  ((record i).payload.issuerPeer ∈ roots ↔ (record i).payload.issuerPeer ∈ roots') ∨
    ((record i).payload.revoked = true ∨ (record i).selfIssued = false) ∧
      (states.get? (record i).payload.issuerPeer).isSome

lemma RootBlind.issuerIsActive_eq {i : ι} (h : RootBlind record roots roots' states i) :
    issuerIsActive roots (record i).payload states
      = issuerIsActive roots' (record i).payload states := by
  unfold issuerIsActive
  rcases h with h | ⟨-, h⟩
  · simp only [h]
  · obtain ⟨state, hstate⟩ := Option.isSome_iff_exists.mp h
    simp only [hstate]

lemma RootBlind.issuerIsActiveOrGenesis_eq {i : ι} (h : RootBlind record roots roots' states i)
    (hgrant : ¬ (record i).payload.revoked) :
    issuerIsActiveOrGenesis roots (record i).payload states
      = issuerIsActiveOrGenesis roots' (record i).payload states := by
  unfold issuerIsActiveOrGenesis
  rw [h.issuerIsActive_eq]
  rcases h with h | ⟨hkind, -⟩
  · simp only [h]
  · have hself : (record i).payload.issuerPeer ≠ (record i).payload.memberPeer := by
      simpa [SignedMembershipRecord.selfIssued] using hkind.resolve_left hgrant
    rw [if_neg hself, if_neg hself]

variable [DecidableEq ι]

lemma admitGrants_congr_roots {e : MembershipLedgerEvaluation ι} {group : List ι}
    (h : ∀ i ∈ grantsOf record group, RootBlind record roots roots' e.states i) :
    admitGrants record roots e group = admitGrants record roots' e group := by
  -- The two sweeps stay in the same state, and in it every issuer keeps its history.
  have hsim : Simulation (grantEnabled record roots) (acceptGrant record)
      (grantEnabled record roots') (acceptGrant record)
      (fun s s' => s = s' ∧ ∀ i ∈ grantsOf record group, RootBlind record roots roots' s.states i)
      id (grantsOf record group) := by
    refine ⟨?_, ?_⟩
    · rintro s _ ⟨rfl, hs⟩ i hi
      exact (hs i hi).issuerIsActiveOrGenesis_eq (mem_grantsOf.mp hi).2
    · rintro s _ ⟨rfl, hs⟩ i - -
      exact ⟨rfl, fun j hj => (hs j hj).imp_right
        fun hj => ⟨hj.1, isSome_applyMembershipEvent hj.2 i⟩⟩
  have hsettle := hsim.settle (grantsOf record group).length ⟨rfl, h⟩
  rw [List.map_id] at hsettle
  exact hsettle.1

lemma evaluateSecond_congr_roots {group : List ι}
    (h : ∀ i ∈ group, (record i).payload.issuerPeer ∈ roots ↔ (record i).payload.issuerPeer ∈ roots')
    (e : MembershipLedgerEvaluation ι) (t : ℕ) :
    evaluateSecond record roots e t group = evaluateSecond record roots' e t group := by
  unfold evaluateSecond
  rw [admitGrants_congr_roots fun i hi => Or.inl (h i (mem_grantsOf.mp hi).1)]
  unfold revokeMembers
  congr 1
  exact List.filter_congr fun i hi =>
    RootBlind.issuerIsActive_eq (Or.inl (h i (List.mem_of_mem_filter hi)))

/-- **Root sets that agree on every issuer** give the same replay. -/
theorem clockReplay_congr_roots {group : ℕ → List ι} {now : ℕ}
    (h : ∀ t ≤ now, ∀ i ∈ group t,
      (record i).payload.issuerPeer ∈ roots ↔ (record i).payload.issuerPeer ∈ roots') :
    clockReplay record roots group now = clockReplay record roots' group now := by
  induction now with
  | zero => exact evaluateSecond_congr_roots (h 0 le_rfl) _ 0
  | succ t ih =>
    rw [clockReplay, clockReplay, ← ih fun t' ht' => h t' (Nat.le_succ_of_le ht')]
    exact evaluateSecond_congr_roots (h (t + 1) le_rfl) _ (t + 1)

end P2pVpn.Membership
