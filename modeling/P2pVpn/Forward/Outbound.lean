/-
# Numbering outgoing packets

The forwarder gives every packet that it sends a session identifier and a sequence number, which
together are the nonce of its encryption.  When the sequence numbers of a session are used up, it goes
on with the next session, past zero.  So a forwarder counts through all pairs with a session other
than zero before it returns to the first one.
-/
import Mathlib.Algebra.Order.Ring.Nat
import Mathlib.Data.List.Nodup
import Mathlib.Data.Nat.ModEq

namespace P2pVpn.Forward

/-- The part of a forwarder that numbers outgoing packets. -/
structure OutboundSequence where
  sessionId : UInt32
  nextSequence : UInt64
deriving DecidableEq, Repr

namespace OutboundSequence

/-- `take_outbound_sequence`: the pair for a packet, and the state after it. -/
def takeOutboundSequence (state : OutboundSequence) : (UInt32 × UInt64) × OutboundSequence :=
  ((state.sessionId, state.nextSequence),
    if state.nextSequence = UInt64.ofNat (2 ^ 64 - 1) then
      { sessionId := max (state.sessionId + 1) 1, nextSequence := 0 }
    else { state with nextSequence := state.nextSequence + 1 })

/-- The pairs of the next packets. -/
def takes : ℕ → OutboundSequence → List (UInt32 × UInt64)
  | 0, _ => []
  | count + 1, state =>
      state.takeOutboundSequence.1 :: takes count state.takeOutboundSequence.2

/-- The number of pairs with a session other than zero. -/
def pairs : ℕ := (2 ^ 32 - 1) * 2 ^ 64

/-- The place of a pair among those with a session other than zero. -/
def place (pair : UInt32 × UInt64) : ℕ := (pair.1.toNat - 1) * 2 ^ 64 + pair.2.toNat

lemma place_lt {pair : UInt32 × UInt64} (h : pair.1 ≠ 0) : place pair < pairs := by
  have hsession := pair.1.toNat_lt
  have hsequence := pair.2.toNat_lt
  have hpos : pair.1.toNat ≠ 0 := fun hzero => h (UInt32.toNat.inj hzero)
  simp only [place, pairs]
  omega

lemma toNat_ne_zero {session : UInt32} (h : session ≠ 0) : session.toNat ≠ 0 :=
  fun hzero => h (UInt32.toNat.inj hzero)

/-- The identifier after a session that is used up. -/
lemma toNat_nextSession (session : UInt32) :
    (max (session + 1) 1).toNat = if session.toNat = 2 ^ 32 - 1 then 1 else session.toNat + 1 := by
  have hlt := session.toNat_lt
  have hmax : ∀ a : UInt32, (max a 1).toNat = max a.toNat 1 := by
    intro a
    rw [show max a 1 = if a ≤ 1 then 1 else a from rfl]
    split_ifs with hle
    · exact (max_eq_right (UInt32.le_iff_toNat_le.mp hle)).symm
    · exact (max_eq_left (by have := UInt32.le_iff_toNat_le.not.mp hle; simp at this; omega)).symm
  rw [hmax, UInt32.toNat_add, UInt32.toNat_one]
  split_ifs with hlast
  · rw [hlast]
    rfl
  · rw [Nat.mod_eq_of_lt (by omega), max_eq_left (by omega)]

/-- **Step.** The next pair has the next place, and after the last one comes the first. -/
lemma place_takeOutboundSequence {state : OutboundSequence} (h : state.sessionId ≠ 0) :
    state.takeOutboundSequence.2.sessionId ≠ 0 ∧
      place state.takeOutboundSequence.2.takeOutboundSequence.1 =
        (place state.takeOutboundSequence.1 + 1) % pairs := by
  have hsession := state.sessionId.toNat_lt
  have hsequence := state.nextSequence.toNat_lt
  have hpos := toNat_ne_zero h
  have hnext := toNat_nextSession state.sessionId
  simp only [takeOutboundSequence, place, pairs]
  split_ifs with hlast
  · have hlast : state.nextSequence.toNat = 2 ^ 64 - 1 := by rw [hlast]; rfl
    refine ⟨fun (hzero : max (state.sessionId + 1) 1 = 0) => ?_, ?_⟩
    · rw [hzero, UInt32.toNat_zero] at hnext
      split_ifs at hnext
    · rw [hnext, hlast, UInt64.toNat_zero]
      split_ifs with hwrap
      · rw [hwrap]
        decide
      · rw [Nat.mod_eq_of_lt (by omega)]
        omega
  · have hlast : state.nextSequence.toNat ≠ 2 ^ 64 - 1 := fun heq => hlast (UInt64.toNat.inj heq)
    refine ⟨h, ?_⟩
    dsimp only
    rw [UInt64.toNat_add, UInt64.toNat_one, Nat.mod_eq_of_lt (by omega), Nat.mod_eq_of_lt (by omega)]
    omega

/-- **Run.** The places of the pairs go up one by one. -/
lemma map_place_takes {state : OutboundSequence} (h : state.sessionId ≠ 0) (count : ℕ) :
    (∀ pair ∈ takes count state, pair.1 ≠ 0) ∧
      (takes count state).map place = (List.range count).map fun i =>
        (place state.takeOutboundSequence.1 + i) % pairs := by
  induction count generalizing state with
  | zero => simp [takes]
  | succ count ih =>
      obtain ⟨hnext, hplace⟩ := place_takeOutboundSequence h
      obtain ⟨hsessions, hplaces⟩ := ih hnext
      refine ⟨List.forall_mem_cons.mpr ⟨h, hsessions⟩, ?_⟩
      rw [takes, List.map_cons, hplaces, List.range_succ_eq_map, List.map_cons, List.map_map,
        Nat.add_zero, Nat.mod_eq_of_lt (place_lt h), hplace]
      congr 1
      refine List.map_congr_left fun i _ => ?_
      rw [Nat.mod_add_mod, Function.comp_apply, Nat.add_assoc, Nat.add_comm 1 i]

/-- **Nonces are not repeated.** From any session other than zero, no two of the first
`(2 ^ 32 - 1) * 2 ^ 64` packets get the same pair, and none gets the session zero. -/
theorem takes_nodup {sessionId : UInt32} (h : sessionId ≠ 0) {count : ℕ}
    (hcount : count ≤ (2 ^ 32 - 1) * 2 ^ 64) :
    (takes count ⟨sessionId, 0⟩).Nodup ∧ ∀ pair ∈ takes count ⟨sessionId, 0⟩, pair.1 ≠ 0 := by
  obtain ⟨hsessions, hplaces⟩ := @map_place_takes ⟨sessionId, 0⟩ h count
  refine ⟨List.Nodup.of_map place ?_, hsessions⟩
  rw [hplaces]
  refine List.nodup_range.map_on fun i hi j hj hij => ?_
  have hmod := Nat.ModEq.add_left_cancel' _ hij
  rw [List.mem_range] at hi hj
  rwa [Nat.ModEq, Nat.mod_eq_of_lt (by rw [pairs]; omega), Nat.mod_eq_of_lt (by rw [pairs]; omega)]
    at hmod

/-- The numbers of the last session run out, and the next packet is in the session `1`. -/
theorem takes_nodup_wrapped :
    (takes (2 ^ 64 + 1) ⟨UInt32.ofNat (2 ^ 32 - 1), 0⟩).Nodup ∧
      ∀ pair ∈ takes (2 ^ 64 + 1) ⟨UInt32.ofNat (2 ^ 32 - 1), 0⟩, pair.1 ≠ 0 :=
  takes_nodup (by decide) (by decide)

/-- After the last pair of all comes the first one. -/
example : takes 2 ⟨UInt32.ofNat (2 ^ 32 - 1), UInt64.ofNat (2 ^ 64 - 1)⟩ =
    [(UInt32.ofNat (2 ^ 32 - 1), UInt64.ofNat (2 ^ 64 - 1)), (1, 0)] := by
  decide

end OutboundSequence

end P2pVpn.Forward
