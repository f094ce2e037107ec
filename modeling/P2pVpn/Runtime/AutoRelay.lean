/-
# Automatic relay reservations

A node that cannot be reached asks relays that it has found for a reservation.  A relay is first a
candidate; then its reservation is pending, with a listener once there is one, and it is accepted when
the listener reports an address.  A reservation that fails, ends or takes too long is released, and
the relay may be asked again after a while.

The phase of a relay is spread over several collections.  Beside them there is a set of relays and
addresses that were attempted, which keeps a relay from being asked twice; a relay whose entry stayed
behind there would never be asked again.  `Phased` says that entries are there for relays that are
pending or accepted only, and that is why no relay gets stuck.
-/
import P2pVpn.Lib.FirstMatch
import P2pVpn.Lib.HashMap
import P2pVpn.Lib.Units

namespace P2pVpn.AutoRelay

open Lib

structure AutoRelayConfig where
  maxCandidates : ℕ
  maxReservations : ℕ
  retryIntervalSeconds : ℕ
  deriving DecidableEq, Repr

def AutoRelayConfig.retryInterval (policy : AutoRelayConfig) : ℕ :=
  max policy.retryIntervalSeconds 1 * nanosPerSecond

def reservationPendingTimeout : ℕ := 30 * nanosPerSecond

def candidateFailureEvictionThreshold : ℕ := 2

structure PendingReservation (Address : Type) where
  address : Address
  expiresAt : ℕ
  deriving DecidableEq

structure AutoRelayState (Peer Address Listener : Type) where
  policy : AutoRelayConfig
  candidates : List (Peer × Address)
  attemptedReservations : Finset (Peer × Address)
  pendingReservations : HashMap Peer (PendingReservation Address)
  acceptedReservationPeers : Finset Peer
  reservationListeners : HashMap Peer Listener
  retryAfter : HashMap Peer ℕ
  reservationFailures : HashMap Peer ℕ

structure ReleasedListener (Peer Address : Type) where
  relay : Peer
  pendingAddress : Option Address
  wasAccepted : Bool
  deriving DecidableEq

namespace AutoRelayState

variable {Peer Address Listener : Type}

def new (policy : AutoRelayConfig) : AutoRelayState Peer Address Listener :=
  ⟨policy, [], ∅, ∅, ∅, ∅, ∅, ∅⟩

variable (s : AutoRelayState Peer Address Listener)

def reservationSlots : ℕ := s.acceptedReservationPeers.card + s.pendingReservations.keys.card

variable [DecidableEq Peer] (peer : Peer)

/-- The attempts at all relays but one. -/
def attemptedWithout : Finset (Peer × Address) :=
  s.attemptedReservations.filter fun attempted => attempted.1 ≠ peer

/-- The part of `record_candidate` for a candidate that has another address by now. -/
def changeAddress (address : Address) : AutoRelayState Peer Address Listener :=
  let candidates := modifyFirst (fun candidate => candidate.1 = peer)
    (fun candidate => (candidate.1, address)) s.candidates
  if peer ∈ s.acceptedReservationPeers then { s with candidates }
  else
    { s with
      candidates
      attemptedReservations :=
        if (s.pendingReservations.get? peer).isSome then s.attemptedReservations
        else s.attemptedWithout peer
      retryAfter := s.retryAfter.remove peer }

def recordCandidate [DecidableEq Address] (address : Address) :
    Bool × AutoRelayState Peer Address Listener :=
  if s.policy.maxCandidates = 0 then (false, s)
  else
    match s.candidates.find? fun candidate => candidate.1 = peer with
    | some existing =>
        if existing.2 = address then (false, s) else (true, s.changeAddress peer address)
    | none =>
        if s.policy.maxCandidates ≤ s.candidates.length then (false, s)
        else (true, { s with candidates := s.candidates ++ [(peer, address)] })

/-- `reset_for_network_change`, with the listeners to be removed. -/
def resetForNetworkChange (order : KeyOrder Peer) :
    List Listener × AutoRelayState Peer Address Listener :=
  ((order.entries s.reservationListeners).map Prod.snd, new s.policy)

def removeCandidate : Bool × AutoRelayState Peer Address Listener :=
  let candidates := s.candidates.filter fun candidate => candidate.1 ≠ peer
  (candidates.length ≠ s.candidates.length,
    { s with
      candidates
      attemptedReservations := s.attemptedWithout peer
      pendingReservations := s.pendingReservations.remove peer
      acceptedReservationPeers := s.acceptedReservationPeers.erase peer
      reservationListeners := s.reservationListeners.remove peer
      retryAfter := s.retryAfter.remove peer
      reservationFailures := s.reservationFailures.remove peer })

def recordReservationFailure : Bool × AutoRelayState Peer Address Listener :=
  let failures := min ((s.reservationFailures.get? peer).getD 0 + 1) u8Max
  let s := { s with reservationFailures := s.reservationFailures.insert peer failures }
  if failures < candidateFailureEvictionThreshold then (false, s) else s.removeCandidate peer

/-- A candidate that the loop of `next_reservation_targets` passes over before it looks at the
attempts. -/
def skips (now : ℕ) (peer : Peer) : Bool :=
  peer ∈ s.acceptedReservationPeers || (s.pendingReservations.get? peer).isSome ||
    (s.retryAfter.get? peer).any fun retryAfter => now < retryAfter

/-- The state when a candidate becomes a target. -/
def attempt [DecidableEq Address] (now : ℕ) (peer : Peer) (address : Address) :
    AutoRelayState Peer Address Listener :=
  { s with
    attemptedReservations := insert (peer, address) s.attemptedReservations
    pendingReservations := s.pendingReservations.insert peer
      ⟨address, now + reservationPendingTimeout⟩ }

/-- The loop of `next_reservation_targets` over the candidates that are left. -/
def targetsFrom [DecidableEq Address] (now : ℕ) :
    AutoRelayState Peer Address Listener → List (Peer × Address) →
      List (Peer × Address) × AutoRelayState Peer Address Listener
  | s, [] => ([], s)
  | s, (peer, address) :: rest =>
      if s.skips now peer then targetsFrom now s rest
      else if (peer, address) ∈ s.attemptedReservations then targetsFrom now s rest
      else
        let s := s.attempt now peer address
        if s.policy.maxReservations ≤ s.reservationSlots then ([(peer, address)], s)
        else
          let (targets, s) := targetsFrom now s rest
          ((peer, address) :: targets, s)

def nextReservationTargets [DecidableEq Address] (now : ℕ) :
    List (Peer × Address) × AutoRelayState Peer Address Listener :=
  if s.policy.maxReservations = 0 ∨ s.policy.maxReservations ≤ s.reservationSlots then ([], s)
  else targetsFrom now s s.candidates

def recordReservationAccepted : AutoRelayState Peer Address Listener :=
  { s with
    pendingReservations := s.pendingReservations.remove peer
    acceptedReservationPeers := insert peer s.acceptedReservationPeers
    retryAfter := s.retryAfter.remove peer
    reservationFailures := s.reservationFailures.remove peer }

def recordReservationListener (listener : Listener) : Bool × AutoRelayState Peer Address Listener :=
  if (s.pendingReservations.get? peer).isNone ∨ (s.reservationListeners.get? peer).isSome then
    (false, s)
  else (true, { s with reservationListeners := s.reservationListeners.insert peer listener })

def ownsListener [DecidableEq Listener] (relay : Peer) (listener : Listener) : Bool :=
  s.reservationListeners.get? relay = some listener

def releaseReservationPeer : Bool × AutoRelayState Peer Address Listener :=
  ((s.pendingReservations.get? peer).isSome || peer ∈ s.acceptedReservationPeers ||
      (s.reservationListeners.get? peer).isSome,
    { s with
      pendingReservations := s.pendingReservations.remove peer
      acceptedReservationPeers := s.acceptedReservationPeers.erase peer
      reservationListeners := s.reservationListeners.remove peer })

def releaseReservationForRetry : Bool × AutoRelayState Peer Address Listener :=
  let (released, s) := s.releaseReservationPeer peer
  (released, { s with attemptedReservations := s.attemptedWithout peer })

def releaseReservationForRetryAfter (now : ℕ) : Bool × AutoRelayState Peer Address Listener :=
  let (released, s) := s.releaseReservationForRetry peer
  (released, { s with retryAfter := s.retryAfter.insert peer (now + s.policy.retryInterval) })

def releaseListenerForRetryAfter [DecidableEq Listener] (order : KeyOrder Peer) (listener : Listener)
    (now : ℕ) :
    Option (ReleasedListener Peer Address) × AutoRelayState Peer Address Listener :=
  match (order.entries s.reservationListeners).find? fun entry => entry.2 = listener with
  | none => (none, s)
  | some (relay, _) =>
      (some ⟨relay, (s.pendingReservations.get? relay).map PendingReservation.address,
          relay ∈ s.acceptedReservationPeers⟩,
        (s.releaseReservationForRetryAfter relay now).2)

/-- The body of the loop of `expire_pending_reservations`. -/
def expireReservation [DecidableEq Address] (now : ℕ) (peer : Peer) :
    Option (Peer × Address × Option Listener) × AutoRelayState Peer Address Listener :=
  match s.pendingReservations.get? peer with
  | none => (none, s)
  | some pending =>
      (some (peer, pending.address, s.reservationListeners.get? peer),
        { s with
          pendingReservations := s.pendingReservations.remove peer
          reservationListeners := s.reservationListeners.remove peer
          attemptedReservations := s.attemptedReservations.erase (peer, pending.address)
          retryAfter := s.retryAfter.insert peer (now + s.policy.retryInterval) })

/-- The loop of `expire_pending_reservations`. -/
def expireEach [DecidableEq Address] (now : ℕ) : AutoRelayState Peer Address Listener → List Peer →
    List (Peer × Address × Option Listener) × AutoRelayState Peer Address Listener
  | s, [] => ([], s)
  | s, peer :: peers =>
      let (expired, s) := s.expireReservation now peer
      let (rest, s) := expireEach now s peers
      (expired.toList ++ rest, s)

def expirePendingReservations [DecidableEq Address] (order : KeyOrder Peer) (now : ℕ) :
    List (Peer × Address × Option Listener) × AutoRelayState Peer Address Listener :=
  expireEach now s (((order.entries s.pendingReservations).filter fun entry =>
    entry.2.expiresAt ≤ now).map Prod.fst)

end AutoRelayState

/-! ## Runs -/

inductive AutoRelayCall (Peer Address Listener : Type) where
  | recordCandidate (peer : Peer) (address : Address)
  | nextReservationTargets (now : ℕ)
  | recordReservationListener (peer : Peer) (listener : Listener)
  /-- A listener reports an address; it counts if the relay owns the listener. -/
  | recordReservationAccepted (relay : Peer) (listener : Listener)
  | releaseReservationForRetry (peer : Peer)
  | releaseReservationForRetryAfter (peer : Peer) (now : ℕ)
  | releaseListenerForRetryAfter (order : KeyOrder Peer) (listener : Listener) (now : ℕ)
  | expirePendingReservations (order : KeyOrder Peer) (now : ℕ)
  | recordReservationFailure (peer : Peer)
  | removeCandidate (peer : Peer)
  | resetForNetworkChange (order : KeyOrder Peer)

section Runs

variable {Peer Address Listener : Type} [DecidableEq Peer]

section Calls

variable [DecidableEq Address] [DecidableEq Listener]

def AutoRelayCall.apply (s : AutoRelayState Peer Address Listener) :
    AutoRelayCall Peer Address Listener → AutoRelayState Peer Address Listener
  | .recordCandidate peer address => (s.recordCandidate peer address).2
  | .nextReservationTargets now => (s.nextReservationTargets now).2
  | .recordReservationListener peer listener => (s.recordReservationListener peer listener).2
  | .recordReservationAccepted relay listener =>
      if s.ownsListener relay listener then s.recordReservationAccepted relay else s
  | .releaseReservationForRetry peer => (s.releaseReservationForRetry peer).2
  | .releaseReservationForRetryAfter peer now => (s.releaseReservationForRetryAfter peer now).2
  | .releaseListenerForRetryAfter order listener now =>
      (s.releaseListenerForRetryAfter order listener now).2
  | .expirePendingReservations order now => (s.expirePendingReservations order now).2
  | .recordReservationFailure peer => (s.recordReservationFailure peer).2
  | .removeCandidate peer => (s.removeCandidate peer).2
  | .resetForNetworkChange order => (s.resetForNetworkChange order).2

def after (policy : AutoRelayConfig) (calls : List (AutoRelayCall Peer Address Listener)) :
    AutoRelayState Peer Address Listener :=
  calls.foldl AutoRelayCall.apply (.new policy)

end Calls

/-! ## The phases of a relay -/

open AutoRelayState

/-- What holds of the collections together. -/
structure Phased (policy : AutoRelayConfig) (s : AutoRelayState Peer Address Listener) : Prop where
  policy_eq : s.policy = policy
  unique : (s.candidates.map Prod.fst).Nodup
  candidates_le : s.candidates.length ≤ policy.maxCandidates
  disjoint : ∀ peer ∈ s.acceptedReservationPeers, s.pendingReservations.get? peer = none
  slots_le : s.reservationSlots ≤ policy.maxReservations
  listeners : ∀ peer listener, s.reservationListeners.get? peer = some listener →
    peer ∈ s.acceptedReservationPeers ∨ (s.pendingReservations.get? peer).isSome
  /-- Only a relay that is pending or accepted has been attempted, a pending one at the address at
  which it is pending. -/
  attempted : ∀ peer address, (peer, address) ∈ s.attemptedReservations →
    peer ∈ s.acceptedReservationPeers ∨
      ∃ pending, s.pendingReservations.get? peer = some pending ∧ pending.address = address

variable {policy : AutoRelayConfig} {s s' : AutoRelayState Peer Address Listener}

lemma phased_new (policy : AutoRelayConfig) :
    Phased policy (.new policy : AutoRelayState Peer Address Listener) :=
  ⟨rfl, List.nodup_nil, Nat.zero_le _, by simp [AutoRelayState.new], Nat.zero_le _,
    by simp [AutoRelayState.new], by simp [AutoRelayState.new]⟩

section Steps

variable (h : Phased policy s)
include h

/-- A relay gives up its phase. -/
lemma Phased.clear {peer : Peer} (hpolicy : s'.policy = s.policy)
    (hcandidates : s'.candidates.Sublist s.candidates)
    (hattempted : s'.attemptedReservations = s.attemptedWithout peer)
    (hpending : s'.pendingReservations = s.pendingReservations.remove peer)
    (haccepted : s'.acceptedReservationPeers = s.acceptedReservationPeers.erase peer)
    (hlisteners : s'.reservationListeners = s.reservationListeners.remove peer) : Phased policy s' := by
  have hget : ∀ other, s'.pendingReservations.get? other
      = if other = peer then none else s.pendingReservations.get? other := fun other => by
    rw [hpending, HashMap.get?_remove]
  refine ⟨hpolicy.trans h.policy_eq, h.unique.sublist (hcandidates.map _),
    hcandidates.length_le.trans h.candidates_le, ?_, ?_, ?_, ?_⟩
  · intro other hother
    rw [haccepted] at hother
    obtain ⟨hne, hmem⟩ := Finset.mem_erase.mp hother
    rw [hget, if_neg hne]
    exact h.disjoint other hmem
  · rw [reservationSlots, haccepted, hpending, HashMap.keys_remove]
    exact (Nat.add_le_add Finset.card_erase_le Finset.card_erase_le).trans h.slots_le
  · intro other listener hlistener
    rw [hlisteners, HashMap.get?_remove] at hlistener
    split_ifs at hlistener with hne
    rw [haccepted, hget, if_neg hne, Finset.mem_erase]
    exact (h.listeners other listener hlistener).imp_left fun hmem => ⟨hne, hmem⟩
  · intro other address hmem
    rw [hattempted, attemptedWithout, Finset.mem_filter] at hmem
    rw [haccepted, hget, if_neg hmem.2, Finset.mem_erase]
    exact (h.attempted other address hmem.1).imp_left fun haccepted => ⟨hmem.2, haccepted⟩

lemma Phased.changeAddress (peer : Peer) (address : Address) :
    Phased policy (s.changeAddress peer address) := by
  have hpeers : (modifyFirst (fun candidate => candidate.1 = peer)
      (fun candidate => (candidate.1, address)) s.candidates).map Prod.fst
        = s.candidates.map Prod.fst :=
    @map_key_modifyFirst _ _ Prod.fst (fun candidate => (candidate.1, address)) (fun _ => rfl) _ _
  have hlength := congrArg List.length hpeers
  rw [List.length_map, List.length_map] at hlength
  rw [AutoRelayState.changeAddress]
  split
  · exact ⟨h.policy_eq, hpeers ▸ h.unique, hlength ▸ h.candidates_le, h.disjoint, h.slots_le,
      h.listeners, h.attempted⟩
  · refine ⟨h.policy_eq, hpeers ▸ h.unique, hlength ▸ h.candidates_le, h.disjoint, h.slots_le,
      h.listeners, fun other address hmem => h.attempted other address ?_⟩
    dsimp only at hmem
    split at hmem
    · exact hmem
    · exact Finset.mem_of_mem_filter _ hmem

lemma Phased.recordCandidate [DecidableEq Address] (peer : Peer)
    (address : Address) : Phased policy (s.recordCandidate peer address).2 := by
  rw [AutoRelayState.recordCandidate]
  split
  · exact h
  split
  · split
    · exact h
    · exact h.changeAddress peer address
  · rename_i hnone
    split
    · exact h
    · rename_i hfull
      have hnew : peer ∉ s.candidates.map Prod.fst := by
        intro hmem
        obtain ⟨candidate, hcandidate, hpeer⟩ := List.mem_map.mp hmem
        exact List.find?_eq_none.mp hnone candidate hcandidate (by simpa using hpeer)
      refine ⟨h.policy_eq, ?_, ?_, h.disjoint, h.slots_le, h.listeners, h.attempted⟩
      · rw [List.map_append, List.map_singleton, ← List.concat_eq_append]
        exact h.unique.concat hnew
      · rw [h.policy_eq] at hfull
        rw [List.length_append, List.length_singleton]
        exact Nat.lt_of_not_le hfull

lemma Phased.removeCandidate (peer : Peer) : Phased policy (s.removeCandidate peer).2 :=
  h.clear rfl List.filter_sublist rfl rfl rfl rfl

lemma Phased.recordReservationFailure (peer : Peer) :
    Phased policy (s.recordReservationFailure peer).2 := by
  have hcounted : ∀ reservationFailures, Phased policy { s with reservationFailures } := fun _ =>
    ⟨h.policy_eq, h.unique, h.candidates_le, h.disjoint, h.slots_le, h.listeners, h.attempted⟩
  rw [AutoRelayState.recordReservationFailure]
  split
  · exact hcounted _
  · exact (hcounted _).removeCandidate peer

lemma Phased.releaseReservationForRetryAfter (peer : Peer) (now : ℕ) :
    Phased policy (s.releaseReservationForRetryAfter peer now).2 :=
  h.clear rfl (List.Sublist.refl _) rfl rfl rfl rfl

lemma Phased.releaseListenerForRetryAfter [DecidableEq Listener]
    (order : KeyOrder Peer) (listener : Listener) (now : ℕ) :
    Phased policy (s.releaseListenerForRetryAfter order listener now).2 := by
  rw [AutoRelayState.releaseListenerForRetryAfter]
  split
  · exact h
  · exact h.releaseReservationForRetryAfter _ now

/-- A reservation that has taken too long is released like any other: the only attempt at its relay is
the one that is pending. -/
lemma Phased.expireReservation [DecidableEq Address] (now : ℕ) (peer : Peer) :
    Phased policy (s.expireReservation now peer).2 := by
  rw [AutoRelayState.expireReservation]
  split
  · exact h
  · rename_i pending hpending
    have hnot : peer ∉ s.acceptedReservationPeers := fun hmem => by
      rw [h.disjoint peer hmem] at hpending
      cases hpending
    refine h.clear rfl (List.Sublist.refl _) ?_ rfl (Finset.erase_eq_of_notMem hnot).symm rfl
    ext ⟨other, address⟩
    rw [attemptedWithout, Finset.mem_erase, Finset.mem_filter, and_comm]
    refine and_congr_right fun hmem => not_congr ⟨fun heq => (Prod.ext_iff.mp heq).1, ?_⟩
    rintro rfl
    obtain ⟨pending', hpending', rfl⟩ := (h.attempted other address hmem).resolve_left hnot
    rw [hpending] at hpending'
    rw [Option.some.inj hpending']

lemma Phased.expireEach [DecidableEq Address] (now : ℕ) (peers : List Peer) :
    Phased policy (expireEach now s peers).2 := by
  induction peers generalizing s with
  | nil => exact h
  | cons peer peers ih => exact ih (h.expireReservation now peer)

lemma Phased.recordReservationListener (peer : Peer) (listener : Listener) :
    Phased policy (s.recordReservationListener peer listener).2 := by
  rw [AutoRelayState.recordReservationListener]
  split_ifs with hrefused
  · exact h
  · refine ⟨h.policy_eq, h.unique, h.candidates_le, h.disjoint, h.slots_le, fun other listener' hget => ?_,
      h.attempted⟩
    dsimp only at hget ⊢
    rw [HashMap.get?_insert] at hget
    split_ifs at hget with hother
    · right
      rw [hother]
      exact Option.ne_none_iff_isSome.mp (by simpa using (not_or.mp hrefused).1)
    · exact h.listeners other listener' hget

/-- A relay that owns a listener is pending or accepted, so no slot is taken when it is accepted. -/
lemma Phased.recordReservationAccepted [DecidableEq Listener] {relay : Peer}
    {listener : Listener} (howns : s.ownsListener relay listener = true) :
    Phased policy (s.recordReservationAccepted relay) := by
  have hget : ∀ other, (s.recordReservationAccepted relay).pendingReservations.get? other
      = if other = relay then none else s.pendingReservations.get? other := fun other =>
    HashMap.get?_remove _ _ _
  refine ⟨h.policy_eq, h.unique, h.candidates_le, fun other hother => ?_, ?_, fun other listener' hlistener => ?_,
    fun other address hmem => ?_⟩
  · rw [hget]
    split_ifs with heq
    · rfl
    · exact h.disjoint other (Finset.mem_of_mem_insert_of_ne hother heq)
  · refine le_trans ?_ h.slots_le
    rcases h.listeners relay listener (by simpa [ownsListener] using howns) with hmem | hpending
    · rw [reservationSlots, reservationSlots, AutoRelayState.recordReservationAccepted,
        Finset.insert_eq_of_mem hmem, HashMap.keys_remove]
      exact Nat.add_le_add_left Finset.card_erase_le _
    · obtain ⟨pending, hpending⟩ := Option.isSome_iff_exists.mp hpending
      have hless := HashMap.card_keys_remove_lt hpending
      have hmore := Finset.card_insert_le relay s.acceptedReservationPeers
      simp only [reservationSlots, AutoRelayState.recordReservationAccepted]
      omega
  · rw [hget]
    by_cases heq : other = relay
    · exact .inl (heq ▸ Finset.mem_insert_self _ _)
    · rw [if_neg heq]
      exact (h.listeners other listener' hlistener).imp_left (Finset.mem_insert_of_mem ·)
  · rw [hget]
    by_cases heq : other = relay
    · exact .inl (heq ▸ Finset.mem_insert_self _ _)
    · rw [if_neg heq]
      exact (h.attempted other address hmem).imp_left (Finset.mem_insert_of_mem ·)

end Steps

/-! ## Targets -/

section Targets

variable [DecidableEq Address] {now : ℕ}

omit [DecidableEq Address] in
lemma not_skips_iff {peer : Peer} : s.skips now peer = false ↔
    peer ∉ s.acceptedReservationPeers ∧ s.pendingReservations.get? peer = none ∧
      ∀ retryAfter ∈ s.retryAfter.get? peer, retryAfter ≤ now := by
  simp only [skips, Bool.or_eq_false_iff, decide_eq_false_iff_not, and_assoc, Option.any_eq_false,
    Option.isSome_eq_false_iff, Option.isNone_iff_eq_none, not_lt, Option.mem_def]

lemma Phased.attempt (h : Phased policy s) {peer : Peer} (hskips : s.skips now peer = false)
    (hroom : s.reservationSlots < policy.maxReservations) (address : Address) :
    Phased policy (s.attempt now peer address) := by
  obtain ⟨hnot, hnone, -⟩ := not_skips_iff.mp hskips
  have hget : ∀ other, (s.attempt now peer address).pendingReservations.get? other
      = if other = peer then some ⟨address, now + reservationPendingTimeout⟩
        else s.pendingReservations.get? other := fun other => HashMap.get?_insert _ _ _ _
  refine ⟨h.policy_eq, h.unique, h.candidates_le, fun other hother => ?_, ?_, fun other listener hlistener => ?_,
    fun other address' hmem => ?_⟩
  · have hne : other ≠ peer := fun heq => hnot (heq ▸ hother)
    rw [hget, if_neg hne]
    exact h.disjoint other hother
  · rw [reservationSlots, AutoRelayState.attempt, HashMap.keys_insert]
    have hmore := Finset.card_insert_le peer s.pendingReservations.keys
    rw [reservationSlots] at hroom
    dsimp only
    omega
  · rw [hget]
    refine (h.listeners other listener hlistener).imp_right fun hpending => ?_
    split_ifs
    · rfl
    · exact hpending
  · rw [hget]
    rcases Finset.mem_insert.mp hmem with heq | hmem
    · obtain ⟨rfl, rfl⟩ := Prod.mk.inj heq
      exact .inr ⟨_, if_pos rfl, rfl⟩
    · refine (h.attempted other address' hmem).imp_right ?_
      rintro ⟨pending, hpending, haddress⟩
      have hne : other ≠ peer := fun heq => by
        rw [heq, hnone] at hpending
        cases hpending
      exact ⟨pending, by rw [if_neg hne]; exact hpending, haddress⟩

/-- An attempt changes nothing for other relays. -/
lemma skips_attempt {peer other : Peer} (hne : other ≠ peer) (address : Address) :
    (s.attempt now peer address).skips now other = s.skips now other := by
  simp only [skips, AutoRelayState.attempt, HashMap.get?_insert_of_ne _ hne]
  rfl

omit [DecidableEq Address] in
/-- A relay that is not passed over has not been attempted. -/
lemma Phased.not_attempted (h : Phased policy s) {peer : Peer} (hskips : s.skips now peer = false)
    (address : Address) : (peer, address) ∉ s.attemptedReservations := by
  obtain ⟨hnot, hnone, -⟩ := not_skips_iff.mp hskips
  intro hmem
  rcases h.attempted peer address hmem with haccepted | ⟨pending, hpending, -⟩
  · exact hnot haccepted
  · rw [hnone] at hpending
    cases hpending

lemma targetsFrom_cons_of_not_skips {peer : Peer} {address : Address} (hskips : s.skips now peer = false)
    (hnew : (peer, address) ∉ s.attemptedReservations) (rest : List (Peer × Address)) :
    targetsFrom now s ((peer, address) :: rest)
      = if s.policy.maxReservations ≤ (s.attempt now peer address).reservationSlots then
          ([(peer, address)], s.attempt now peer address)
        else ((peer, address) :: (targetsFrom now (s.attempt now peer address) rest).1,
          (targetsFrom now (s.attempt now peer address) rest).2) := by
  rw [AutoRelayState.targetsFrom, if_neg (Bool.eq_false_iff.mp hskips), if_neg hnew]
  rfl

/-- The loop offers every candidate that is not passed over, or it ends with all slots taken. -/
lemma Phased.targetsFrom (h : Phased policy s) (now : ℕ) (hroom : s.reservationSlots < policy.maxReservations)
    (rest : List (Peer × Address)) :
    Phased policy (targetsFrom now s rest).2 ∧
      ((rest.map Prod.fst).Nodup → ∀ peer address, (peer, address) ∈ rest →
        s.skips now peer = false → (peer, address) ∈ (targetsFrom now s rest).1 ∨
          policy.maxReservations ≤ (targetsFrom now s rest).2.reservationSlots) := by
  induction rest generalizing s with
  | nil => exact ⟨h, by simp⟩
  | cons candidate rest ih =>
    obtain ⟨first, firstAddress⟩ := candidate
    by_cases hskips : s.skips now first = true
    · rw [AutoRelayState.targetsFrom, if_pos hskips]
      refine ⟨(ih h hroom).1, fun hnodup peer address hmem hpeer => ?_⟩
      rcases List.mem_cons.mp hmem with heq | hmem
      · obtain ⟨rfl, rfl⟩ := Prod.mk.inj heq
        rw [hskips] at hpeer
        cases hpeer
      · exact (ih h hroom).2 (List.nodup_cons.mp hnodup).2 peer address hmem hpeer
    have hoffered : s.skips now first = false := Bool.eq_false_iff.mpr hskips
    have hattempt := h.attempt hoffered hroom firstAddress
    rw [targetsFrom_cons_of_not_skips hoffered (h.not_attempted hoffered firstAddress), h.policy_eq]
    by_cases hfull : policy.maxReservations ≤ (s.attempt now first firstAddress).reservationSlots
    · rw [if_pos hfull]
      exact ⟨hattempt, fun _ _ _ _ _ => .inr hfull⟩
    · rw [if_neg hfull]
      obtain ⟨hphased, hrest⟩ := ih hattempt (Nat.lt_of_not_le hfull)
      refine ⟨hphased, fun hnodup peer address hmem hpeer => ?_⟩
      obtain ⟨hfirst, hnodup⟩ := List.nodup_cons.mp hnodup
      rcases List.mem_cons.mp hmem with heq | hmem
      · exact .inl (heq ▸ List.mem_cons_self)
      · have hne : peer ≠ first := fun heq => hfirst (List.mem_map.mpr ⟨_, hmem, heq⟩)
        rw [← skips_attempt hne firstAddress] at hpeer
        exact (hrest hnodup peer address hmem hpeer).imp_left (List.mem_cons_of_mem _)

lemma Phased.nextReservationTargets (h : Phased policy s) (now : ℕ) :
    Phased policy (s.nextReservationTargets now).2 ∧
      ∀ peer address, (peer, address) ∈ s.candidates → s.skips now peer = false →
        (peer, address) ∈ (s.nextReservationTargets now).1 ∨
          policy.maxReservations ≤ (s.nextReservationTargets now).2.reservationSlots := by
  rw [AutoRelayState.nextReservationTargets, h.policy_eq]
  split_ifs with hfull
  · refine ⟨h, fun peer address _ _ => .inr ?_⟩
    rcases hfull with hzero | hfull
    · exact hzero ▸ Nat.zero_le _
    · exact hfull
  · obtain ⟨hphased, hoffers⟩ := h.targetsFrom now (Nat.lt_of_not_le (not_or.mp hfull).2) s.candidates
    exact ⟨hphased, hoffers h.unique⟩

end Targets

/-! ## All calls -/

section Calls

variable [DecidableEq Address] [DecidableEq Listener]

lemma Phased.apply (h : Phased policy s) (call : AutoRelayCall Peer Address Listener) :
    Phased policy (call.apply s) := by
  cases call with
  | recordCandidate peer address => exact h.recordCandidate peer address
  | nextReservationTargets now => exact (h.nextReservationTargets now).1
  | recordReservationListener peer listener => exact h.recordReservationListener peer listener
  | recordReservationAccepted relay listener =>
    rw [AutoRelayCall.apply]
    split_ifs with howns
    · exact h.recordReservationAccepted howns
    · exact h
  | releaseReservationForRetry peer => exact h.clear rfl (List.Sublist.refl _) rfl rfl rfl rfl
  | releaseReservationForRetryAfter peer now => exact h.releaseReservationForRetryAfter peer now
  | releaseListenerForRetryAfter order listener now =>
    exact h.releaseListenerForRetryAfter order listener now
  | expirePendingReservations order now => exact h.expireEach now _
  | recordReservationFailure peer => exact h.recordReservationFailure peer
  | removeCandidate peer => exact h.removeCandidate peer
  | resetForNetworkChange order => exact h.policy_eq ▸ phased_new s.policy

lemma phased_foldl (h : Phased policy s) (calls : List (AutoRelayCall Peer Address Listener)) :
    Phased policy (calls.foldl AutoRelayCall.apply s) := by
  induction calls generalizing s with
  | nil => exact h
  | cons call calls ih => exact ih (h.apply call)

/-- **Automatic relay reservations are bounded and never stuck.**  After every run, pending and
accepted relays are different relays within the limit, candidates are different peers within theirs,
listeners belong to pending or accepted relays, and a candidate that is neither and may be asked is
offered by the next call for targets, unless all slots are taken when it returns. -/
theorem auto_relay_bounded_never_stuck (policy : AutoRelayConfig)
    (calls : List (AutoRelayCall Peer Address Listener)) :
    (∀ peer ∈ (after policy calls).acceptedReservationPeers,
      (after policy calls).pendingReservations.get? peer = none) ∧
    (after policy calls).acceptedReservationPeers.card
      + (after policy calls).pendingReservations.keys.card ≤ policy.maxReservations ∧
    ((after policy calls).candidates.map Prod.fst).Nodup ∧
    (after policy calls).candidates.length ≤ policy.maxCandidates ∧
    (∀ peer listener, (after policy calls).reservationListeners.get? peer = some listener →
      peer ∈ (after policy calls).acceptedReservationPeers ∨
        ((after policy calls).pendingReservations.get? peer).isSome) ∧
    ∀ now peer address, (peer, address) ∈ (after policy calls).candidates →
      peer ∉ (after policy calls).acceptedReservationPeers →
      (after policy calls).pendingReservations.get? peer = none →
      (∀ retryAfter ∈ (after policy calls).retryAfter.get? peer, retryAfter ≤ now) →
        (peer, address) ∈ ((after policy calls).nextReservationTargets now).1 ∨
          policy.maxReservations ≤
            ((after policy calls).nextReservationTargets now).2.reservationSlots := by
  have h : Phased policy (after policy calls) := phased_foldl (phased_new policy) calls
  refine ⟨h.disjoint, h.slots_le, h.unique, h.candidates_le, h.listeners, ?_⟩
  intro now peer address hmem haccepted hpending hretry
  exact (h.nextReservationTargets now).2 peer address hmem
    (not_skips_iff.mpr ⟨haccepted, hpending, hretry⟩)

end Calls

end Runs

end P2pVpn.AutoRelay
