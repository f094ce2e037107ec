/-
# Handing a mutation on

A member that changes the roster hands the signed mutation to the other members for a short time: a
delivery is attempted a few times, only so many deliveries are in flight at once, and at a deadline
all that is not acknowledged has failed.  The bounds hold in every run of its operations
(`handoff_bounded`).  Times are in nanoseconds.
-/
import Mathlib.Data.List.MinMax
import Mathlib.Data.Prod.Lex
import P2pVpn.Checkpoint.Sample
import P2pVpn.Checkpoint.Signing
import P2pVpn.Lib.Except
import P2pVpn.Lib.HashMap

namespace P2pVpn.Runtime

open Lib Checkpoint

/-! ## The program -/

def handoffWindow : ℕ := 15 * 1000000000
def maxAttempts : ℕ := 3
/-- One second. -/
def retryDelay : ℕ := 1000000000

/-- Five seconds. -/
def attemptWindow : ℕ := 5 * 1000000000

def maxInFlight : ℕ := 32

inductive DeliveryState where
  | ready (since : ℕ)
  | inFlight (deadline : ℕ)
  | acknowledged
  | failed
deriving DecidableEq, Repr

def DeliveryState.isPending : DeliveryState → Bool
  | .ready _ | .inFlight _ => true
  | .acknowledged | .failed => false

structure Delivery where
  attempts : ℕ
  state : DeliveryState
deriving DecidableEq, Repr

/-- A mutation that is delivered to the members before it. -/
structure MutationHandoff (T : Type) where
  mutation : SignedMembershipMutation
  expected : CheckpointBoundary
  recipients : HashMap T Delivery
  deadline : ℕ

namespace MutationHandoff

variable {T : Type} [DecidableEq T]

/-- The loop over the recipients. -/
def addRecipient (now : ℕ) (bounded : HashMap T Delivery) (peer : T) :
    Except String (HashMap T Delivery) :=
  if bounded.keys.card ≥ maxCheckpointMembers ∧ (bounded.get? peer).isNone then
    .error "too many mutation handoff recipients"
  else .ok (bounded.insert peer ⟨0, .ready now⟩)

def new (mutation : SignedMembershipMutation) (expected : CheckpointBoundary) (recipients : List T)
    (now : ℕ) : Except String (MutationHandoff T) := do
  let bounded ← recipients.foldlM (addRecipient now) ∅
  refuseIf (checkedAdd64 mutation.payload.base.authorityRevision 1 ≠ some expected.authorityRevision ∨
    expected.digest = 0) "mutation handoff boundary mismatch"
  pure
    { mutation := mutation
      expected := expected
      recipients := bounded
      deadline := now + handoffWindow }

/-- The `pending` of `report`. -/
def pending (handoff : MutationHandoff T) : ℕ :=
  handoff.recipients.total fun delivery => if delivery.state.isPending then 1 else 0

/-- `advance_clock` on one delivery: an attempt that takes too long is retried. -/
def advanceDelivery (deadline now : ℕ) (delivery : Delivery) : Delivery :=
  if now ≥ deadline then
    if delivery.state.isPending then { delivery with state := .failed } else delivery
  else
    match delivery.state with
    | .inFlight attemptDeadline =>
        if now ≥ attemptDeadline then
          { delivery with
            state := if delivery.attempts < maxAttempts then .ready (now + retryDelay) else .failed }
        else delivery
    | _ => delivery

def advanceClock (handoff : MutationHandoff T) (now : ℕ) : MutationHandoff T :=
  { handoff with recipients := handoff.recipients.mapValues (advanceDelivery handoff.deadline now) }

end MutationHandoff

inductive DeliveryOutcome where
  | acknowledged
  | retryableFailure
  | definiteFailure
deriving DecidableEq, Repr

structure HandoffReport where
  recipients : ℕ
  acknowledged : ℕ
  failed : ℕ
  pending : ℕ
  attempts : ℕ
deriving DecidableEq, Repr

def DeliveryState.isInFlight : DeliveryState → Bool
  | .inFlight _ => true
  | .ready _ | .acknowledged | .failed => false

def resolveDelivery (delivery : Delivery) (outcome : DeliveryOutcome) (now : ℕ) : Delivery :=
  { delivery with
    state :=
      match outcome with
      | .acknowledged => .acknowledged
      | .retryableFailure =>
          if delivery.attempts < maxAttempts then .ready (now + retryDelay) else .failed
      | .definiteFailure => .failed }

/-- The operations of a handoff. -/
inductive HandoffOp (T : Type) where
  | nextReady (now : ℕ)
  | resolve (peer : T) (outcome : DeliveryOutcome) (now : ℕ)
  | advanceClock (now : ℕ)

/-- The time to which an operation advances the clock. -/
def HandoffOp.clock {T : Type} : HandoffOp T → Option ℕ
  | .nextReady _ => none
  | .resolve _ _ now => some now
  | .advanceClock now => some now

namespace MutationHandoff

variable {T : Type} [LinearOrder T] (handoff : MutationHandoff T)

def report : HandoffReport where
  recipients := handoff.recipients.keys.card
  acknowledged := handoff.recipients.total fun delivery =>
    if delivery.state = .acknowledged then 1 else 0
  failed := handoff.recipients.total fun delivery => if delivery.state = .failed then 1 else 0
  pending := handoff.pending
  attempts := handoff.recipients.total (·.attempts)

def isInFlight (handoff : MutationHandoff T) (peer : T) : Bool :=
  (handoff.recipients.get? peer).any (·.state.isInFlight)

/-- The number of deliveries in flight. -/
def inFlightCount : ℕ :=
  handoff.recipients.total (·.state.isInFlight.toNat)

/-- The recipients whose delivery can be attempted, in the order of the map, and since when. -/
def readyRecipients (now : ℕ) : List (T × ℕ) :=
  (KeyOrder.sorted.entries handoff.recipients).filterMap fun entry =>
    match entry.2.state with
    | .ready since => if now ≥ since then some (entry.1, since) else none
    | _ => none

def nextReady (now : ℕ) : Option T × MutationHandoff T :=
  if now ≥ handoff.deadline ∨ handoff.inFlightCount ≥ maxInFlight then (none, handoff)
  else
    match (handoff.readyRecipients now).argmin fun candidate => toLex (candidate.2, candidate.1) with
    | none => (none, handoff)
    | some (peer, _) =>
        match handoff.recipients.get? peer with
        | none => (none, handoff)
        | some delivery =>
            (some peer,
              { handoff with
                recipients := handoff.recipients.insert peer
                  { attempts := delivery.attempts + 1
                    state := .inFlight (min (now + attemptWindow) handoff.deadline) } })

def resolve (peer : T) (outcome : DeliveryOutcome) (now : ℕ) : MutationHandoff T :=
  let handoff := handoff.advanceClock now
  match handoff.recipients.get? peer with
  | none => handoff
  | some delivery =>
      if delivery.state.isInFlight then
        { handoff with
          recipients := handoff.recipients.insert peer (resolveDelivery delivery outcome now) }
      else handoff

/-- An operation: the peer whose delivery is attempted, if any, and the handoff after it. -/
def perform : HandoffOp T → Option T × MutationHandoff T
  | .nextReady now => handoff.nextReady now
  | .resolve peer outcome now => (none, handoff.resolve peer outcome now)
  | .advanceClock now => (none, handoff.advanceClock now)

/-- A run: the attempts, one after the other, and the handoff in the end. -/
def run (handoff : MutationHandoff T) : List (HandoffOp T) → List T × MutationHandoff T
  | [] => ([], handoff)
  | op :: ops =>
      let after := run (handoff.perform op).2 ops
      ((handoff.perform op).1.toList ++ after.1, after.2)

end MutationHandoff

/-! ## One delivery -/

/-- What an operation can do to one delivery; the flag says whether it attempts it. -/
inductive Moves : Bool → Delivery → Delivery → Prop
  | keep (delivery : Delivery) : Moves false delivery delivery
  | attempt (attempts since timeout : ℕ) :
      Moves true ⟨attempts, .ready since⟩ ⟨attempts + 1, .inFlight timeout⟩
  | retry (attempts timeout since : ℕ) (hleft : attempts < maxAttempts) :
      Moves false ⟨attempts, .inFlight timeout⟩ ⟨attempts, .ready since⟩
  | finish (attempts : ℕ) (state ended : DeliveryState) (hpending : state.isPending = true)
      (hended : ended.isPending = false) : Moves false ⟨attempts, state⟩ ⟨attempts, ended⟩

/-- A delivery that may be attempted has an attempt left. -/
structure Within (delivery : Delivery) : Prop where
  attempts : delivery.attempts ≤ maxAttempts
  ready : ∀ since, delivery.state = .ready since → delivery.attempts < maxAttempts

variable {delivery delivery' : Delivery} {now : ℕ}

lemma Moves.within {attempted : Bool} (hmoves : Moves attempted delivery delivery')
    (h : Within delivery) : Within delivery' := by
  cases hmoves with
  | keep => exact h
  | attempt attempts since timeout =>
      exact ⟨h.ready since rfl, fun _ hstate => by cases hstate⟩
  | retry attempts timeout since hleft => exact ⟨h.attempts, fun _ _ => hleft⟩
  | finish attempts state ended hpending hended =>
      refine ⟨h.attempts, fun since hstate => ?_⟩
      obtain rfl : ended = .ready since := hstate
      cases hended

lemma Moves.attempts_eq {attempted : Bool} (hmoves : Moves attempted delivery delivery') :
    delivery'.attempts = attempted.toNat + delivery.attempts := by
  cases hmoves with
  | keep => exact (Nat.zero_add _).symm
  | attempt attempts since timeout => exact Nat.add_comm attempts 1
  | retry attempts timeout since hleft => exact (Nat.zero_add _).symm
  | finish attempts state ended hpending hended => exact (Nat.zero_add _).symm

/-- What has ended does not move. -/
lemma Moves.eq_of_ended {attempted : Bool} (hmoves : Moves attempted delivery delivery')
    (hended : delivery.state.isPending = false) :
    delivery' = delivery := by
  cases hmoves with
  | keep => rfl
  | attempt attempts since timeout => cases hended
  | retry attempts timeout since hleft => cases hended
  | finish attempts state ended hpending _ => exact absurd (hpending.symm.trans hended) (by decide)

/-- Only an attempt brings a delivery into flight. -/
lemma Moves.inFlight_le (hmoves : Moves false delivery delivery') :
    delivery'.state.isInFlight.toNat ≤ delivery.state.isInFlight.toNat := by
  cases hmoves with
  | keep => exact le_rfl
  | retry attempts timeout since hleft => exact Nat.zero_le _
  | finish attempts state ended hpending hended =>
      have hgrounded : ended.isInFlight = false := by
        cases ended with
        | inFlight _ => cases hended
        | ready _ => rfl
        | acknowledged => rfl
        | failed => rfl
      exact hgrounded ▸ Nat.zero_le _

lemma isPending_of_isInFlight {state : DeliveryState} (h : state.isInFlight = true) :
    state.isPending = true := by
  cases state with
  | inFlight _ => rfl
  | ready _ => cases h
  | acknowledged => cases h
  | failed => cases h

lemma moves_resolveDelivery (hflight : delivery.state.isInFlight = true) (outcome : DeliveryOutcome)
    (now : ℕ) :
    Moves false delivery (resolveDelivery delivery outcome now) := by
  obtain ⟨attempts, state⟩ := delivery
  have hpending := isPending_of_isInFlight hflight
  cases outcome with
  | acknowledged => exact .finish attempts state .acknowledged hpending rfl
  | definiteFailure => exact .finish attempts state .failed hpending rfl
  | retryableFailure =>
      by_cases hleft : attempts < maxAttempts
      · cases state with
        | inFlight timeout =>
            simpa only [resolveDelivery, if_pos hleft] using
              Moves.retry attempts timeout (now + retryDelay) hleft
        | ready _ => cases hflight
        | acknowledged => cases hflight
        | failed => cases hflight
      · simpa only [resolveDelivery, if_neg hleft] using
          Moves.finish attempts state .failed hpending rfl

/-- The clock resolves a delivery that takes too long as one that can be retried. -/
lemma moves_advanceDelivery (deadline now : ℕ) (delivery : Delivery) :
    Moves false delivery (MutationHandoff.advanceDelivery deadline now delivery) := by
  unfold MutationHandoff.advanceDelivery
  by_cases hdue : now ≥ deadline
  · rw [if_pos hdue]
    by_cases hpending : delivery.state.isPending = true
    · rw [if_pos hpending]
      exact .finish delivery.attempts delivery.state .failed hpending rfl
    · rw [if_neg hpending]
      exact .keep delivery
  · rw [if_neg hdue]
    obtain ⟨attempts, state⟩ := delivery
    cases state with
    | inFlight timeout =>
        by_cases hlate : now ≥ timeout
        · simp only [if_pos hlate]
          exact moves_resolveDelivery rfl .retryableFailure now
        · simp only [if_neg hlate]
          exact .keep _
    | ready _ => exact .keep _
    | acknowledged => exact .keep _
    | failed => exact .keep _

/-- A delivery that the clock leaves in flight is as it was. -/
lemma advanceDelivery_eq_of_isInFlight {deadline : ℕ}
    (h : (MutationHandoff.advanceDelivery deadline now delivery).state.isInFlight = true) :
    MutationHandoff.advanceDelivery deadline now delivery = delivery := by
  generalize hadvanced : MutationHandoff.advanceDelivery deadline now delivery = advanced at h
  have hmoves := hadvanced ▸ moves_advanceDelivery deadline now delivery
  cases hmoves with
  | keep => rfl
  | retry => cases h
  | finish attempts state ended hpending hended =>
      exact absurd ((isPending_of_isInFlight h).symm.trans hended) (by decide)

/-! ## Steps -/

namespace MutationHandoff

variable {T : Type} [LinearOrder T] {handoff : MutationHandoff T}

/-- A recipient that is chosen is ready, before the deadline, and there is a place for it. -/
lemma nextReady_cases (handoff : MutationHandoff T) (now : ℕ) :
    handoff.nextReady now = (none, handoff) ∨
      ∃ peer delivery since, now < handoff.deadline ∧ handoff.inFlightCount < maxInFlight ∧
        handoff.recipients.get? peer = some delivery ∧ delivery.state = .ready since ∧
        handoff.nextReady now = (some peer, { handoff with
          recipients := handoff.recipients.insert peer
            ⟨delivery.attempts + 1, .inFlight (min (now + attemptWindow) handoff.deadline)⟩ }) := by
  by_cases hclosed : now ≥ handoff.deadline ∨ handoff.inFlightCount ≥ maxInFlight
  · exact Or.inl (if_pos hclosed)
  · rw [nextReady, if_neg hclosed]
    split
    · exact Or.inl rfl
    · rename_i peer since hmin
      obtain ⟨⟨_, delivery⟩, hentry, hready⟩ := List.mem_filterMap.mp (List.argmin_mem hmin)
      rw [KeyOrder.mem_entries] at hentry
      cases hstate : delivery.state with
      | ready since' =>
          simp only [hstate, Option.ite_none_right_eq_some, Option.some.injEq, Prod.mk.injEq] at hready
          obtain ⟨-, rfl, rfl⟩ := hready
          rw [hentry]
          exact Or.inr ⟨_, delivery, since', by omega, by omega, hentry, hstate, rfl⟩
      | inFlight _ => simp [hstate] at hready
      | acknowledged => simp [hstate] at hready
      | failed => simp [hstate] at hready

/-- An outcome is for a delivery that is still in flight once the clock has been advanced. -/
lemma resolve_cases (handoff : MutationHandoff T) (peer : T) (outcome : DeliveryOutcome) (now : ℕ) :
    handoff.resolve peer outcome now = handoff.advanceClock now ∨
      ∃ delivery, (handoff.advanceClock now).recipients.get? peer = some delivery ∧
        delivery.state.isInFlight = true ∧
        handoff.resolve peer outcome now = { handoff with
          recipients := (handoff.advanceClock now).recipients.insert peer
            (resolveDelivery delivery outcome now) } := by
  simp only [resolve]
  cases hget : (handoff.advanceClock now).recipients.get? peer with
  | none => exact Or.inl rfl
  | some delivery =>
      by_cases hflight : delivery.state.isInFlight = true
      · exact Or.inr ⟨delivery, rfl, hflight, if_pos hflight⟩
      · exact Or.inl (if_neg hflight)

variable {peer : T} {op : HandoffOp T}

/-- Only a recipient that is ready is attempted, before the deadline. -/
lemma perform_eq_some (hchosen : (handoff.perform op).1 = some peer) :
    ∃ now delivery since, op = .nextReady now ∧ now < handoff.deadline ∧
      handoff.recipients.get? peer = some delivery ∧ delivery.state = .ready since := by
  cases op with
  | resolve _ _ _ => cases hchosen
  | advanceClock _ => cases hchosen
  | nextReady now =>
      obtain hnone | ⟨chosen, delivery, since, hearly, -, hget, hready, hnext⟩ :=
        handoff.nextReady_cases now
      · rw [perform, hnone] at hchosen
        cases hchosen
      · rw [perform, hnext] at hchosen
        obtain rfl : chosen = peer := Option.some.inj hchosen
        exact ⟨now, delivery, since, rfl, hearly, hget, hready⟩

/-- **One operation.** It moves every delivery on its own, and takes nobody in or out. -/
lemma perform_moves (handoff : MutationHandoff T) (op : HandoffOp T) (peer : T) :
    Option.Rel (Moves (decide ((handoff.perform op).1 = some peer))) (handoff.recipients.get? peer)
      ((handoff.perform op).2.recipients.get? peer) := by
  have hkeep : ∀ o : Option Delivery, Option.Rel (Moves false) o o := fun o => by
    cases o with
    | none => exact .none
    | some delivery => exact .some (.keep delivery)
  have hclock : ∀ now, Option.Rel (Moves false) (handoff.recipients.get? peer)
      ((handoff.advanceClock now).recipients.get? peer) := fun now => by
    rw [advanceClock, HashMap.get?_mapValues]
    cases handoff.recipients.get? peer with
    | none => exact .none
    | some delivery => exact .some (moves_advanceDelivery _ _ delivery)
  cases op with
  | advanceClock now => exact hclock now
  | nextReady now =>
      obtain hnone | ⟨chosen, delivery, since, -, -, hget, hready, hsome⟩ := handoff.nextReady_cases now
      · simpa only [perform, hnone, reduceCtorEq, decide_false] using hkeep _
      · simp only [perform, hsome, Option.some.injEq]
        by_cases heq : chosen = peer
        · subst heq
          obtain ⟨attempts, state⟩ := delivery
          obtain rfl : state = .ready since := hready
          rw [hget, HashMap.get?_insert_self, decide_eq_true rfl]
          exact .some (.attempt attempts since _)
        · rw [HashMap.get?_insert_of_ne _ (Ne.symm heq), decide_eq_false heq]
          exact hkeep _
  | resolve target outcome now =>
      simp only [perform, reduceCtorEq, decide_false]
      obtain hnone | ⟨delivery, hget, hflight, hsome⟩ := handoff.resolve_cases target outcome now
      · rw [hnone]
        exact hclock now
      · rw [hsome]
        by_cases heq : peer = target
        · subst heq
          -- the clock left this delivery alone, so the outcome is the only move
          rw [advanceClock, HashMap.get?_mapValues] at hget
          obtain ⟨before, hbefore, rfl⟩ := Option.map_eq_some_iff.mp hget
          rw [hbefore, HashMap.get?_insert_self, advanceDelivery_eq_of_isInFlight hflight]
          rw [advanceDelivery_eq_of_isInFlight hflight] at hflight
          exact .some (moves_resolveDelivery hflight outcome now)
        · rw [HashMap.get?_insert_of_ne _ heq]
          exact hclock now

lemma perform_get?_some (op : HandoffOp T) (hget : handoff.recipients.get? peer = some delivery) :
    ∃ delivery', (handoff.perform op).2.recipients.get? peer = some delivery' ∧
      Moves (decide ((handoff.perform op).1 = some peer)) delivery delivery' := by
  have hrel := handoff.perform_moves op peer
  rw [hget] at hrel
  generalize (handoff.perform op).2.recipients.get? peer = after at hrel
  cases hrel with
  | some hmoves => exact ⟨_, rfl, hmoves⟩

lemma perform_get?_none (hget : handoff.recipients.get? peer = none) :
    (handoff.perform op).2.recipients.get? peer = none := by
  have hrel := handoff.perform_moves op peer
  rw [hget] at hrel
  generalize (handoff.perform op).2.recipients.get? peer = after at hrel
  cases hrel
  rfl

lemma perform_keys (handoff : MutationHandoff T) (op : HandoffOp T) :
    (handoff.perform op).2.recipients.keys = handoff.recipients.keys := by
  ext peer
  rw [HashMap.mem_keys, HashMap.mem_keys]
  cases hget : handoff.recipients.get? peer with
  | none => rw [perform_get?_none hget]
  | some delivery =>
      obtain ⟨delivery', hget', -⟩ := perform_get?_some op hget
      exact ⟨fun _ => ⟨delivery, rfl⟩, fun _ => ⟨delivery', hget'⟩⟩

lemma perform_deadline (handoff : MutationHandoff T) (op : HandoffOp T) :
    (handoff.perform op).2.deadline = handoff.deadline := by
  cases op with
  | advanceClock now => rfl
  | nextReady now =>
      obtain hnone | ⟨_, _, _, -, -, -, -, hsome⟩ := handoff.nextReady_cases now
      · rw [perform, hnone]
      · rw [perform, hsome]
  | resolve target outcome now =>
      obtain hnone | ⟨_, -, -, hsome⟩ := handoff.resolve_cases target outcome now
      · rw [perform, hnone, advanceClock]
      · rw [perform, hsome]

lemma perform_inFlightCount (h : handoff.inFlightCount ≤ maxInFlight) :
    (handoff.perform op).2.inFlightCount ≤ maxInFlight := by
  have hclock : ∀ now, (handoff.advanceClock now).inFlightCount ≤ maxInFlight := fun now => by
    refine le_trans ?_ h
    rw [inFlightCount, advanceClock, HashMap.total_mapValues]
    exact HashMap.total_le_total (fun delivery => (moves_advanceDelivery _ _ delivery).inFlight_le) _
  cases op with
  | advanceClock now => exact hclock now
  | nextReady now =>
      obtain hnone | ⟨peer, delivery, since, -, hroom, hget, hready, hsome⟩ :=
        handoff.nextReady_cases now
      · rw [perform, hnone]
        exact h
      · rw [perform, hsome]
        have hreplace := HashMap.total_replace (·.state.isInFlight.toNat) hget
          ⟨delivery.attempts + 1, .inFlight (min (now + attemptWindow) handoff.deadline)⟩
        have hgrounded : delivery.state.isInFlight.toNat = 0 := by
          rw [hready]
          rfl
        have hflies : (DeliveryState.inFlight
            (min (now + attemptWindow) handoff.deadline)).isInFlight.toNat = 1 := rfl
        unfold inFlightCount at hroom ⊢
        dsimp only at hreplace ⊢
        omega
  | resolve target outcome now =>
      obtain hnone | ⟨delivery, hget, hflight, hsome⟩ := handoff.resolve_cases target outcome now
      · rw [perform, hnone]
        exact hclock now
      · rw [perform, hsome]
        have hreplace := HashMap.total_replace (·.state.isInFlight.toNat) hget
          (resolveDelivery delivery outcome now)
        have hle := (moves_resolveDelivery hflight outcome now).inFlight_le
        have hbefore := hclock now
        unfold inFlightCount at hbefore ⊢
        dsimp only at hreplace ⊢
        omega

omit [LinearOrder T] in
/-- The numbers of the report add up. -/
lemma report_adds_up (handoff : MutationHandoff T) :
    handoff.report.acknowledged + handoff.report.failed + handoff.report.pending =
      handoff.report.recipients := by
  simp only [report, pending]
  rw [← HashMap.total_add, ← HashMap.total_add, ← HashMap.total_one]
  congr 1
  funext delivery
  cases delivery.state <;> rfl

/-- The deadline ends every delivery. -/
lemma ended_of_advanceClock (hdue : handoff.deadline ≤ now)
    (hget : (handoff.advanceClock now).recipients.get? peer = some delivery) :
    delivery.state.isPending = false := by
  rw [advanceClock, HashMap.get?_mapValues] at hget
  obtain ⟨before, -, rfl⟩ := Option.map_eq_some_iff.mp hget
  rw [advanceDelivery, if_pos hdue]
  by_cases hpending : before.state.isPending = true
  · rw [if_pos hpending]
    rfl
  · rw [if_neg hpending]
    exact Bool.eq_false_iff.mpr hpending

/-- An operation that advances the clock past the deadline leaves nothing pending. -/
lemma perform_ended (hclock : op.clock = some now) (hdue : handoff.deadline ≤ now)
    (hget : (handoff.perform op).2.recipients.get? peer = some delivery) :
    delivery.state.isPending = false := by
  cases op with
  | nextReady _ => cases hclock
  | advanceClock _ =>
      cases hclock
      exact ended_of_advanceClock hdue hget
  | resolve target outcome _ =>
      cases hclock
      obtain hnone | ⟨resolved, htarget, hflight, -⟩ := handoff.resolve_cases target outcome now
      · rw [perform, hnone] at hget
        exact ended_of_advanceClock hdue hget
      · -- nothing is in flight after the deadline, so there is nothing to resolve
        exact absurd ((isPending_of_isInFlight hflight).symm.trans (ended_of_advanceClock hdue htarget))
          (by decide)

/-! ## Runs -/

/-- What holds in every run: the attempts made so far are the ones counted in the deliveries. -/
structure Bounded (attempted : List T) (handoff : MutationHandoff T) : Prop where
  inFlight : handoff.inFlightCount ≤ maxInFlight
  within : ∀ peer delivery, handoff.recipients.get? peer = some delivery → Within delivery
  counted : ∀ peer, attempted.count peer =
    ((handoff.recipients.get? peer).map (·.attempts)).getD 0

variable {attempted : List T}

lemma Bounded.perform (h : Bounded attempted handoff) (op : HandoffOp T) :
    Bounded (attempted ++ (handoff.perform op).1.toList) (handoff.perform op).2 where
  inFlight := perform_inFlightCount h.inFlight
  within peer delivery' hget' := by
    cases hget : handoff.recipients.get? peer with
    | none =>
        rw [perform_get?_none hget] at hget'
        cases hget'
    | some delivery =>
        obtain ⟨moved, hmoved, hmoves⟩ := perform_get?_some op hget
        obtain rfl : moved = delivery' := Option.some.inj (hmoved.symm.trans hget')
        exact hmoves.within (h.within peer delivery hget)
  counted peer := by
    rw [List.count_append, h.counted peer]
    have hone : (handoff.perform op).1.toList.count peer =
        (decide ((handoff.perform op).1 = some peer)).toNat := by
      cases (handoff.perform op).1 with
      | none => rfl
      | some chosen =>
          by_cases heq : chosen = peer
          · simp [heq]
          · simp [heq]
    rw [hone]
    cases hget : handoff.recipients.get? peer with
    | none =>
        have hnot : ¬(handoff.perform op).1 = some peer := fun hchosen => by
          obtain ⟨_, _, _, -, -, hsome, -⟩ := perform_eq_some hchosen
          exact absurd (hget.symm.trans hsome) (by simp)
        rw [perform_get?_none hget, decide_eq_false hnot]
        rfl
    | some delivery =>
        obtain ⟨moved, hmoved, hmoves⟩ := perform_get?_some op hget
        rw [hmoved]
        exact (Nat.add_comm _ _).trans hmoves.attempts_eq.symm

lemma Bounded.run (h : Bounded attempted handoff) (ops : List (HandoffOp T)) :
    Bounded (attempted ++ (handoff.run ops).1) (handoff.run ops).2 := by
  induction ops generalizing handoff attempted with
  | nil => simpa only [MutationHandoff.run, List.append_nil] using h
  | cons op ops ih => simpa only [MutationHandoff.run, List.append_assoc] using ih (h.perform op)

lemma run_ended (hget : handoff.recipients.get? peer = some delivery)
    (hended : delivery.state.isPending = false) (ops : List (HandoffOp T)) :
    (handoff.run ops).2.recipients.get? peer = some delivery := by
  induction ops generalizing handoff with
  | nil => exact hget
  | cons op ops ih =>
      obtain ⟨moved, hmoved, hmoves⟩ := perform_get?_some op hget
      rw [hmoves.eq_of_ended hended] at hmoved
      exact ih hmoved

lemma run_deadline (handoff : MutationHandoff T) (ops : List (HandoffOp T)) :
    (handoff.run ops).2.deadline = handoff.deadline := by
  induction ops generalizing handoff with
  | nil => rfl
  | cons op ops ih => exact (ih _).trans (handoff.perform_deadline op)

lemma run_keys (handoff : MutationHandoff T) (ops : List (HandoffOp T)) :
    (handoff.run ops).2.recipients.keys = handoff.recipients.keys := by
  induction ops generalizing handoff with
  | nil => rfl
  | cons op ops ih => exact (ih _).trans (handoff.perform_keys op)

/-- Once the clock has passed the deadline, every delivery has ended. -/
lemma run_pending_eq_zero {ops : List (HandoffOp T)} (hop : op ∈ ops) (hclock : op.clock = some now)
    (hdue : handoff.deadline ≤ now) :
    (handoff.run ops).2.pending = 0 := by
  induction ops generalizing handoff with
  | nil => cases hop
  | cons first ops ih =>
      rcases List.mem_cons.mp hop with rfl | hlater
      · refine HashMap.total_eq_zero fun peer delivery hget => ?_
        -- the delivery is the one that has ended with this operation
        obtain ⟨before, hbefore⟩ := HashMap.mem_keys.mp
          (run_keys (handoff.perform op).2 ops ▸ HashMap.mem_keys.mpr ⟨delivery, hget⟩)
        have hended := perform_ended hclock hdue hbefore
        have hstays := run_ended hbefore hended ops
        obtain rfl : before = delivery := Option.some.inj (hstays.symm.trans hget)
        rw [hended]
        rfl
      · exact ih hlater ((handoff.perform_deadline first).trans_le hdue)

/-! ## The beginning -/

lemma addRecipient_eq_ok {table table' : HashMap T Delivery}
    (h : addRecipient now table peer = .ok table') :
    table' = table.insert peer ⟨0, .ready now⟩ := by
  unfold addRecipient at h
  split at h
  · cases h
  · exact (Except.ok.inj h).symm

lemma keys_of_addRecipients {peers : List T} {table table' : HashMap T Delivery}
    (h : peers.foldlM (addRecipient now) table = .ok table') :
    table'.keys = table.keys ∪ peers.toFinset := by
  induction peers generalizing table with
  | nil =>
      cases h
      simp
  | cons peer peers ih =>
      obtain ⟨next, hnext, hlater⟩ := foldlM_cons_eq_ok.mp h
      rw [ih hlater, addRecipient_eq_ok hnext]
      ext key
      simp only [Finset.mem_union, HashMap.mem_keys, HashMap.get?_insert, List.toFinset_cons,
        Finset.mem_insert]
      by_cases heq : key = peer <;> simp [heq]

/-- The recipients of a new handoff are those given to it, and none has been attempted. -/
lemma new_eq_ok {mutation : SignedMembershipMutation} {expected : CheckpointBoundary}
    {recipients : List T}
    (hnew : MutationHandoff.new mutation expected recipients now = .ok handoff) :
    handoff.deadline = now + handoffWindow ∧ handoff.recipients.keys = recipients.toFinset ∧
      ∀ peer delivery, handoff.recipients.get? peer = some delivery → delivery = ⟨0, .ready now⟩ := by
  obtain ⟨table, htable, hrest⟩ := bind_eq_ok.mp hnew
  obtain ⟨-, -, hpure⟩ := bind_eq_ok.mp hrest
  cases hpure
  refine ⟨rfl, ?_, ?_⟩
  · rw [keys_of_addRecipients htable]
    ext key
    simp
  · have hstep : ∀ peer ∈ recipients, ∀ table table' : HashMap T Delivery,
        (∀ key delivery, table.get? key = some delivery → delivery = ⟨0, .ready now⟩) →
        addRecipient now table peer = .ok table' →
        ∀ key delivery, table'.get? key = some delivery → delivery = ⟨0, .ready now⟩ := by
      intro peer _ table table' hall hadded key delivery hget
      rw [addRecipient_eq_ok hadded, HashMap.get?_insert] at hget
      split at hget
      · exact (Option.some.inj hget).symm
      · exact hall key delivery hget
    refine foldlM_invariant hstep ?_ htable
    intro peer delivery hget
    rw [HashMap.get?_empty] at hget
    cases hget

lemma bounded_of_new {mutation : SignedMembershipMutation} {expected : CheckpointBoundary}
    {recipients : List T}
    (hnew : MutationHandoff.new mutation expected recipients now = .ok handoff) :
    Bounded [] handoff := by
  obtain ⟨-, -, hready⟩ := new_eq_ok hnew
  refine ⟨?_, ?_, ?_⟩
  · refine (HashMap.total_eq_zero fun peer delivery hget => ?_).trans_le (Nat.zero_le _)
    rw [hready peer delivery hget]
    rfl
  · intro peer delivery hget
    rw [hready peer delivery hget]
    exact ⟨Nat.zero_le _, fun _ _ => Nat.zero_lt_succ _⟩
  · intro peer
    cases hget : handoff.recipients.get? peer with
    | none => rfl
    | some delivery =>
        rw [hready peer delivery hget]
        rfl

/-- **Bounded delivery.**  In every run of a handoff that begins, at whatever times its operations are
called: the numbers of the report add up to the recipients it began with, no more than `maxInFlight`
deliveries are in flight, nobody is attempted more than `maxAttempts` times, a delivery that has ended
stays as it is, a peer is attempted only before the deadline and when it is not in flight, and nothing
is pending once the clock has been advanced to the deadline. -/
theorem handoff_bounded {mutation : SignedMembershipMutation} {expected : CheckpointBoundary}
    {recipients : List T} {now : ℕ} {start : MutationHandoff T}
    (hnew : MutationHandoff.new mutation expected recipients now = .ok start)
    (ops : List (HandoffOp T)) :
    (start.run ops).2.report.acknowledged + (start.run ops).2.report.failed +
        (start.run ops).2.report.pending = recipients.toFinset.card ∧
      (start.run ops).2.report.recipients = recipients.toFinset.card ∧
      (start.run ops).2.inFlightCount ≤ maxInFlight ∧
      (∀ peer, (start.run ops).1.count peer ≤ maxAttempts) ∧
      (∀ peer delivery, (start.run ops).2.recipients.get? peer = some delivery →
        delivery.state = .acknowledged ∨ delivery.state = .failed →
        ∀ later, ((start.run ops).2.run later).2.recipients.get? peer = some delivery) ∧
      (∀ time peer, ((start.run ops).2.nextReady time).1 = some peer →
        time < now + handoffWindow ∧ (start.run ops).2.isInFlight peer = false) ∧
      (∀ op ∈ ops, ∀ time, op.clock = some time → now + handoffWindow ≤ time →
        (start.run ops).2.report.pending = 0) := by
  obtain ⟨hdeadline, hkeys, -⟩ := new_eq_ok hnew
  have hbounded := (bounded_of_new hnew).run ops
  have hrecipients : (start.run ops).2.report.recipients = recipients.toFinset.card := by
    rw [report, run_keys, hkeys]
  refine ⟨(report_adds_up _).trans hrecipients, hrecipients, hbounded.inFlight, ?_, ?_, ?_, ?_⟩
  · intro peer
    rw [← List.nil_append (start.run ops).1, hbounded.counted peer]
    cases hget : (start.run ops).2.recipients.get? peer with
    | none => exact Nat.zero_le _
    | some delivery => exact (hbounded.within peer delivery hget).attempts
  · intro peer delivery hget hended later
    refine run_ended hget ?_ later
    rcases hended with hended | hended <;> rw [hended] <;> rfl
  · intro time peer hchosen
    have hperform : ((start.run ops).2.perform (.nextReady time)).1 = some peer := hchosen
    obtain ⟨_, delivery, since, hop, hearly, hget, hready⟩ := perform_eq_some hperform
    cases hop
    rw [run_deadline, hdeadline] at hearly
    refine ⟨hearly, ?_⟩
    rw [isInFlight, hget, Option.any_some, hready]
    rfl
  · intro op hop time hclock hdue
    exact run_pending_eq_zero hop hclock (hdeadline.trans_le hdue)

/-- One of two recipients acknowledges; the other is attempted until the deadline. -/
def sampleOps : List (HandoffOp ℕ) :=
  [.nextReady 0, .resolve 1 .acknowledged 1, .nextReady 2, .advanceClock handoffWindow]

theorem handoff_bounded_sampleOps :
    ∃ start : MutationHandoff ℕ,
      MutationHandoff.new sampleMutation ⟨1, 5⟩ [1, 2, 1] 0 = .ok start ∧
      (start.run sampleOps).1 = [1, 2] ∧ (start.run sampleOps).2.report = ⟨2, 1, 1, 0, 2⟩ ∧
      (start.run sampleOps).2.inFlightCount ≤ maxInFlight := by
  have hnew : MutationHandoff.new sampleMutation ⟨1, 5⟩ [1, 2, 1] 0 = .ok ⟨sampleMutation, ⟨1, 5⟩,
      ((HashMap.insert ∅ 1 ⟨0, .ready 0⟩).insert 2 ⟨0, .ready 0⟩).insert 1 ⟨0, .ready 0⟩,
      0 + handoffWindow⟩ := rfl
  exact ⟨_, hnew, by decide +kernel, by decide +kernel, (handoff_bounded hnew sampleOps).2.2.1⟩

end MutationHandoff

end P2pVpn.Runtime
