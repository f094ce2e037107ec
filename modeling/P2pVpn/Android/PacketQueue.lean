/-
# The packet queue between the TUN device and a network

A queue is shared by its writers and its reader, and every operation on it runs under its lock.  A
writer may first reserve space for a packet, do its work, and commit the packet later; the reservation
is a value that the writer holds, and space is given back when the value is dropped without a commit.

So an execution is any sequence of operations on the shared state, together with the reservations
that are held at each moment (`Shared`).  The counters of the queue say what is queued and what is
reserved, and what is reserved is there when it is committed (`reservation_guarantees_space`).

The sums in the checks saturate at the greatest `usize`.
-/
import Mathlib.Algebra.BigOperators.Group.List.Basic
import Mathlib.Algebra.Order.Ring.Nat
import Mathlib.Data.List.Basic
import Mathlib.Data.List.Induction

namespace P2pVpn.Android

structure QueueLimits where
  maxPackets : ℕ
  maxBytes : ℕ
  deriving DecidableEq, Repr

def QueueLimits.default : QueueLimits := ⟨256, 1024 * 1024⟩

inductive QueuePush where
  | queued
  | full
  | oversized
  | closed
  | reservationMismatch
  deriving DecidableEq, Repr

structure PacketQueueState where
  packets : List (List UInt8)
  bytes : ℕ
  reservedPackets : ℕ
  reservedBytes : ℕ
  closed : Bool
  deriving DecidableEq, Repr

structure QueueReservation where
  packetLen : ℕ
  active : Bool
  deriving DecidableEq, Repr

/-- What `pop_into` does once it has the lock. -/
inductive PopInto where
  | copied (packet : List UInt8)
  | tooLarge
  | closed
  | waits
  deriving DecidableEq, Repr

def PacketQueueState.default : PacketQueueState := ⟨[], 0, 0, 0, false⟩

section Operations

variable (usizeMax : ℕ) (limits : QueueLimits)

def saturatingAdd (a b : ℕ) : ℕ := min (a + b) usizeMax

namespace PacketQueueState

variable (state : PacketQueueState)

/-- The test that `reserve` and `push` make. -/
def isFull (packetLen : ℕ) : Bool :=
  limits.maxPackets ≤ saturatingAdd usizeMax state.packets.length state.reservedPackets ||
    limits.maxBytes < saturatingAdd usizeMax
      (saturatingAdd usizeMax state.bytes state.reservedBytes) packetLen

def enqueue (packet : List UInt8) : PacketQueueState :=
  { state with bytes := state.bytes + packet.length, packets := state.packets ++ [packet] }

def reserve (packetLen : ℕ) : Except QueuePush QueueReservation × PacketQueueState :=
  if limits.maxBytes < packetLen then (.error .oversized, state)
  else if state.closed then (.error .closed, state)
  else if state.isFull usizeMax limits packetLen then (.error .full, state)
  else (.ok ⟨packetLen, true⟩,
    { state with
      reservedPackets := state.reservedPackets + 1
      reservedBytes := state.reservedBytes + packetLen })

def push (packet : List UInt8) : QueuePush × PacketQueueState :=
  if limits.maxBytes < packet.length then (.oversized, state)
  else if state.closed then (.closed, state)
  else if state.isFull usizeMax limits packet.length then (.full, state)
  else (.queued, state.enqueue packet)

def closeAndDiscard : ℕ × PacketQueueState :=
  (state.packets.length, { state with closed := true, packets := [], bytes := 0 })

def release (packetLen : ℕ) : PacketQueueState :=
  { state with
    reservedPackets := state.reservedPackets - 1
    reservedBytes := state.reservedBytes - packetLen }

def tryPop : Option (List UInt8) × PacketQueueState :=
  match state.packets with
  | [] => (none, state)
  | packet :: packets =>
      (some packet, { state with packets, bytes := state.bytes - packet.length })

/-- One turn of the loop of `pop_into`, with a buffer of the given length. -/
def popInto (bufferLen : ℕ) : PopInto × PacketQueueState :=
  match state.tryPop with
  | (some packet, state) =>
      (if bufferLen < packet.length then .tooLarge else .copied packet, state)
  | (none, state) => (if state.closed then .closed else .waits, state)

end PacketQueueState

namespace QueueReservation

/-- `QueueReservation::commit`, up to its end, where the reservation is dropped. -/
def commit (reservation : QueueReservation) (packet : List UInt8) (state : PacketQueueState) :
    QueuePush × QueueReservation × PacketQueueState :=
  let state := state.release reservation.packetLen
  let reservation := { reservation with active := false }
  if packet.length ≠ reservation.packetLen then (.reservationMismatch, reservation, state)
  else if state.closed then (.closed, reservation, state)
  else if limits.maxPackets ≤ state.packets.length ∨
      limits.maxBytes < saturatingAdd usizeMax state.bytes packet.length then
    (.full, reservation, state)
  else (.queued, reservation, state.enqueue packet)

def drop (reservation : QueueReservation) (state : PacketQueueState) : PacketQueueState :=
  if reservation.active then state.release reservation.packetLen else state

end QueueReservation

/-! ## Executions -/

/-- The state of the queue, and the reservations that are held. -/
structure Shared where
  state : PacketQueueState
  held : List QueueReservation

inductive QueueEvent where
  | reserve (packetLen : ℕ)
  /-- A writer commits a packet with one of the reservations. -/
  | commit (index : ℕ) (packet : List UInt8)
  | drop (index : ℕ)
  | push (packet : List UInt8)
  | tryPop
  | popInto (bufferLen : ℕ)
  | closeAndDiscard

def Shared.step (s : Shared) : QueueEvent → Shared
  | .reserve packetLen =>
      match s.state.reserve usizeMax limits packetLen with
      | (.ok reservation, state) => ⟨state, s.held ++ [reservation]⟩
      | (.error _, state) => ⟨state, s.held⟩
  | .commit index packet =>
      match s.held[index]? with
      | none => s
      | some reservation =>
          let (_, reservation, state) := reservation.commit usizeMax limits packet s.state
          ⟨reservation.drop state, s.held.eraseIdx index⟩
  | .drop index =>
      match s.held[index]? with
      | none => s
      | some reservation => ⟨reservation.drop s.state, s.held.eraseIdx index⟩
  | .push packet => ⟨(s.state.push usizeMax limits packet).2, s.held⟩
  | .tryPop => ⟨s.state.tryPop.2, s.held⟩
  | .popInto bufferLen => ⟨(s.state.popInto bufferLen).2, s.held⟩
  | .closeAndDiscard => ⟨s.state.closeAndDiscard.2, s.held⟩

def Shared.after (events : List QueueEvent) : Shared :=
  events.foldl (Shared.step usizeMax limits) ⟨.default, []⟩

end Operations

/-- The limits are values of `usize`, and the sum of bytes is not cut off before it exceeds its
limit. -/
structure QueueLimits.Fit (usizeMax : ℕ) (limits : QueueLimits) : Prop where
  packets : limits.maxPackets ≤ usizeMax
  bytes : limits.maxBytes < usizeMax

/-! ## What the counters say -/

/-- The bytes of some packets, and those of some reservations. -/
def bytesOf (packets : List (List UInt8)) : ℕ := (packets.map List.length).sum

def reservedOf (held : List QueueReservation) : ℕ := (held.map QueueReservation.packetLen).sum

/-- The counters say what is queued and what is held, and there is room for all of it. -/
structure Shared.Sound (limits : QueueLimits) (s : Shared) : Prop where
  bytes : s.state.bytes = bytesOf s.state.packets
  reservedPackets : s.state.reservedPackets = s.held.length
  reservedBytes : s.state.reservedBytes = reservedOf s.held
  active : ∀ reservation ∈ s.held, reservation.active = true
  packets_le : s.state.packets.length + s.state.reservedPackets ≤ limits.maxPackets
  bytes_le : s.state.bytes + s.state.reservedBytes ≤ limits.maxBytes

section Sound

variable {usizeMax : ℕ} {limits : QueueLimits} {s : Shared}

lemma Shared.sound_start (limits : QueueLimits) : Shared.Sound limits ⟨.default, []⟩ :=
  ⟨rfl, rfl, rfl, by simp, Nat.zero_le _, Nat.zero_le _⟩

lemma bytesOf_append (packets : List (List UInt8)) (packet : List UInt8) :
    bytesOf (packets ++ [packet]) = bytesOf packets + packet.length := by
  simp [bytesOf]

variable {state : PacketQueueState} {reservation : QueueReservation}

/-- Where the sums may saturate, a queue that is not full has room. -/
lemma room_of_not_full {packetLen : ℕ} (hfit : limits.Fit usizeMax)
    (hfull : state.isFull usizeMax limits packetLen = false) :
    state.packets.length + state.reservedPackets < limits.maxPackets ∧
      state.bytes + state.reservedBytes + packetLen ≤ limits.maxBytes := by
  obtain ⟨hpackets, hbytes⟩ := hfit
  rw [PacketQueueState.isFull, Bool.or_eq_false_iff, decide_eq_false_iff_not,
    decide_eq_false_iff_not, Nat.not_le, Nat.not_lt] at hfull
  simp only [saturatingAdd] at hfull
  omega

/-- A reservation that is held, and the others. -/
lemma held_split {held : List QueueReservation} {index : ℕ} (hget : held[index]? = some reservation) :
    held.length = (held.eraseIdx index).length + 1 ∧
      reservedOf held = reservedOf (held.eraseIdx index) + reservation.packetLen ∧
      reservation ∈ held := by
  obtain ⟨hlt, rfl⟩ := List.getElem?_eq_some_iff.mp hget
  refine ⟨by rw [List.length_eraseIdx_of_lt hlt]; omega, ?_, List.getElem_mem hlt⟩
  have hsum := (List.getElem_cons_eraseIdx_perm hlt).map QueueReservation.packetLen
  rw [reservedOf, reservedOf, ← hsum.sum_eq, List.map_cons, List.sum_cons, Nat.add_comm]

/-- When a reservation is given back, there is room for what was reserved beside the others. -/
lemma Shared.Sound.release (hsound : s.Sound limits) {index : ℕ}
    (hget : s.held[index]? = some reservation)
    (hstate : s.state.release reservation.packetLen = state) :
    Shared.Sound limits ⟨state, s.held.eraseIdx index⟩ ∧
      state.packets.length + state.reservedPackets < limits.maxPackets ∧
      state.bytes + state.reservedBytes + reservation.packetLen ≤ limits.maxBytes := by
  obtain ⟨hlength, hreserved, -⟩ := held_split hget
  obtain ⟨hbytes, hpackets, hreservedBytes, hactive, hroom, hroomBytes⟩ := hsound
  subst hstate
  refine ⟨⟨hbytes, ?_, ?_, fun other hother => hactive other (List.mem_of_mem_eraseIdx hother),
    ?_, ?_⟩, ?_, ?_⟩
  all_goals
    simp only [PacketQueueState.release]
    omega

/-- What a commit does: a packet of the reserved length is queued, unless the queue is closed. -/
lemma Shared.Sound.commit_eq (hsound : s.Sound limits) (hfit : limits.Fit usizeMax) {index : ℕ}
    (hget : s.held[index]? = some reservation) {packet : List UInt8}
    (hlen : packet.length = reservation.packetLen) :
    reservation.commit usizeMax limits packet s.state
      = if s.state.closed then
          (.closed, { reservation with active := false }, s.state.release reservation.packetLen)
        else (.queued, { reservation with active := false },
          (s.state.release reservation.packetLen).enqueue packet) := by
  obtain ⟨-, hroom, hroomBytes⟩ := hsound.release hget rfl
  have hbytes := hfit.bytes
  have hnot : ¬ (limits.maxPackets ≤ (s.state.release reservation.packetLen).packets.length ∨
      limits.maxBytes < saturatingAdd usizeMax (s.state.release reservation.packetLen).bytes
        reservation.packetLen) := by
    rw [not_or, saturatingAdd]
    omega
  simp only [QueueReservation.commit, hlen, ne_eq, not_true_eq_false, if_false, if_neg hnot]
  rfl

/-- A packet for which there is room. -/
lemma Shared.Sound.enqueue {held : List QueueReservation}
    (hsound : Shared.Sound limits ⟨state, held⟩) {packet : List UInt8}
    (hroom : state.packets.length + state.reservedPackets < limits.maxPackets)
    (hroomBytes : state.bytes + state.reservedBytes + packet.length ≤ limits.maxBytes) :
    Shared.Sound limits ⟨state.enqueue packet, held⟩ := by
  obtain ⟨hbytes, hpackets, hreservedBytes, hactive, -, -⟩ := hsound
  refine ⟨?_, hpackets, hreservedBytes, hactive, ?_, ?_⟩
  · simp only [PacketQueueState.enqueue, bytesOf_append] at hbytes ⊢
    omega
  · simp only [PacketQueueState.enqueue, List.length_append, List.length_singleton]
    omega
  · simp only [PacketQueueState.enqueue]
    omega

lemma Shared.Sound.tryPop (hsound : s.Sound limits) :
    Shared.Sound limits ⟨s.state.tryPop.2, s.held⟩ := by
  obtain ⟨hbytes, hpackets, hreservedBytes, hactive, hroom, hroomBytes⟩ := hsound
  cases hqueue : s.state.packets with
  | nil =>
    simp only [PacketQueueState.tryPop, hqueue]
    exact ⟨hbytes, hpackets, hreservedBytes, hactive, hroom, hroomBytes⟩
  | cons packet packets =>
    rw [hqueue, bytesOf, List.map_cons, List.sum_cons, ← bytesOf] at hbytes
    rw [hqueue, List.length_cons] at hroom
    simp only [PacketQueueState.tryPop, hqueue]
    refine ⟨?_, hpackets, hreservedBytes, hactive, ?_, ?_⟩
    all_goals
      simp only
      omega

lemma popInto_snd (state : PacketQueueState) (bufferLen : ℕ) :
    (state.popInto bufferLen).2 = state.tryPop.2 := by
  unfold PacketQueueState.popInto
  split
  · rename_i heq
    rw [heq]
  · rename_i heq
    rw [heq]

lemma Shared.Sound.step (hsound : s.Sound limits) (hfit : limits.Fit usizeMax)
    (event : QueueEvent) : (s.step usizeMax limits event).Sound limits := by
  cases event with
  | reserve packetLen =>
    simp only [Shared.step, PacketQueueState.reserve]
    by_cases hoversized : limits.maxBytes < packetLen
    · simpa only [if_pos hoversized] using hsound
    by_cases hclosed : s.state.closed = true
    · simpa only [if_neg hoversized, if_pos hclosed] using hsound
    by_cases hfull : s.state.isFull usizeMax limits packetLen = true
    · simpa only [if_neg hoversized, if_neg hclosed, if_pos hfull] using hsound
    obtain ⟨hroom, hroomBytes⟩ := room_of_not_full hfit (Bool.eq_false_iff.mpr hfull)
    obtain ⟨hbytes, hpackets, hreservedBytes, hactive, -, -⟩ := hsound
    simp only [if_neg hoversized, if_neg hclosed, if_neg hfull]
    refine ⟨hbytes, ?_, ?_, ?_, ?_, ?_⟩
    · simp only [List.length_append, List.length_singleton, hpackets]
    · simp only [reservedOf, List.map_append, List.sum_append, List.map_singleton, List.sum_singleton,
        hreservedBytes]
    · intro reservation hmem
      rcases List.mem_append.mp hmem with hmem | hmem
      · exact hactive reservation hmem
      · rw [List.mem_singleton.mp hmem]
    · simp only
      omega
    · simp only
      omega
  | commit index packet =>
    cases hget : s.held[index]? with
    | none => simpa only [Shared.step, hget] using hsound
    | some reservation =>
      obtain ⟨hreleased, hroom, hroomBytes⟩ := hsound.release hget rfl
      by_cases hlen : packet.length = reservation.packetLen
      · simp only [Shared.step, hget, hsound.commit_eq hfit hget hlen]
        split_ifs with hclosed
        · exact hreleased
        · exact hreleased.enqueue hroom (hlen ▸ hroomBytes)
      · have hmismatch : reservation.commit usizeMax limits packet s.state
            = (.reservationMismatch, { reservation with active := false },
              s.state.release reservation.packetLen) := by
          simp only [QueueReservation.commit, ne_eq, hlen, not_false_eq_true, if_true]
        simp only [Shared.step, hget, hmismatch]
        exact hreleased
  | drop index =>
    cases hget : s.held[index]? with
    | none => simpa only [Shared.step, hget] using hsound
    | some reservation =>
      obtain ⟨-, -, hmem⟩ := held_split hget
      simp only [Shared.step, hget, QueueReservation.drop, hsound.active reservation hmem, if_true]
      exact (hsound.release hget rfl).1
  | push packet =>
    simp only [Shared.step, PacketQueueState.push]
    split_ifs with hoversized hclosed hfull
    · exact hsound
    · exact hsound
    · exact hsound
    · obtain ⟨hroom, hroomBytes⟩ := room_of_not_full hfit (Bool.eq_false_iff.mpr hfull)
      exact hsound.enqueue hroom hroomBytes
  | tryPop => exact hsound.tryPop
  | popInto bufferLen =>
    simp only [Shared.step, popInto_snd]
    exact hsound.tryPop
  | closeAndDiscard =>
    obtain ⟨-, hpackets, hreservedBytes, hactive, hroom, hroomBytes⟩ := hsound
    refine ⟨rfl, hpackets, hreservedBytes, hactive, ?_, ?_⟩
    all_goals
      simp only [Shared.step, PacketQueueState.closeAndDiscard, List.length_nil]
      omega

lemma sound_after (hfit : limits.Fit usizeMax) (events : List QueueEvent) :
    (Shared.after usizeMax limits events).Sound limits := by
  have hrun : ∀ s : Shared, s.Sound limits →
      (events.foldl (Shared.step usizeMax limits) s).Sound limits := by
    induction events with
    | nil => exact fun s hsound => hsound
    | cons event events ih => exact fun s hsound => ih _ (hsound.step hfit event)
  exact hrun _ (Shared.sound_start limits)

/-! ## When a queue is closed -/

lemma commit_closed (reservation : QueueReservation) (packet : List UInt8)
    (state : PacketQueueState) :
    (reservation.commit usizeMax limits packet state).2.2.closed = state.closed := by
  simp only [QueueReservation.commit]
  split_ifs
  all_goals rfl

lemma drop_closed (reservation : QueueReservation) (state : PacketQueueState) :
    (reservation.drop state).closed = state.closed := by
  unfold QueueReservation.drop
  split
  · rfl
  · rfl

lemma tryPop_closed (state : PacketQueueState) : state.tryPop.2.closed = state.closed := by
  unfold PacketQueueState.tryPop
  split
  · rfl
  · rfl

/-- Only closing closes the queue, and nothing opens it again. -/
lemma Shared.step_closed (s : Shared) (event : QueueEvent) :
    (s.step usizeMax limits event).state.closed = true
      ↔ s.state.closed = true ∨ event = .closeAndDiscard := by
  cases event with
  | reserve packetLen =>
    simp only [Shared.step, PacketQueueState.reserve]
    split_ifs
    all_goals simp
  | commit index packet =>
    cases hget : s.held[index]? with
    | none => simp [Shared.step, hget]
    | some reservation => simp [Shared.step, hget, drop_closed, commit_closed]
  | drop index =>
    cases hget : s.held[index]? with
    | none => simp [Shared.step, hget]
    | some reservation => simp [Shared.step, hget, drop_closed]
  | push packet =>
    simp only [Shared.step, PacketQueueState.push]
    split_ifs
    all_goals simp [PacketQueueState.enqueue]
  | tryPop => simp [Shared.step, tryPop_closed]
  | popInto bufferLen => simp [Shared.step, popInto_snd, tryPop_closed]
  | closeAndDiscard => simp [Shared.step, PacketQueueState.closeAndDiscard]

lemma closed_after (events : List QueueEvent) :
    (Shared.after usizeMax limits events).state.closed = true
      ↔ QueueEvent.closeAndDiscard ∈ events := by
  induction events using List.reverseRecOn with
  | nil => simp [Shared.after, PacketQueueState.default]
  | append_singleton events event ih =>
    rw [Shared.after, List.foldl_concat, ← Shared.after, Shared.step_closed, ih, List.mem_append,
      List.mem_singleton, eq_comm]

/-- **A reservation guarantees space.**  In every interleaving of operations, the counters say what is
queued and what is held and stay within the limits, the queue counts as closed exactly if one of the
operations closed it, and a packet of the reserved length is queued when it is committed, or the queue
is closed. -/
theorem reservation_guarantees_space (usizeMax : ℕ) (limits : QueueLimits)
    (hfit : limits.Fit usizeMax) (events : List QueueEvent) {s : Shared}
    (hs : s = Shared.after usizeMax limits events) :
    s.state.packets.length + s.state.reservedPackets ≤ limits.maxPackets ∧
      s.state.bytes + s.state.reservedBytes ≤ limits.maxBytes ∧
      s.state.bytes = (s.state.packets.map List.length).sum ∧
      s.state.reservedPackets = s.held.length ∧
      s.state.reservedBytes = (s.held.map QueueReservation.packetLen).sum ∧
      (s.state.closed = true ↔ QueueEvent.closeAndDiscard ∈ events) ∧
      ∀ (index : ℕ) (reservation : QueueReservation), s.held[index]? = some reservation →
        ∀ packet : List UInt8, packet.length = reservation.packetLen →
          ((reservation.commit usizeMax limits packet s.state).1
              = if s.state.closed then .closed else .queued) ∧
            (s.step usizeMax limits (.commit index packet)).state.packets
              = if s.state.closed then s.state.packets else s.state.packets ++ [packet] := by
  have hsound := sound_after hfit events
  rw [← hs] at hsound
  refine ⟨hsound.packets_le, hsound.bytes_le, hsound.bytes, hsound.reservedPackets,
    hsound.reservedBytes, hs ▸ closed_after events, fun index reservation hget packet hlen => ?_⟩
  simp only [Shared.step, hget, hsound.commit_eq hfit hget hlen]
  split_ifs with hclosed
  · exact ⟨rfl, rfl⟩
  · exact ⟨rfl, rfl⟩

/-- A reservation takes the last place, so a packet that is pushed meanwhile is refused and the packet
it was made for is queued.  Had the queue been closed meanwhile, the commit would have been told so. -/
theorem sample_reserved_place :
    (Shared.after 1000 ⟨1, 64⟩ [.reserve 2, .push [0]]).state.packets = [] ∧
      ((⟨2, true⟩ : QueueReservation).commit 1000 ⟨1, 64⟩ [7, 8]
        (Shared.after 1000 ⟨1, 64⟩ [.reserve 2, .push [0]]).state).1 = .queued ∧
      ((⟨2, true⟩ : QueueReservation).commit 1000 ⟨1, 64⟩ [7, 8]
        (Shared.after 1000 ⟨1, 64⟩ [.reserve 2, .closeAndDiscard, .push [0]]).state).1
          = .closed := by
  obtain ⟨-, -, -, -, -, -, hopen⟩ := reservation_guarantees_space 1000 ⟨1, 64⟩
    ⟨by decide, by decide⟩ [.reserve 2, .push [0]] rfl
  obtain ⟨-, -, -, -, -, hclosed, hcommit⟩ := reservation_guarantees_space 1000 ⟨1, 64⟩
    ⟨by decide, by decide⟩ [.reserve 2, .closeAndDiscard, .push [0]] rfl
  refine ⟨rfl, (hopen 0 ⟨2, true⟩ rfl [7, 8] rfl).1, ?_⟩
  rw [(hcommit 0 ⟨2, true⟩ rfl [7, 8] rfl).1, if_pos (hclosed.mpr (by simp))]

end Sound

end P2pVpn.Android
