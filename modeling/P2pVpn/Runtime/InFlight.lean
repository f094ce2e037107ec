/-
# Packets in flight

For every request that was sent and not answered, the runtime remembers its peer and flow shard.
Beside these records it keeps counters: for each peer the number of its requests, and for each of its
shards the number of the requests in that shard.  A request that is answered, late or twice, or that
expires, is taken off all of them.  Subtraction saturates, so an answer too many could go unnoticed.

The calls alone say which requests are outstanding: those recorded and not completed, expired or
cleared since (`outstandingAfter`).  `in_flight_accounting_exact` says that records and counters agree
with them, and that whether a packet may be sent depends on nothing else.
-/
import P2pVpn.Lib.HashMap
import P2pVpn.Path.PathSet
import P2pVpn.Queue.Packet

namespace P2pVpn.InFlight

open Lib P2pVpn.Path Queue

inductive PacketInFlightId where
  | requestResponse (id : ℕ)
  | pinnedPacketStream (id : ℕ)
  deriving DecidableEq, Repr

structure PacketInFlightRequest (Peer : Type) where
  peer : Peer
  shard : ℕ
  path : PathKind
  relayPeer : Option Peer
  sentAt : ℕ
  deriving DecidableEq

structure PeerInFlight where
  total : ℕ
  shards : HashMap ℕ ℕ

namespace PeerInFlight

def default : PeerInFlight := ⟨0, ∅⟩

def inFlightForShard (state : PeerInFlight) (shard : ℕ) : ℕ := (state.shards.get? shard).getD 0

def record (state : PeerInFlight) (shard : ℕ) : PeerInFlight where
  total := state.total + 1
  shards := state.shards.insert shard (state.inFlightForShard shard + 1)

def complete (state : PeerInFlight) (shard : ℕ) : PeerInFlight where
  total := state.total - 1
  shards :=
    match state.shards.get? shard with
    | none => state.shards
    | some count =>
      if count - 1 = 0 then state.shards.remove shard else state.shards.insert shard (count - 1)

end PeerInFlight

structure PacketInFlight (Peer : Type) where
  limitPerPeer : ℕ
  requests : HashMap PacketInFlightId (PacketInFlightRequest Peer)
  peers : HashMap Peer PeerInFlight

section Definitions

variable {Peer Conn : Type} [DecidableEq Peer]

namespace PacketInFlight

def new (limitPerPeer : ℕ) : PacketInFlight Peer := ⟨max limitPerPeer 1, ∅, ∅⟩

variable (s : PacketInFlight Peer)

def inFlightFor (peer : Peer) : ℕ := ((s.peers.get? peer).map PeerInFlight.total).getD 0

def canSend (peer : Peer) : Bool := s.inFlightFor peer < s.limitPerPeer

def canSendPacketWithShardWindow (packet : Packet Peer) (shardWindow : ℕ) : Bool :=
  s.canSend packet.peer &&
    (s.peers.get? packet.peer).all fun state =>
      state.inFlightForShard packet.flowShard < max shardWindow 1

/-- What `record` and `record_path_probe` do with a request. -/
def recordRequest (id : PacketInFlightId) (request : PacketInFlightRequest Peer) : PacketInFlight Peer :=
  { s with
    requests := s.requests.insert id request
    peers := s.peers.insert request.peer
      (((s.peers.get? request.peer).getD .default).record request.shard) }

def record (packet : Packet Peer) (id : PacketInFlightId) (path : PathCandidate Peer Conn) (now : ℕ) :
    PacketInFlight Peer :=
  s.recordRequest id ⟨packet.peer, packet.flowShard, path.kind, path.relayPeer, now⟩

/-- A probe counts for the first shard. -/
def recordPathProbe (peer : Peer) (id : PacketInFlightId) (path : PathCandidate Peer Conn) (now : ℕ) :
    PacketInFlight Peer :=
  s.recordRequest id ⟨peer, 0, path.kind, path.relayPeer, now⟩

def complete (id : PacketInFlightId) : Option (PacketInFlightRequest Peer) × PacketInFlight Peer :=
  match s.requests.get? id with
  | none => (none, s)
  | some request =>
    let requests := s.requests.remove id
    match s.peers.get? request.peer with
    | none => (some request, { s with requests })
    | some state =>
      let state := state.complete request.shard
      (some request,
        { s with
          requests
          peers :=
            if state.total = 0 then s.peers.remove request.peer
            else s.peers.insert request.peer state })

/-- The requests that `expire` completes, in the order of the hash map. -/
def expired (order : KeyOrder PacketInFlightId) (now timeout : ℕ) : List PacketInFlightId :=
  (order.entries s.requests).filterMap fun entry =>
    if timeout < now - entry.2.sentAt then some entry.1 else none

def expire (order : KeyOrder PacketInFlightId) (now timeout : ℕ) : ℕ × PacketInFlight Peer :=
  ((s.expired order now timeout).length,
    (s.expired order now timeout).foldl (fun s id => (s.complete id).2) s)

def clear : ℕ × PacketInFlight Peer := (s.requests.keys.card, { s with requests := ∅, peers := ∅ })

end PacketInFlight

/-! ## Runs -/

inductive InFlightCall (Peer Conn : Type) where
  | record (packet : Packet Peer) (id : PacketInFlightId) (path : PathCandidate Peer Conn) (now : ℕ)
  | recordPathProbe (peer : Peer) (id : PacketInFlightId) (path : PathCandidate Peer Conn) (now : ℕ)
  | complete (id : PacketInFlightId)
  | expire (order : KeyOrder PacketInFlightId) (now timeout : ℕ)
  | clear

namespace InFlightCall

def apply (s : PacketInFlight Peer) : InFlightCall Peer Conn → PacketInFlight Peer
  | record packet id path now => s.record packet id path now
  | recordPathProbe peer id path now => s.recordPathProbe peer id path now
  | complete id => (s.complete id).2
  | expire order now timeout => (s.expire order now timeout).2
  | clear => s.clear.2

/-- The id that a call records. -/
def recorded? : InFlightCall Peer Conn → Option PacketInFlightId
  | record _ id _ _ | recordPathProbe _ id _ _ => some id
  | complete _ | expire _ _ _ | clear => none

end InFlightCall

/-- The outstanding requests after one more call, whatever the tables say. -/
def InFlightCall.note (outstanding : List (PacketInFlightId × PacketInFlightRequest Peer)) :
    InFlightCall Peer Conn → List (PacketInFlightId × PacketInFlightRequest Peer)
  | record packet id path now =>
      (id, ⟨packet.peer, packet.flowShard, path.kind, path.relayPeer, now⟩) :: outstanding
  | recordPathProbe peer id path now => (id, ⟨peer, 0, path.kind, path.relayPeer, now⟩) :: outstanding
  | complete id => outstanding.filter fun entry => entry.1 ≠ id
  | expire _ now timeout => outstanding.filter fun entry => now - entry.2.sentAt ≤ timeout
  | clear => []

/-- The requests that were recorded and not completed, expired or cleared since. -/
def outstandingAfter (calls : List (InFlightCall Peer Conn)) :
    List (PacketInFlightId × PacketInFlightRequest Peer) :=
  calls.foldl InFlightCall.note []

/-- No id is recorded while it is outstanding, as none is if every id is used once. -/
def FreshIds : List (PacketInFlightId × PacketInFlightRequest Peer) →
    List (InFlightCall Peer Conn) → Prop
  | _, [] => True
  | outstanding, call :: calls =>
    (∀ id ∈ call.recorded?, id ∉ outstanding.map Prod.fst) ∧ FreshIds (call.note outstanding) calls

/-- The state after some calls. -/
def after (limitPerPeer : ℕ) (calls : List (InFlightCall Peer Conn)) : PacketInFlight Peer :=
  calls.foldl InFlightCall.apply (.new limitPerPeer)

end Definitions

/-! ## The counters of one peer -/

namespace PeerInFlight

variable {state : PeerInFlight}

/-- The total is the sum of the shards, and no shard is kept without requests. -/
structure Sound (state : PeerInFlight) : Prop where
  total_eq : state.total = state.shards.total id
  shard_pos : ∀ shard count, state.shards.get? shard = some count → 0 < count

lemma sound_default : default.Sound := ⟨rfl, by simp [default]⟩

/-- The counter of all requests, or of those in a shard. -/
def counter (state : PeerInFlight) : Option ℕ → ℕ
  | none => state.total
  | some shard => state.inFlightForShard shard

lemma counter_record (state : PeerInFlight) (shard : ℕ) (which : Option ℕ) :
    (state.record shard).counter which
      = state.counter which + if which.all (shard = ·) then 1 else 0 := by
  cases which with
  | none => rfl
  | some other =>
    simp only [counter, inFlightForShard, record, HashMap.get?_insert]
    by_cases heq : other = shard
    · simp [heq]
    · simp [heq, Ne.symm heq]

lemma Sound.record (hsound : state.Sound) (shard : ℕ) : (state.record shard).Sound where
  total_eq := by
    cases hget : state.shards.get? shard with
    | none =>
      simp only [PeerInFlight.record, inFlightForShard, hget, HashMap.total_insert id hget,
        hsound.total_eq, Option.getD_none, id]
      omega
    | some count =>
      have hreplace := HashMap.total_replace id hget (count + 1)
      simp only [PeerInFlight.record, inFlightForShard, hget, hsound.total_eq, Option.getD_some]
      simp only [id] at hreplace
      omega
  shard_pos other count hget := by
    simp only [PeerInFlight.record, HashMap.get?_insert] at hget
    split_ifs at hget
    · have hcount := Option.some.inj hget
      omega
    · exact hsound.shard_pos other count hget

/-- No shard has more requests than its peer. -/
lemma Sound.counter_le (hsound : state.Sound) (which : Option ℕ) :
    state.counter which ≤ state.total := by
  cases which with
  | none => exact le_rfl
  | some shard =>
    cases hget : state.shards.get? shard with
    | none => simp [counter, inFlightForShard, hget]
    | some count =>
      rw [hsound.total_eq, HashMap.total_remove id hget, counter, inFlightForShard, hget]
      exact Nat.le_add_right _ _

/-- What completing a request does to a shard that has one. -/
lemma complete_shards {shard : ℕ} (hshard : 0 < state.inFlightForShard shard) :
    ∃ count, state.shards.get? shard = some (count + 1) ∧
      (state.complete shard).shards
        = if count = 0 then state.shards.remove shard else state.shards.insert shard count := by
  cases hget : state.shards.get? shard with
  | none => simp [inFlightForShard, hget] at hshard
  | some count =>
    rw [inFlightForShard, hget, Option.getD_some] at hshard
    obtain ⟨count, rfl⟩ : ∃ n, count = n + 1 := ⟨count - 1, by omega⟩
    exact ⟨count, rfl, by simp [PeerInFlight.complete, hget]⟩

lemma Sound.counter_complete (hsound : state.Sound) {shard : ℕ}
    (hshard : 0 < state.inFlightForShard shard) (which : Option ℕ) :
    (state.complete shard).counter which + (if which.all (shard = ·) then 1 else 0)
      = state.counter which := by
  cases which with
  | none => exact Nat.sub_add_cancel (hshard.trans_le (hsound.counter_le (some shard)))
  | some other =>
    obtain ⟨count, hget, hshards⟩ := complete_shards hshard
    simp only [counter, inFlightForShard, hshards, Option.all_some, decide_eq_true_eq]
    by_cases hother : shard = other
    · subst hother
      by_cases hzero : count = 0 <;> simp [hzero, HashMap.get?_remove, hget]
    · by_cases hzero : count = 0 <;>
        simp [hzero, HashMap.get?_remove, HashMap.get?_insert, hother, Ne.symm hother]

lemma Sound.complete (hsound : state.Sound) {shard : ℕ} (hshard : 0 < state.inFlightForShard shard) :
    (state.complete shard).Sound := by
  obtain ⟨count, hget, hshards⟩ := complete_shards hshard
  have htotal : (state.complete shard).total = state.shards.total id - 1 := by
    rw [← hsound.total_eq]
    rfl
  refine ⟨?_, fun other n hother => ?_⟩
  · rw [htotal, hshards]
    split_ifs with hzero
    · have hremove := HashMap.total_remove id hget
      simp only [id] at hremove ⊢
      omega
    · have hreplace := HashMap.total_replace id hget count
      simp only [id] at hreplace ⊢
      omega
  · rw [hshards] at hother
    split_ifs at hother with hzero
    · rw [HashMap.get?_remove] at hother
      split_ifs at hother
      exact hsound.shard_pos other n hother
    · rw [HashMap.get?_insert] at hother
      split_ifs at hother
      · have hcount := Option.some.inj hother
        omega
      · exact hsound.shard_pos other n hother

end PeerInFlight

/-! ## All peers -/

section Peers

variable {Peer Conn : Type} [DecidableEq Peer] {s : PacketInFlight Peer}

open PacketInFlight

/-- A test for the requests of a peer, and one for those of one of its shards. -/
def ofPeer (peer : Peer) (request : PacketInFlightRequest Peer) : Bool := request.peer = peer

def ofShard (peer : Peer) (shard : ℕ) (request : PacketInFlightRequest Peer) : Bool :=
  request.peer = peer ∧ request.shard = shard

/-- A test for the requests that a counter is for. -/
def counted (peer : Peer) (which : Option ℕ) (request : PacketInFlightRequest Peer) : Bool :=
  request.peer = peer ∧ which.all (request.shard = ·)

/-- A counter of a peer. -/
def counter (s : PacketInFlight Peer) (peer : Peer) (which : Option ℕ) : ℕ :=
  ((s.peers.get? peer).map (·.counter which)).getD 0

/-- The request table holds the outstanding requests, each under its own id, and the counters agree
with them. -/
structure Exact (limitPerPeer : ℕ) (s : PacketInFlight Peer)
    (outstanding : List (PacketInFlightId × PacketInFlightRequest Peer)) : Prop where
  limit : s.limitPerPeer = limitPerPeer
  nodup : (outstanding.map Prod.fst).Nodup
  requests : ∀ id request, s.requests.get? id = some request ↔ (id, request) ∈ outstanding
  count : ∀ peer which, counter s peer which = outstanding.countP fun entry => counted peer which entry.2
  sound : ∀ peer state, s.peers.get? peer = some state → state.Sound
  pos : ∀ peer state, s.peers.get? peer = some state → 0 < state.total

variable {limitPerPeer : ℕ} {outstanding : List (PacketInFlightId × PacketInFlightRequest Peer)}
  {request : PacketInFlightRequest Peer}

lemma exact_empty : Exact limitPerPeer (⟨limitPerPeer, ∅, ∅⟩ : PacketInFlight Peer) [] :=
  ⟨rfl, List.nodup_nil, by simp, by simp [counter], by simp, by simp⟩

lemma Exact.recordRequest (hexact : Exact limitPerPeer s outstanding) {id : PacketInFlightId}
    (hid : id ∉ outstanding.map Prod.fst) (request : PacketInFlightRequest Peer) :
    Exact limitPerPeer (s.recordRequest id request) ((id, request) :: outstanding) := by
  let state := (s.peers.get? request.peer).getD .default
  have hpeers : ∀ peer, (s.recordRequest id request).peers.get? peer
      = if peer = request.peer then some (state.record request.shard) else s.peers.get? peer :=
    fun peer => HashMap.get?_insert _ _ _ _
  have hsound : state.Sound := by
    cases hget : s.peers.get? request.peer with
    | none => simpa [state, hget] using PeerInFlight.sound_default
    | some known => simpa [state, hget] using hexact.sound _ _ hget
  have hcounter : ∀ which, state.counter which = counter s request.peer which := by
    intro which
    cases hget : s.peers.get? request.peer with
    | none => cases which <;> simp [state, counter, hget, PeerInFlight.counter, PeerInFlight.default,
        PeerInFlight.inFlightForShard]
    | some known => simp [state, counter, hget]
  refine ⟨hexact.limit, List.nodup_cons.mpr ⟨hid, hexact.nodup⟩, fun other known => ?_,
    fun peer which => ?_, fun peer known hget => ?_, fun peer known hget => ?_⟩
  · rw [PacketInFlight.recordRequest, HashMap.get?_insert, List.mem_cons, Prod.mk.injEq]
    split_ifs with heq
    · subst heq
      have hout : (other, known) ∉ outstanding := fun hmem => hid (List.mem_map_of_mem hmem)
      simp [hout, eq_comm]
    · simp [heq, hexact.requests]
  · rw [List.countP_cons, ← hexact.count, counter, hpeers]
    by_cases hpeer : peer = request.peer
    · rw [if_pos hpeer, hpeer, ← hcounter]
      simp [PeerInFlight.counter_record, counted]
    · have hother : counted peer which request = false := by simp [counted, Ne.symm hpeer]
      rw [if_neg hpeer, hother]
      rfl
  · rw [hpeers] at hget
    split_ifs at hget
    · exact Option.some.inj hget ▸ hsound.record _
    · exact hexact.sound peer known hget
  · rw [hpeers] at hget
    split_ifs at hget
    · exact Option.some.inj hget ▸ Nat.succ_pos _
    · exact hexact.pos peer known hget

omit [DecidableEq Peer] in
/-- One request less. -/
lemma countP_filter_ne {id : PacketInFlightId} (hnodup : (outstanding.map Prod.fst).Nodup)
    (hmem : (id, request) ∈ outstanding) (p : PacketInFlightRequest Peer → Bool) :
    ((outstanding.filter fun entry => entry.1 ≠ id).countP fun entry => p entry.2)
      + (if p request then 1 else 0) = outstanding.countP fun entry => p entry.2 := by
  obtain ⟨before, later, rfl⟩ := List.append_of_mem hmem
  have hothers : ∀ entry ∈ before ++ later, decide (entry.1 ≠ id) = true := by
    rw [List.map_append, List.map_cons, List.nodup_middle, List.nodup_cons, ← List.map_append] at hnodup
    exact fun entry hentry => decide_eq_true fun heq =>
      hnodup.1 (List.mem_map.mpr ⟨entry, hentry, heq⟩)
  obtain ⟨hbefore, hlater⟩ := List.forall_mem_append.mp hothers
  rw [List.filter_append, List.filter_cons_of_neg (by simp), List.filter_eq_self.mpr hbefore,
    List.filter_eq_self.mpr hlater, List.countP_append, List.countP_append, List.countP_cons,
    Nat.add_assoc]

/-- The peer of an outstanding request is counted, and so is its shard. -/
lemma Exact.exists_state (hexact : Exact limitPerPeer s outstanding) {id : PacketInFlightId}
    (hmem : (id, request) ∈ outstanding) :
    ∃ state, s.peers.get? request.peer = some state ∧ 0 < state.inFlightForShard request.shard := by
  have hcount : 0 < counter s request.peer (some request.shard) := by
    rw [hexact.count, List.countP_pos_iff]
    exact ⟨_, hmem, by simp [counted]⟩
  cases hstate : s.peers.get? request.peer with
  | none => simp [counter, hstate] at hcount
  | some state => exact ⟨state, rfl, by simpa [counter, hstate, PeerInFlight.counter] using hcount⟩

/-- Completing a request, late or again, keeps the counters exact. -/
lemma Exact.complete (hexact : Exact limitPerPeer s outstanding) (id : PacketInFlightId) :
    Exact limitPerPeer (s.complete id).2 (outstanding.filter fun entry => entry.1 ≠ id) := by
  cases hget : s.requests.get? id with
  | none =>
    have hothers : ∀ entry ∈ outstanding, decide (entry.1 ≠ id) = true := by
      intro entry hentry
      refine decide_eq_true fun heq => ?_
      rw [← heq, (hexact.requests _ _).mpr hentry] at hget
      cases hget
    rw [List.filter_eq_self.mpr hothers]
    simpa [PacketInFlight.complete, hget] using hexact
  | some request =>
    have hmem := (hexact.requests _ _).mp hget
    obtain ⟨state, hstate, hshard⟩ := hexact.exists_state hmem
    have hsound := hexact.sound _ _ hstate
    have hdone := hsound.complete hshard
    let peers := if (state.complete request.shard).total = 0 then s.peers.remove request.peer
      else s.peers.insert request.peer (state.complete request.shard)
    have hcomplete : (s.complete id).2 = { s with requests := s.requests.remove id, peers } := by
      simp only [PacketInFlight.complete, hget, hstate, peers]
    have hpeers : ∀ peer, peers.get? peer = if peer = request.peer then
        (if (state.complete request.shard).total = 0 then none
          else some (state.complete request.shard)) else s.peers.get? peer := by
      intro peer
      simp only [peers]
      split_ifs <;> simp [HashMap.get?_remove, HashMap.get?_insert, *]
    rw [hcomplete]
    refine ⟨hexact.limit, hexact.nodup.sublist (List.filter_sublist.map _), fun other known => ?_,
      fun peer which => ?_, fun peer known hknown => ?_, fun peer known hknown => ?_⟩
    · rw [HashMap.get?_remove, List.mem_filter, ← hexact.requests]
      by_cases heq : other = id <;> simp [heq]
    · have hcount := countP_filter_ne hexact.nodup hmem (counted peer which)
      rw [← hexact.count, counter] at hcount
      by_cases hpeer : request.peer = peer
      · subst hpeer
        have hless := hsound.counter_complete hshard which
        have hle := hdone.counter_le which
        simp only [counter, counted, hpeers, hstate, if_true, true_and, Option.map_some,
          Option.getD_some, Bool.decide_eq_true] at hcount ⊢
        -- a peer that is dropped has nothing left to count
        split_ifs with hzero
        · simp only [Option.map_none, Option.getD_none]
          omega
        · simp only [Option.map_some, Option.getD_some]
          omega
      · have hother : counted peer which request = false := by simp [counted, hpeer]
        rw [hother] at hcount
        simp only [counter, hpeers, if_neg (Ne.symm hpeer)]
        exact hcount.symm
    · simp only [hpeers] at hknown
      split_ifs at hknown
      · exact Option.some.inj hknown ▸ hdone
      · exact hexact.sound peer known hknown
    · simp only [hpeers] at hknown
      split_ifs at hknown with hpeer hzero
      · exact Option.some.inj hknown ▸ Nat.pos_of_ne_zero hzero
      · exact hexact.pos peer known hknown

lemma Exact.foldl_complete (hexact : Exact limitPerPeer s outstanding) (ids : List PacketInFlightId) :
    Exact limitPerPeer (ids.foldl (fun s id => (s.complete id).2) s)
      (outstanding.filter fun entry => entry.1 ∉ ids) := by
  induction ids generalizing s outstanding with
  | nil => simpa using hexact
  | cons id ids ih =>
    have hnext := ih (hexact.complete id)
    rw [List.filter_filter] at hnext
    simpa [not_or, Bool.and_comm] using hnext

omit [DecidableEq Peer] in
lemma mem_expired {order : KeyOrder PacketInFlightId} {now timeout : ℕ} {id : PacketInFlightId} :
    id ∈ s.expired order now timeout ↔
      ∃ request, s.requests.get? id = some request ∧ timeout < now - request.sentAt := by
  simp only [expired, List.mem_filterMap, Prod.exists, KeyOrder.mem_entries,
    Option.ite_none_right_eq_some, Option.some.injEq]
  constructor
  · rintro ⟨_, request, hget, hlt, rfl⟩
    exact ⟨request, hget, hlt⟩
  · rintro ⟨request, hget, hlt⟩
    exact ⟨id, request, hget, hlt, rfl⟩

/-- One call. -/
lemma Exact.apply (hexact : Exact limitPerPeer s outstanding) {call : InFlightCall Peer Conn}
    (hfresh : ∀ id ∈ call.recorded?, id ∉ outstanding.map Prod.fst) :
    Exact limitPerPeer (call.apply s) (call.note outstanding) := by
  cases call with
  | record packet id path now => exact hexact.recordRequest (hfresh id rfl) _
  | recordPathProbe peer id path now => exact hexact.recordRequest (hfresh id rfl) _
  | complete id => exact hexact.complete id
  | expire order now timeout =>
    have hnext := hexact.foldl_complete (s.expired order now timeout)
    rw [List.filter_congr (q := fun entry => decide (now - entry.2.sentAt ≤ timeout))] at hnext
    · exact hnext
    · rintro ⟨id, request⟩ hmem
      have hget := (hexact.requests id request).mpr hmem
      rw [decide_eq_decide, mem_expired, hget]
      simp
  | clear =>
    obtain rfl := hexact.limit
    exact exact_empty

/-- A run of calls. -/
lemma exact_foldl {calls : List (InFlightCall Peer Conn)} (hexact : Exact limitPerPeer s outstanding)
    (hfresh : FreshIds outstanding calls) :
    Exact limitPerPeer (calls.foldl InFlightCall.apply s) (calls.foldl InFlightCall.note outstanding) := by
  induction calls generalizing s outstanding with
  | nil => exact hexact
  | cons call calls ih => exact ih (hexact.apply hfresh.1) hfresh.2

/-- **The accounting of packets in flight is exact.**  After every run in which no id is recorded
while it is outstanding, the request table holds the outstanding requests, the total of each peer is
the number of its outstanding requests and the sum of its shards, nothing is kept with a count of
zero, and a packet may be sent exactly when its peer has fewer outstanding requests than the limit and
its shard fewer than the window. -/
theorem in_flight_accounting_exact (limitPerPeer : ℕ) (calls : List (InFlightCall Peer Conn))
    (hfresh : FreshIds [] calls) :
    (∀ id request, (after limitPerPeer calls).requests.get? id = some request ↔
      (id, request) ∈ outstandingAfter calls) ∧
    (∀ peer, (after limitPerPeer calls).inFlightFor peer
      = (outstandingAfter calls).countP fun entry => ofPeer peer entry.2) ∧
    (∀ peer state, (after limitPerPeer calls).peers.get? peer = some state →
      state.total = state.shards.total id ∧ 0 < state.total ∧
        ∀ shard count, state.shards.get? shard = some count → 0 < count) ∧
    ∀ packet window,
      (after limitPerPeer calls).canSendPacketWithShardWindow packet window = true ↔
        ((outstandingAfter calls).countP fun entry => ofPeer packet.peer entry.2)
            < max limitPerPeer 1 ∧
          ((outstandingAfter calls).countP fun entry =>
            ofShard packet.peer packet.flowShard entry.2) < max 1 window := by
  have hexact : Exact (max limitPerPeer 1) (after limitPerPeer calls) (outstandingAfter calls) :=
    exact_foldl exact_empty hfresh
  have hpeer : ∀ peer : Peer, ofPeer peer = counted peer none := fun peer => by
    funext request
    simp [ofPeer, counted]
  have hshard : ∀ (peer : Peer) (shard : ℕ), ofShard peer shard = counted peer (some shard) :=
    fun peer shard => by
      funext request
      simp [ofShard, counted]
  refine ⟨hexact.requests, fun peer => ?_, fun peer state hget => ?_, fun packet window => ?_⟩
  · rw [hpeer]
    exact hexact.count peer none
  · have hsound := hexact.sound peer state hget
    exact ⟨hsound.total_eq, hexact.pos peer state hget, hsound.shard_pos⟩
  · rw [hpeer, hshard, ← hexact.count, ← hexact.count, ← hexact.limit, max_comm,
      canSendPacketWithShardWindow, Bool.and_eq_true, canSend, decide_eq_true_eq]
    refine and_congr_right fun _ => ?_
    cases hget : (after limitPerPeer calls).peers.get? packet.peer <;>
      simp [counter, hget, PeerInFlight.counter]

def sampleOrder : KeyOrder PacketInFlightId :=
  .sortedBy (fun | .requestResponse id => 2 * id | .pinnedPacketStream id => 2 * id + 1) (by
    rintro (a | a) (b | b) h
    all_goals
      simp only at h
      grind)

def samplePacket : Packet ℕ := ⟨7, none, 0, [0x45], 0⟩

/-- Two packets and a probe for one peer; the probe is answered twice, and the first packet expires. -/
def sampleCalls : List (InFlightCall ℕ ℕ) :=
  [.record samplePacket (.pinnedPacketStream 1) (.new 7 .directTcpStream) 0,
    .record samplePacket (.requestResponse 1) (.new 7 .directTcpStream) 5,
    .recordPathProbe 7 (.requestResponse 2) (.new 7 .directTcpStream) 6,
    .complete (.requestResponse 2), .complete (.requestResponse 2), .expire sampleOrder 12 10]

/-- The second packet is left, until everything is cleared. -/
theorem sample_answered_twice :
    (outstandingAfter sampleCalls).map Prod.fst = [.requestResponse 1] ∧
      (after 2 sampleCalls).inFlightFor 7 = 1 ∧
      (after 2 sampleCalls).canSendPacketWithShardWindow samplePacket 1 = false ∧
      (after 2 sampleCalls).canSendPacketWithShardWindow samplePacket 2 = true ∧
      (after 2 (sampleCalls ++ [.clear])).inFlightFor 7 = 0 := by
  have hfresh : FreshIds [] sampleCalls := by
    refine ⟨?_, ?_, ?_, ?_, ?_, ?_, trivial⟩
    all_goals decide +kernel
  have hfresh' : FreshIds [] (sampleCalls ++ [.clear]) := by
    refine ⟨?_, ?_, ?_, ?_, ?_, ?_, ?_, trivial⟩
    all_goals decide +kernel
  obtain ⟨-, hpeers, -, hsend⟩ := in_flight_accounting_exact 2 sampleCalls hfresh
  obtain ⟨-, hcleared, -⟩ := in_flight_accounting_exact 2 _ hfresh'
  refine ⟨by decide +kernel, (hpeers 7).trans (by decide +kernel), ?_,
    (hsend samplePacket 2).mpr (by decide +kernel), (hcleared 7).trans (by decide +kernel)⟩
  rw [Bool.eq_false_iff, ne_eq, hsend samplePacket 1]
  decide +kernel

end Peers

end P2pVpn.InFlight
