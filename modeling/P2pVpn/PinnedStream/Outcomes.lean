/-
# Every pinned request has one outcome

A run is any interleaving of connections that open and close, requests and responses that are
sent, events of handlers and events handed to the swarm.  What the invariant (`Sound`) says of
a request is one equation: the number of outcomes in the history of the run, that is, among the
events emitted and those still queued, is one if the request was sent and has no owner any more,
and zero otherwise.  The owners in turn are exactly what the connections count.
-/
import P2pVpn.PinnedStream.Behaviour
import Mathlib.Data.List.Induction

namespace P2pVpn.PinnedStream

open P2pVpn.Lib

variable {Peer Conn Frame Response : Type}

/-! ## Runs -/

/-- The event is the outcome of a request. -/
def settles (requestId : ℕ) : ToSwarm Peer Conn Frame Response → Bool
  | .generateEvent (.outboundResponse _ _ id _) => id = requestId
  | .generateEvent (.outboundFailure _ _ id _) => id = requestId
  | _ => false

inductive Call (Peer Conn Frame Response : Type) where
  | swarmEvent (event : FromSwarm Peer Conn)
  | sendRequest (peer : Peer) (connectionId : Conn) (frame : Frame)
  | sendResponse (channel : ResponseChannel Peer Conn) (response : Response)
  | handlerEvent (peer : Peer) (connectionId : Conn) (event : HandlerEvent Frame Response)
  | poll

/-- A behaviour, what it has told the swarm so far, and the requests sent so far with the
identifiers they got. -/
structure Trace (Peer Conn Frame Response : Type) where
  behaviour : Behaviour Peer Conn Frame Response
  emitted : List (ToSwarm Peer Conn Frame Response)
  requests : List (ℕ × Peer × Conn)

/-- How many outcomes of a request were emitted or are queued. -/
def Trace.outcomes (t : Trace Peer Conn Frame Response) (requestId : ℕ) : ℕ :=
  (t.emitted ++ t.behaviour.pendingEvents).countP (settles requestId)

/-- The connection that a call opens. -/
def Call.opened? : Call Peer Conn Frame Response → Option Conn
  | .swarmEvent (.connectionEstablished _ connectionId) => some connectionId
  | _ => none

def Call.isSend : Call Peer Conn Frame Response → Bool
  | .sendRequest .. => true
  | _ => false

/-- No connection identifier is used twice, and the request identifiers do not run out. -/
structure Admissible (calls : List (Call Peer Conn Frame Response)) : Prop where
  fresh : (calls.filterMap Call.opened?).Nodup
  few : calls.countP Call.isSend < 2 ^ 64

lemma Admissible.of_append {calls rest : List (Call Peer Conn Frame Response)}
    (h : Admissible (calls ++ rest)) : Admissible calls where
  fresh := by
    have hfresh := h.fresh
    rw [List.filterMap_append] at hfresh
    exact hfresh.of_append_left
  few := by
    have hfew := h.few
    rw [List.countP_append] at hfew
    omega

variable [DecidableEq Peer] [DecidableEq Conn]

def step (t : Trace Peer Conn Frame Response) :
    Call Peer Conn Frame Response → Trace Peer Conn Frame Response
  | .swarmEvent event => { t with behaviour := t.behaviour.onSwarmEvent event }
  | .sendRequest peer connectionId frame =>
      let sent := t.behaviour.sendRequestOnConnection peer connectionId frame
      { t with behaviour := sent.2, requests := t.requests ++ [(sent.1, peer, connectionId)] }
  | .sendResponse channel response =>
      { t with behaviour := t.behaviour.sendResponse channel response }
  | .handlerEvent peer connectionId event =>
      { t with behaviour := t.behaviour.onConnectionHandlerEvent peer connectionId event }
  | .poll =>
      { t with behaviour := t.behaviour.poll.2, emitted := t.emitted ++ t.behaviour.poll.1.toList }

variable (start : Behaviour Peer Conn Frame Response)

def after (calls : List (Call Peer Conn Frame Response)) : Trace Peer Conn Frame Response :=
  calls.foldl step ⟨start, [], []⟩

lemma after_concat (calls : List (Call Peer Conn Frame Response))
    (call : Call Peer Conn Frame Response) :
    after start (calls ++ [call]) = step (after start calls) call := by
  unfold after
  rw [List.foldl_append, List.foldl_cons, List.foldl_nil]

/-! ## What the operations do -/

variable {owner : Peer × Conn} {requestId : ℕ} {peer : Peer} {connectionId : Conn}

namespace Behaviour

variable {b : Behaviour Peer Conn Frame Response} {peer : Peer} {connectionId : Conn}

/-- How many requests an owner waits for. -/
def owned (b : Behaviour Peer Conn Frame Response) (owner : Peer × Conn) : ℕ :=
  b.outboundOwners.total fun o => if o = owner then 1 else 0

lemma owned_eq_zero (h : ∀ requestId, b.outboundOwners.get? requestId ≠ some owner) :
    b.owned owner = 0 := by
  refine HashMap.total_eq_zero fun requestId o ho => if_neg ?_
  rintro rfl
  exact h requestId ho

omit [DecidableEq Peer] in
lemma get?_updatePending (f : ℕ → ℕ) (other : Conn) :
    (b.updatePending connectionId f).get? other =
      if other = connectionId then
        (b.connections.get? connectionId).map fun state =>
          { state with pendingOutbound := f state.pendingOutbound }
      else b.connections.get? other := by
  unfold updatePending
  cases h : b.connections.get? connectionId with
  | none =>
    dsimp only
    split
    · rename_i heq
      rw [heq, h, Option.map_none]
    · rfl
  | some state =>
    dsimp only
    rw [HashMap.get?_insert, Option.map_some]

lemma connection?_eq_some {state : ConnectionState Peer} :
    b.connection? peer connectionId = some state ↔
      b.connections.get? connectionId = some state ∧ state.peer = peer := by
  unfold connection?
  rw [Option.filter_eq_some_iff, decide_eq_true_eq]

lemma refusal_eq_none :
    b.refusal peer connectionId = none ↔ ∃ pending, pending < b.maxConcurrentStreams ∧
      b.connections.get? connectionId = some ⟨peer, pending⟩ := by
  unfold refusal
  constructor
  · intro h
    split at h
    · exact absurd h (by simp)
    · rename_i state hstate
      obtain ⟨hget, rfl⟩ := connection?_eq_some.mp hstate
      split_ifs at h with hfull
      exact ⟨state.pendingOutbound, not_le.mp hfull, hget⟩
  · rintro ⟨pending, hlt, hget⟩
    rw [connection?_eq_some.mpr ⟨hget, rfl⟩]
    exact if_neg (not_le.mpr hlt)

lemma mem_ownedRequests :
    requestId ∈ b.ownedRequests owner ↔ b.outboundOwners.get? requestId = some owner := by
  simp [ownedRequests]

lemma nodup_ownedRequests (owner : Peer × Conn) : (b.ownedRequests owner).Nodup :=
  List.pairwise_map.mpr ((KeyOrder.entries_pairwise b.outboundOwners).filter _)

end Behaviour

/-! ## Counting outcomes -/

omit [DecidableEq Peer] [DecidableEq Conn] in
lemma outcomes_pushBack (b : Behaviour Peer Conn Frame Response)
    (emitted : List (ToSwarm Peer Conn Frame Response)) (requests : List (ℕ × Peer × Conn))
    (event : ToSwarm Peer Conn Frame Response) (requestId : ℕ) :
    (Trace.mk (b.pushBack event) emitted requests).outcomes requestId =
      (Trace.mk b emitted requests).outcomes requestId + if settles requestId event then 1 else 0 := by
  unfold Trace.outcomes Behaviour.pushBack
  rw [← List.append_assoc, List.countP_append, List.countP_singleton]

omit [DecidableEq Peer] [DecidableEq Conn] in
lemma settles_toEvent (requestId : ℕ) (peer : Peer) (connectionId : Conn)
    (event : HandlerEvent Frame Response) :
    settles requestId (.generateEvent (event.toEvent peer connectionId)) =
      decide (event.outboundRequestId? = some requestId) := by
  cases event <;> simp [settles, HandlerEvent.toEvent, HandlerEvent.outboundRequestId?]

/-- Closing a connection drops commands, never outcomes. -/
lemma countP_settles_filter (requestId : ℕ) (owner : Peer × Conn)
    (events : List (ToSwarm Peer Conn Frame Response)) :
    (events.filter fun event => !Behaviour.addressedTo owner event).countP (settles requestId) =
      events.countP (settles requestId) := by
  rw [List.countP_filter]
  refine List.countP_congr fun event _ => ?_
  cases event <;> simp [settles, Behaviour.addressedTo]

lemma countP_settles_failures (b : Behaviour Peer Conn Frame Response) (peer : Peer)
    (connectionId : Conn) (requestId : ℕ) :
    ((b.ownedRequests (peer, connectionId)).map fun id =>
        (.generateEvent (.outboundFailure peer connectionId id .connectionClosed) :
          ToSwarm Peer Conn Frame Response)).countP (settles requestId) =
      if b.outboundOwners.get? requestId = some (peer, connectionId) then 1 else 0 := by
  rw [List.countP_map]
  have hcount : ∀ ids : List ℕ, ids.countP (settles requestId ∘ fun id =>
      (.generateEvent (.outboundFailure peer connectionId id .connectionClosed) :
        ToSwarm Peer Conn Frame Response)) = ids.count requestId := fun ids => by
    rw [List.count_eq_countP]
    exact List.countP_congr fun id _ => by simp [settles]
  rw [hcount, (b.nodup_ownedRequests (peer, connectionId)).count]
  simp only [Behaviour.mem_ownedRequests]

/-! ## The invariant -/

/-- What holds of a trace after `sends` requests, when the connections `opened` were opened. -/
structure Sound (limit sends : ℕ) (opened : List Conn) (t : Trace Peer Conn Frame Response) :
    Prop where
  limit_eq : t.behaviour.maxConcurrentStreams = limit
  next_eq : sends + 1 < 2 ^ 64 → t.behaviour.nextOutboundRequestId = sends + 1
  requests_eq : t.requests.map Prod.fst = List.range' 1 sends
  mem_requests : ∀ requestId owner, t.behaviour.outboundOwners.get? requestId = some owner →
    (requestId, owner) ∈ t.requests
  outcomes_eq : ∀ requestId, t.outcomes requestId =
    if 0 < requestId ∧ requestId ≤ sends ∧ t.behaviour.outboundOwners.get? requestId = none then 1
    else 0
  mem_opened : ∀ connectionId state, t.behaviour.connections.get? connectionId = some state →
    connectionId ∈ opened
  open_of_owner : ∀ requestId peer connectionId,
    t.behaviour.outboundOwners.get? requestId = some (peer, connectionId) →
    ∃ pending, t.behaviour.connections.get? connectionId = some ⟨peer, pending⟩
  counted : ∀ connectionId state, t.behaviour.connections.get? connectionId = some state →
    state.pendingOutbound = t.behaviour.owned (state.peer, connectionId) ∧
      state.pendingOutbound ≤ limit

namespace Sound

variable {limit sends : ℕ} {opened : List Conn} {t : Trace Peer Conn Frame Response}
  {b : Behaviour Peer Conn Frame Response} {emitted : List (ToSwarm Peer Conn Frame Response)}
  {requests : List (ℕ × Peer × Conn)}

/-- Identifiers count up from one. -/
lemma mem_iff (h : Sound limit sends opened t) :
    requestId ∈ t.requests.map Prod.fst ↔ 0 < requestId ∧ requestId ≤ sends := by
  rw [h.requests_eq, List.mem_range'_1]
  omega

lemma nodup (h : Sound limit sends opened t) : (t.requests.map Prod.fst).Nodup := by
  rw [h.requests_eq]
  exact List.nodup_range'

lemma sent (h : Sound limit sends opened t)
    (howner : t.behaviour.outboundOwners.get? requestId = some owner) :
    0 < requestId ∧ requestId ≤ sends :=
  h.mem_iff.mp (List.mem_map_of_mem (h.mem_requests _ _ howner))

lemma poll (h : Sound limit sends opened t) : Sound limit sends opened (step t .poll) := by
  refine { h with outcomes_eq := fun requestId => ?_ }
  have hsplit : t.behaviour.poll.1.toList ++ t.behaviour.poll.2.pendingEvents =
      t.behaviour.pendingEvents := by
    unfold Behaviour.poll
    cases t.behaviour.pendingEvents <;> rfl
  have hsame : (step t .poll).outcomes requestId = t.outcomes requestId := by
    simp only [Trace.outcomes, step, List.append_assoc, hsplit]
  rw [hsame, h.outcomes_eq]
  rfl

section

variable (h : Sound limit sends opened ⟨b, emitted, requests⟩)
include h

/-- An event that is no outcome may be queued at any time. -/
lemma pushBack
    {event : ToSwarm Peer Conn Frame Response} (hevent : ∀ requestId, settles requestId event = false) :
    Sound limit sends opened ⟨b.pushBack event, emitted, requests⟩ := by
  refine { h with outcomes_eq := fun requestId => ?_ }
  rw [outcomes_pushBack, hevent, h.outcomes_eq]
  rfl

/-- No request waits for a connection that was never open. -/
lemma connectionEstablished (hfresh : connectionId ∉ opened) :
    Sound limit sends (opened ++ [connectionId])
      ⟨b.onSwarmEvent (.connectionEstablished peer connectionId), emitted, requests⟩ := by
  have hclosed : ∀ state, b.connections.get? connectionId ≠ some state := fun state hstate =>
    hfresh (h.mem_opened _ _ hstate)
  refine ⟨h.limit_eq, h.next_eq, h.requests_eq, h.mem_requests, h.outcomes_eq, ?_, ?_, ?_⟩
  · intro other state hget
    rw [List.mem_append, List.mem_singleton]
    rw [Behaviour.onSwarmEvent, HashMap.get?_insert] at hget
    split_ifs at hget with heq
    · exact .inr heq
    · exact .inl (h.mem_opened _ _ hget)
  · intro requestId p other hget
    obtain ⟨pending, hpending⟩ := h.open_of_owner _ _ _ hget
    refine ⟨pending, ?_⟩
    rw [Behaviour.onSwarmEvent, HashMap.get?_insert, if_neg]
    · exact hpending
    · rintro rfl
      exact hclosed _ hpending
  · intro other state hget
    rw [Behaviour.onSwarmEvent, HashMap.get?_insert] at hget
    split_ifs at hget with heq
    · obtain rfl := heq
      obtain rfl := Option.some.inj hget
      refine ⟨(Behaviour.owned_eq_zero fun requestId howner => ?_).symm, Nat.zero_le _⟩
      obtain ⟨pending, hpending⟩ := h.open_of_owner _ _ _ howner
      exact hclosed _ hpending
    · exact h.counted _ _ hget

/-- A connection that closes takes its requests with it, and reports each of them. -/
lemma connectionClosed (peer : Peer) (connectionId : Conn) :
    Sound limit sends opened ⟨b.onConnectionClosed peer connectionId, emitted, requests⟩ := by
  unfold Behaviour.onConnectionClosed
  split_ifs with hopen
  · exact h
  rw [not_not, Option.map_eq_some_iff] at hopen
  obtain ⟨closed, hclosed, hpeer⟩ := hopen
  refine ⟨h.limit_eq, h.next_eq, h.requests_eq, ?_, ?_, ?_, ?_, ?_⟩
  · intro requestId owner hget
    rw [HashMap.get?_retain, Option.filter_eq_some_iff] at hget
    exact h.mem_requests _ _ hget.1
  · intro requestId
    have hbefore := h.outcomes_eq requestId
    unfold Trace.outcomes at hbefore ⊢
    rw [List.countP_append] at hbefore
    rw [List.countP_append, List.countP_append, countP_settles_filter, countP_settles_failures,
      ← add_assoc, hbefore, HashMap.get?_retain]
    cases howner : b.outboundOwners.get? requestId with
    | none => simp
    | some owner =>
      obtain ⟨hpos, hle⟩ := h.sent howner
      by_cases heq : owner = (peer, connectionId) <;> simp [heq, hpos, hle]
  · intro other state hget
    rw [HashMap.get?_remove] at hget
    split_ifs at hget
    exact h.mem_opened _ _ hget
  · intro requestId p other hget
    rw [HashMap.get?_retain, Option.filter_eq_some_iff, decide_eq_true_eq] at hget
    obtain ⟨hget, hne⟩ := hget
    obtain ⟨pending, hpending⟩ := h.open_of_owner _ _ _ hget
    refine ⟨pending, ?_⟩
    rw [HashMap.get?_remove, if_neg]
    · exact hpending
    · -- the connection is the one that closes, so its peer is the one of the request
      rintro rfl
      obtain rfl := Option.some.inj (hclosed.symm.trans hpending)
      exact hne (by rw [← hpeer])
  · intro other state hget
    rw [HashMap.get?_remove] at hget
    split_ifs at hget with heq
    obtain ⟨hpending, hle⟩ := h.counted _ _ hget
    refine ⟨hpending.trans ?_, hle⟩
    unfold Behaviour.owned
    rw [HashMap.total_retain _ fun owner => decide (owner ≠ (peer, connectionId))]
    refine Nat.add_eq_left.mpr (HashMap.total_eq_zero fun requestId owner howner => if_neg ?_)
    rw [HashMap.get?_retain, Option.filter_eq_some_iff] at howner
    obtain ⟨-, hdropped⟩ := howner
    rintro rfl
    have howned : state.peer = peer ∧ other = connectionId := by simpa using hdropped
    exact heq howned.2

/-- The next identifier was never used. -/
lemma next_fresh : b.outboundOwners.get? (sends + 1) = none := by
  by_contra hsome
  obtain ⟨owner, howner⟩ := Option.ne_none_iff_exists'.mp hsome
  have hsent := (h.sent howner).2
  omega

lemma following_eq (hfew : sends + 1 < 2 ^ 64) (hmore : sends + 1 + 1 < 2 ^ 64) :
    Behaviour.followingRequestId b.nextOutboundRequestId = sends + 1 + 1 := by
  have hnext : b.nextOutboundRequestId = sends + 1 := h.next_eq hfew
  unfold Behaviour.followingRequestId
  rw [hnext, Nat.mod_eq_of_lt hmore]
  exact max_eq_left (by omega)

lemma requests_append (hfew : sends + 1 < 2 ^ 64) (owner : Peer × Conn) :
    (requests ++ [(b.nextOutboundRequestId, owner)]).map Prod.fst = List.range' 1 (sends + 1) := by
  have hrequests : requests.map Prod.fst = List.range' 1 sends := h.requests_eq
  have hnext : b.nextOutboundRequestId = sends + 1 := h.next_eq hfew
  rw [List.map_append, hrequests, List.range'_concat, hnext, one_mul, add_comm 1]
  rfl

/-- A request that is refused has its outcome at once. -/
lemma refused (hfew : sends + 1 < 2 ^ 64) (peer : Peer) (connectionId : Conn) (error : Failure) :
    Sound limit (sends + 1) opened
      ⟨b.numbered.pushBack
        (.generateEvent (.outboundFailure peer connectionId b.nextOutboundRequestId error)),
        emitted, requests ++ [(b.nextOutboundRequestId, peer, connectionId)]⟩ := by
  refine ⟨h.limit_eq, h.following_eq hfew, h.requests_append hfew _, ?_, ?_, h.mem_opened,
    h.open_of_owner, h.counted⟩
  · intro requestId owner hget
    exact List.mem_append_left _ (h.mem_requests _ _ hget)
  · intro requestId
    have hbefore : (Trace.mk b.numbered emitted
        (requests ++ [(b.nextOutboundRequestId, peer, connectionId)])).outcomes requestId = _ :=
      h.outcomes_eq requestId
    rw [outcomes_pushBack, hbefore, h.next_eq hfew]
    by_cases heq : requestId = sends + 1
    · subst heq
      simp [settles, Behaviour.pushBack, Behaviour.numbered, h.next_fresh]
    · have hle : requestId ≤ sends + 1 ↔ requestId ≤ sends := by omega
      simp [settles, Behaviour.pushBack, Behaviour.numbered, hle, Ne.symm heq]

/-- One connection counts anew, and the others as before. -/
lemma recounted {c : Behaviour Peer Conn Frame Response} {pending counted : ℕ}
    (hopen : b.connections.get? connectionId = some ⟨peer, pending⟩)
    (hconnections : ∀ other, c.connections.get? other =
      if other = connectionId then some ⟨peer, counted⟩ else b.connections.get? other)
    (hcounted : counted = c.owned (peer, connectionId) ∧ counted ≤ limit)
    (hothers : ∀ owner ≠ (peer, connectionId), c.owned owner = b.owned owner) :
    (∀ other state, c.connections.get? other = some state → other ∈ opened) ∧
    (∀ other p k, b.connections.get? other = some ⟨p, k⟩ →
      ∃ k', c.connections.get? other = some ⟨p, k'⟩) ∧
    ∀ other state, c.connections.get? other = some state →
      state.pendingOutbound = c.owned (state.peer, other) ∧ state.pendingOutbound ≤ limit := by
  refine ⟨fun other state hget => ?_, fun other p k hget => ?_, fun other state hget => ?_⟩
  · rw [hconnections] at hget
    split_ifs at hget with heq
    · exact heq ▸ h.mem_opened _ _ hopen
    · exact h.mem_opened _ _ hget
  · rw [hconnections]
    split_ifs with heq
    · subst heq
      obtain ⟨rfl, -⟩ := ConnectionState.mk.inj (Option.some.inj (hopen.symm.trans hget))
      exact ⟨_, rfl⟩
    · exact ⟨k, hget⟩
  · rw [hconnections] at hget
    split_ifs at hget with heq
    · obtain rfl := Option.some.inj hget
      exact heq ▸ hcounted
    · rw [hothers _ fun howner => heq (congrArg Prod.snd howner)]
      exact h.counted _ _ hget

/-- A request that is not refused waits for its connection. -/
lemma accepted (hfew : sends + 1 < 2 ^ 64) {pending : ℕ} (hlt : pending < b.maxConcurrentStreams)
    (hopen : b.connections.get? connectionId = some ⟨peer, pending⟩) :
    Sound limit (sends + 1) opened
      ⟨b.numbered.own peer connectionId b.nextOutboundRequestId, emitted,
        requests ++ [(b.nextOutboundRequestId, peer, connectionId)]⟩ := by
  have hnext : b.nextOutboundRequestId = sends + 1 := h.next_eq hfew
  have hlimit : b.maxConcurrentStreams = limit := h.limit_eq
  have howners : ∀ requestId,
      (b.numbered.own peer connectionId b.nextOutboundRequestId).outboundOwners.get? requestId =
        if requestId = sends + 1 then some (peer, connectionId)
        else b.outboundOwners.get? requestId := fun requestId => by
    rw [hnext]
    exact HashMap.get?_insert ..
  have hconnections : ∀ other,
      (b.numbered.own peer connectionId b.nextOutboundRequestId).connections.get? other =
        if other = connectionId then some ⟨peer, pending + 1⟩
        else b.connections.get? other := fun other => by
    refine (Behaviour.get?_updatePending (b := b) (· + 1) other).trans ?_
    rw [hopen, Option.map_some]
  have howned : ∀ owner, (b.numbered.own peer connectionId b.nextOutboundRequestId).owned owner =
      (if (peer, connectionId) = owner then 1 else 0) + b.owned owner := fun owner =>
    HashMap.total_insert _ (hnext.symm ▸ h.next_fresh) _
  have hpending : pending = b.owned (peer, connectionId) := (h.counted _ _ hopen).1
  obtain ⟨hopened, hstays, hcounted⟩ := h.recounted hopen hconnections
    ⟨by rw [howned, if_pos rfl]; omega, by omega⟩
    fun owner hne => by rw [howned, if_neg (Ne.symm hne), zero_add]
  refine ⟨h.limit_eq, h.following_eq hfew, h.requests_append hfew _, ?_, ?_, hopened, ?_, hcounted⟩
  · intro requestId owner hget
    rw [howners] at hget
    rw [List.mem_append, List.mem_singleton]
    split_ifs at hget with heq
    · exact .inr (by rw [heq, hnext, ← Option.some.inj hget])
    · exact .inl (h.mem_requests _ _ hget)
  · intro requestId
    have hbefore : (Trace.mk (b.numbered.own peer connectionId b.nextOutboundRequestId) emitted
        (requests ++ [(b.nextOutboundRequestId, peer, connectionId)])).outcomes requestId = _ :=
      h.outcomes_eq requestId
    rw [hbefore, howners]
    by_cases heq : requestId = sends + 1
    · simp [heq]
    · have hle : requestId ≤ sends + 1 ↔ requestId ≤ sends := by omega
      simp only [if_neg heq, hle]
  · intro requestId p other hget
    rw [howners] at hget
    split_ifs at hget with heq
    · obtain ⟨rfl, rfl⟩ := Prod.mk.inj (Option.some.inj hget)
      exact hstays _ _ _ hopen
    · obtain ⟨k, hk⟩ := h.open_of_owner _ _ _ hget
      exact hstays _ _ _ hk

/-- A request is refused with its outcome, or else waits for it. -/
lemma sendRequest (hfew : sends + 1 < 2 ^ 64) (peer : Peer) (connectionId : Conn) (frame : Frame) :
    Sound limit (sends + 1) opened
      (PinnedStream.step ⟨b, emitted, requests⟩ (.sendRequest peer connectionId frame)) := by
  cases hrefusal : b.refusal peer connectionId with
  | some error =>
    simp only [PinnedStream.step, Behaviour.sendRequestOnConnection, hrefusal]
    exact h.refused hfew peer connectionId error
  | none =>
    obtain ⟨pending, hlt, hopen⟩ := Behaviour.refusal_eq_none.mp hrefusal
    simp only [PinnedStream.step, Behaviour.sendRequestOnConnection, hrefusal]
    exact (h.accepted hfew hlt hopen).pushBack fun _ => rfl

/-- The owner of a request reports its outcome. -/
lemma disowned (howner : b.outboundOwners.get? requestId = some (peer, connectionId))
    {event : HandlerEvent Frame Response} (hevent : event.outboundRequestId? = some requestId) :
    Sound limit sends opened
      ⟨(b.disown connectionId requestId).pushBack
        (.generateEvent (event.toEvent peer connectionId)), emitted, requests⟩ := by
  obtain ⟨pending, hopen⟩ := h.open_of_owner _ _ _ howner
  obtain ⟨hpos, hle⟩ := h.sent howner
  have howners : ∀ other, (b.disown connectionId requestId).outboundOwners.get? other =
      if other = requestId then none else b.outboundOwners.get? other :=
    HashMap.get?_remove b.outboundOwners requestId
  have hconnections : ∀ other, (b.disown connectionId requestId).connections.get? other =
      if other = connectionId then some ⟨peer, pending - 1⟩
      else b.connections.get? other := fun other => by
    refine (Behaviour.get?_updatePending (b := b) (· - 1) other).trans ?_
    rw [hopen, Option.map_some]
  have howned : ∀ owner, b.owned owner = (if (peer, connectionId) = owner then 1 else 0) +
      (b.disown connectionId requestId).owned owner := fun owner => HashMap.total_remove _ howner
  have hpending : pending = b.owned (peer, connectionId) ∧ pending ≤ limit := h.counted _ _ hopen
  rw [howned, if_pos rfl] at hpending
  obtain ⟨hopened, hstays, hcounted⟩ := h.recounted hopen hconnections ⟨by omega, by omega⟩
    fun owner hne => by rw [howned, if_neg (Ne.symm hne), zero_add]
  refine ⟨h.limit_eq, h.next_eq, h.requests_eq, ?_, ?_, hopened, ?_, hcounted⟩
  · intro other owner hget
    replace hget : (b.disown connectionId requestId).outboundOwners.get? other = some owner := hget
    rw [howners] at hget
    split_ifs at hget
    exact h.mem_requests _ _ hget
  · intro other
    have hbefore : (Trace.mk (b.disown connectionId requestId) emitted requests).outcomes other = _ :=
      h.outcomes_eq other
    rw [outcomes_pushBack, hbefore, settles_toEvent, hevent]
    change _ = if 0 < other ∧ other ≤ sends ∧
      (b.disown connectionId requestId).outboundOwners.get? other = none then 1 else 0
    rw [howners]
    by_cases heq : other = requestId
    · subst heq
      simp [howner, hpos, hle]
    · simp [heq, Ne.symm heq]
  · intro other p c hget
    replace hget : (b.disown connectionId requestId).outboundOwners.get? other = some (p, c) := hget
    rw [howners] at hget
    split_ifs at hget
    obtain ⟨k, hk⟩ := h.open_of_owner _ _ _ hget
    exact hstays _ _ _ hk

lemma handlerEvent (peer : Peer) (connectionId : Conn) (event : HandlerEvent Frame Response) :
    Sound limit sends opened ⟨b.onConnectionHandlerEvent peer connectionId event, emitted, requests⟩ := by
  unfold Behaviour.onConnectionHandlerEvent
  cases hevent : event.outboundRequestId? with
  | none =>
    refine h.pushBack fun requestId => ?_
    rw [settles_toEvent, hevent]
    rfl
  | some requestId =>
    dsimp only
    split_ifs with howner
    · exact h
    · exact h.disowned (not_not.mp howner) hevent

end

/-- One call. -/
lemma step {call : Call Peer Conn Frame Response} (h : Sound limit sends opened t)
    (hfresh : ∀ connectionId ∈ call.opened?, connectionId ∉ opened)
    (hfew : sends + (if call.isSend then 1 else 0) < 2 ^ 64) :
    Sound limit (sends + if call.isSend then 1 else 0) (opened ++ call.opened?.toList)
      (PinnedStream.step t call) := by
  cases call with
  | swarmEvent event =>
    cases event with
    | connectionEstablished peer connectionId => exact h.connectionEstablished (hfresh _ rfl)
    | connectionClosed peer connectionId =>
      exact (List.append_nil opened).symm ▸ h.connectionClosed peer connectionId
    | other => exact (List.append_nil opened).symm ▸ h
  | sendRequest peer connectionId frame =>
    exact (List.append_nil opened).symm ▸ h.sendRequest hfew peer connectionId frame
  | sendResponse channel response =>
    exact (List.append_nil opened).symm ▸ h.pushBack fun _ => rfl
  | handlerEvent peer connectionId event =>
    exact (List.append_nil opened).symm ▸ h.handlerEvent peer connectionId event
  | poll => exact (List.append_nil opened).symm ▸ h.poll

/-- The requests with an owner are those without an outcome. -/
lemma get?_eq_some_iff (h : Sound limit sends opened t) :
    t.behaviour.outboundOwners.get? requestId = some owner ↔
      (requestId, owner) ∈ t.requests ∧ t.outcomes requestId = 0 := by
  rw [h.outcomes_eq]
  constructor
  · intro howner
    exact ⟨h.mem_requests _ _ howner, by simp [howner]⟩
  · rintro ⟨hmem, hzero⟩
    obtain ⟨hpos, hle⟩ := h.mem_iff.mp (List.mem_map_of_mem hmem)
    cases hget : t.behaviour.outboundOwners.get? requestId with
    | none => simp [hget, hpos, hle] at hzero
    | some other =>
      have hother := h.mem_requests _ _ hget
      have heq := List.inj_on_of_nodup_map h.nodup hother hmem rfl
      rw [(Prod.mk.inj heq).2]

/-- A request that has its outcome gets no owner again. -/
lemma settled_step {call : Call Peer Conn Frame Response} (h : Sound limit sends opened t)
    (hfew : sends + (if call.isSend then 1 else 0) < 2 ^ 64) (hle : requestId ≤ sends)
    (hsettled : t.behaviour.outboundOwners.get? requestId = none) :
    (PinnedStream.step t call).behaviour.outboundOwners.get? requestId = none := by
  cases call with
  | swarmEvent event =>
    cases event with
    | connectionEstablished peer connectionId => exact hsettled
    | connectionClosed peer connectionId =>
      simp only [PinnedStream.step, Behaviour.onSwarmEvent, Behaviour.onConnectionClosed]
      split_ifs
      · exact hsettled
      · rw [HashMap.get?_retain, hsettled, Option.filter_none]
    | other => exact hsettled
  | sendRequest peer connectionId frame =>
    have hnext : t.behaviour.nextOutboundRequestId = sends + 1 := h.next_eq hfew
    simp only [PinnedStream.step, Behaviour.sendRequestOnConnection]
    split
    · exact hsettled
    · refine (HashMap.get?_insert_of_ne _ ?_ _).trans hsettled
      omega
  | sendResponse channel response => exact hsettled
  | handlerEvent peer connectionId event =>
    simp only [PinnedStream.step, Behaviour.onConnectionHandlerEvent]
    split
    · exact hsettled
    · split_ifs
      · exact hsettled
      · refine (HashMap.get?_remove ..).trans ?_
        rw [hsettled, ite_self]
  | poll => exact hsettled

/-- A request is settled when its connection closes. -/
lemma settled_of_closed (h : Sound limit sends opened t) (hfew : sends < 2 ^ 64)
    (hmem : (requestId, peer, connectionId) ∈ t.requests) :
    (PinnedStream.step t (.swarmEvent (.connectionClosed peer connectionId))).behaviour.outboundOwners.get?
      requestId = none := by
  cases hget : t.behaviour.outboundOwners.get? requestId with
  | none => exact h.settled_step hfew (h.mem_iff.mp (List.mem_map_of_mem hmem)).2 hget
  | some owner =>
    have howner := List.inj_on_of_nodup_map h.nodup (h.mem_requests _ _ hget) hmem rfl
    obtain rfl := (Prod.mk.inj howner).2
    obtain ⟨pending, hopen⟩ := h.open_of_owner _ _ _ hget
    simp [PinnedStream.step, Behaviour.onSwarmEvent, Behaviour.onConnectionClosed, hopen, hget]

end Sound

/-! ## Whole runs -/

/-- A new behaviour, with the default limit or a given one. -/
def configured (limit : Option ℕ) : Behaviour Peer Conn Frame Response :=
  limit.elim .new Behaviour.new.withMaxConcurrentStreams

lemma sound_configured (limit : Option ℕ) :
    Sound (configured limit : Behaviour Peer Conn Frame Response).maxConcurrentStreams 0
      ([] : List Conn) (⟨configured limit, [], []⟩ : Trace Peer Conn Frame Response) := by
  have houtcomes : ∀ requestId, (⟨configured limit, [], []⟩ : Trace Peer Conn Frame Response).outcomes
      requestId = 0 := fun _ => by cases limit <;> rfl
  refine ⟨rfl, fun _ => by cases limit <;> rfl, rfl, ?_, fun requestId => ?_, ?_, ?_, ?_⟩
  · cases limit <;> simp [configured, Behaviour.new, Behaviour.withMaxConcurrentStreams]
  · rw [if_neg (by omega), houtcomes]
  all_goals cases limit <;> simp [configured, Behaviour.new, Behaviour.withMaxConcurrentStreams]

variable (limit : Option ℕ) {calls rest : List (Call Peer Conn Frame Response)}

/-- The invariant holds in every run. -/
lemma sound_after (h : Admissible calls) :
    Sound (configured limit : Behaviour Peer Conn Frame Response).maxConcurrentStreams
      (calls.countP Call.isSend) (calls.filterMap Call.opened?) (after (configured limit) calls) := by
  induction calls using List.reverseRecOn with
  | nil => exact sound_configured limit
  | append_singleton calls call ih =>
    have hfew := h.few
    have hfresh := h.fresh
    rw [List.countP_append, List.countP_singleton] at hfew
    rw [List.filterMap_append, List.nodup_append] at hfresh
    have hopened : [call].filterMap Call.opened? = call.opened?.toList := by
      cases hcall : call.opened? <;> simp [hcall]
    rw [hopened] at hfresh
    rw [after_concat, List.countP_append, List.countP_singleton, List.filterMap_append, hopened]
    refine (ih h.of_append).step (fun connectionId hmem hbefore => ?_) hfew
    exact hfresh.2.2 connectionId hbefore connectionId (Option.mem_toList.mpr hmem) rfl

lemma mem_requests_after {request : ℕ × Peer × Conn} (h : request ∈ (after start calls).requests) :
    request ∈ (after start (calls ++ rest)).requests := by
  induction rest using List.reverseRecOn with
  | nil => rwa [List.append_nil]
  | append_singleton rest call ih =>
    rw [← List.append_assoc, after_concat]
    cases call with
    | sendRequest peer connectionId frame => exact List.mem_append_left _ ih
    | _ => exact ih

/-- A settled request stays settled. -/
lemma settled_after (h : Admissible (calls ++ rest)) (hle : requestId ≤ calls.countP Call.isSend)
    (hsettled : (after (configured limit) calls).behaviour.outboundOwners.get? requestId = none) :
    (after (configured limit) (calls ++ rest)).behaviour.outboundOwners.get? requestId = none := by
  induction rest using List.reverseRecOn with
  | nil => rwa [List.append_nil]
  | append_singleton rest call ih =>
    rw [← List.append_assoc] at h ⊢
    have hfew := h.few
    rw [List.countP_append, List.countP_singleton] at hfew
    rw [after_concat]
    refine (sound_after limit h.of_append).settled_step hfew (hle.trans ?_) (ih h.of_append)
    rw [List.countP_append]
    exact Nat.le_add_right _ _

/-- A settled request has one outcome from then on. -/
lemma outcomes_eq_one (h : Admissible (calls ++ rest))
    (hmem : requestId ∈ (after (configured limit) calls).requests.map Prod.fst)
    (hsettled : (after (configured limit) calls).behaviour.outboundOwners.get? requestId = none) :
    (after (configured limit) (calls ++ rest)).outcomes requestId = 1 := by
  obtain ⟨hpos, hle⟩ := (sound_after limit h.of_append).mem_iff.mp hmem
  rw [(sound_after limit h).outcomes_eq]
  refine if_pos ⟨hpos, hle.trans ?_, settled_after limit h hle hsettled⟩
  rw [List.countP_append]
  exact Nat.le_add_right _ _

/-- A request has its outcome if it was refused, and once its connection has closed. -/
lemma outcomes_of_ended {before : List (Call Peer Conn Frame Response)} {frame : Frame}
    (h : Admissible (before ++ .sendRequest peer connectionId frame :: rest))
    (hended : (after (configured limit) before).behaviour.refusal peer connectionId ≠ none ∨
      .swarmEvent (.connectionClosed peer connectionId) ∈ rest) :
    (after (configured limit) (before ++ .sendRequest peer connectionId frame :: rest)).outcomes
      ((after (configured limit) before).behaviour.sendRequestOnConnection
        peer connectionId frame).1 = 1 := by
  have hsent : (((after (configured limit) before).behaviour.sendRequestOnConnection
      peer connectionId frame).1, peer, connectionId) ∈ (after (configured limit)
        (before ++ [.sendRequest peer connectionId frame])).requests := by
    rw [after_concat]
    exact List.mem_append_right _ (List.mem_singleton_self _)
  rw [List.append_cons] at h ⊢
  rcases hended with hrefused | hclosed
  · have hsound := sound_after limit h.of_append.of_append
    have hfew := h.of_append.few
    rw [List.countP_append] at hfew
    obtain ⟨error, herror⟩ := Option.ne_none_iff_exists'.mp hrefused
    refine outcomes_eq_one limit h (List.mem_map_of_mem hsent) ?_
    rw [after_concat]
    simp only [step, Behaviour.sendRequestOnConnection, herror, hsound.next_eq hfew]
    exact hsound.next_fresh
  · obtain ⟨between, later, rfl⟩ := List.append_of_mem hclosed
    rw [← List.append_assoc, List.append_cons] at h ⊢
    have hsound := sound_after limit h.of_append.of_append
    refine outcomes_eq_one limit h
      (List.mem_map_of_mem (mem_requests_after _ (mem_requests_after _ hsent))) ?_
    rw [after_concat]
    exact hsound.settled_of_closed h.of_append.of_append.few (mem_requests_after _ hsent)

/-- **Pinned requests have exactly one outcome.** -/
theorem pinned_requests_have_one_outcome (limit : Option ℕ)
    (calls : List (Call Peer Conn Frame Response)) (hcalls : Admissible calls) :
    -- no request identifier is returned twice, and none has two outcomes
    ((after (configured limit) calls).requests.map Prod.fst).Nodup ∧
    (∀ requestId, (after (configured limit) calls).outcomes requestId ≤ 1) ∧
    -- a request has its outcome if it was refused, and once its connection has closed
    (∀ before peer connectionId frame rest,
      calls = before ++ .sendRequest peer connectionId frame :: rest →
      (after (configured limit) before).behaviour.refusal peer connectionId ≠ none ∨
        .swarmEvent (.connectionClosed peer connectionId) ∈ rest →
      (after (configured limit) calls).outcomes
        ((after (configured limit) before).behaviour.sendRequestOnConnection
          peer connectionId frame).1 = 1) ∧
    -- the owned requests are the outstanding ones, and the connections count them
    (∀ requestId owner,
      (after (configured limit) calls).behaviour.outboundOwners.get? requestId = some owner ↔
        (requestId, owner) ∈ (after (configured limit) calls).requests ∧
          (after (configured limit) calls).outcomes requestId = 0) ∧
    (∀ connectionId state,
      (after (configured limit) calls).behaviour.connections.get? connectionId = some state →
      state.pendingOutbound =
          (after (configured limit) calls).behaviour.owned (state.peer, connectionId) ∧
        state.pendingOutbound ≤
          (configured limit : Behaviour Peer Conn Frame Response).maxConcurrentStreams) ∧
    -- an outcome that does not come from the owner of the request changes nothing
    ∀ peer connectionId event requestId, event.outboundRequestId? = some requestId →
      (after (configured limit) calls).behaviour.outboundOwners.get? requestId ≠
        some (peer, connectionId) →
      step (after (configured limit) calls) (.handlerEvent peer connectionId event) =
        after (configured limit) calls := by
  have hsound := sound_after limit hcalls
  refine ⟨hsound.nodup, ?_, ?_, fun _ _ => hsound.get?_eq_some_iff, hsound.counted, ?_⟩
  · intro requestId
    rw [hsound.outcomes_eq]
    split_ifs <;> omega
  · rintro before peer connectionId frame rest rfl hended
    exact outcomes_of_ended limit hcalls hended
  · intro peer connectionId event requestId hevent hother
    simp only [step, Behaviour.onConnectionHandlerEvent, hevent, ne_eq, hother, not_false_eq_true,
      if_true]

/-- Two requests with room for one; then the connection closes. -/
def twoRequests : List (Call ℕ ℕ Unit Unit) :=
  [.swarmEvent (.connectionEstablished 5 7), .sendRequest 5 7 (), .sendRequest 5 7 (),
    .swarmEvent (.connectionClosed 5 7)]

theorem two_requests_settled :
    Admissible twoRequests ∧ (after (configured (some 1)) twoRequests).outcomes 1 = 1 ∧
      (after (configured (some 1)) twoRequests).outcomes 2 = 1 := by
  have hcalls : Admissible twoRequests := ⟨by decide, by decide⟩
  obtain ⟨-, -, hsettled, -⟩ := pinned_requests_have_one_outcome (some 1) twoRequests hcalls
  refine ⟨hcalls, ?_, ?_⟩
  · exact hsettled (twoRequests.take 1) 5 7 () (twoRequests.drop 2) rfl (.inr (by simp [twoRequests]))
  · exact hsettled (twoRequests.take 2) 5 7 () (twoRequests.drop 3) rfl (.inl (by decide))

end P2pVpn.PinnedStream
