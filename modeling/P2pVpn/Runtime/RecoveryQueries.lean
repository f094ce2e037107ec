/-
# Queries for the recovery of peers

When a peer cannot be reached, the overlay is asked for its addresses.  One query runs at a time; every
attempt makes the wait before the next one longer, and the wait starts again when the last query of the
attempt has ended.  What is known about a peer is forgotten when nothing has happened for a while after
the end of its wait.

Beside the two tables of the program there is a ledger for each peer (`Ledger`), which the calls alone
determine: the attempts since the last restart, the queries that are outstanding, the last attempt and
the time from which the wait counts.  `Agrees` relates the tables to the ledgers, and
`recovery_queries_consistent` says what the tables hold and what is answered in terms of the ledgers.
-/
import P2pVpn.Lib.HashMap
import P2pVpn.Lib.Units

namespace P2pVpn.Recovery

open Lib

def queryTimeout : ℕ := 60 * nanosPerSecond

def backoffBase : ℕ := 30 * nanosPerSecond

def backoffMax : ℕ := 3600 * nanosPerSecond

def stateTtl : ℕ := (5 * 60 + 10) * nanosPerSecond

def connectedRetry : ℕ := 10 * nanosPerSecond

def maxConcurrent : ℕ := 1

def maxTrackedPeers : ℕ := 256

def failureBackoff (failureCount : ℕ) : ℕ :=
  min (backoffBase * 2 ^ min (failureCount - 1) 8) backoffMax

structure QueryState where
  lastQuery : ℕ
  pendingQueries : ℕ
  attemptCount : ℕ
  retryAfter : ℕ
  deriving DecidableEq, Repr

structure RecoveryQueries (Peer Query : Type) where
  peers : HashMap Peer QueryState
  queries : HashMap Query Peer

/-- `QueryState` is kept while it has queries, and for a while after its wait. -/
def QueryState.isLive (now : ℕ) (state : QueryState) : Bool :=
  0 < state.pendingQueries || now - max state.lastQuery state.retryAfter < stateTtl

/-- What `finished` does to the state of the peer. -/
def QueryState.finished (now : ℕ) (state : QueryState) : QueryState :=
  let pendingQueries := state.pendingQueries - 1
  { state with
    pendingQueries
    retryAfter :=
      if pendingQueries = 0 then now + failureBackoff state.attemptCount else state.retryAfter }

namespace RecoveryQueries

variable {Peer Query : Type} [DecidableEq Peer] [DecidableEq Query]

def empty : RecoveryQueries Peer Query := ⟨∅, ∅⟩

variable (s : RecoveryQueries Peer Query)

/-- `retain_peers`, with the queries that are cancelled. -/
def retainPeers (order : KeyOrder Query) (authorized : Peer → Bool) :
    List Query × RecoveryQueries Peer Query :=
  let peers := s.peers.retainKeys authorized
  (((order.entries s.queries).filter fun entry => (peers.get? entry.2).isNone).map Prod.fst,
    ⟨peers, s.queries.retain fun peer => (peers.get? peer).isSome⟩)

def connected (peer : Peer) (now : ℕ) : RecoveryQueries Peer Query :=
  match s.peers.get? peer with
  | none => s
  | some state =>
      let state := { state with attemptCount := 0, retryAfter := now + connectedRetry }
      { s with peers := s.peers.insert peer state }

/-- The first half of `should_query`: peers that have been idle are forgotten. -/
def prune (now : ℕ) : RecoveryQueries Peer Query :=
  { s with peers := s.peers.retain (QueryState.isLive now) }

/-- The second half of `should_query`. -/
def answer (peer : Peer) (now : ℕ) : Bool × RecoveryQueries Peer Query :=
  match s.peers.get? peer with
  | some state =>
      if 0 < state.pendingQueries ∨ now < state.retryAfter then (false, s)
      else (s.queries.keys.card < maxConcurrent, s)
  | none =>
      if maxTrackedPeers ≤ s.peers.keys.card then (false, s)
      else (s.queries.keys.card < maxConcurrent,
        { s with peers := s.peers.insert peer ⟨now, 0, 0, now⟩ })

def shouldQuery (peer : Peer) (now : ℕ) : Bool × RecoveryQueries Peer Query :=
  (s.prune now).answer peer now

/-- The loop of `record` over the queries: those that are new count. -/
def own (peer : Peer) : HashMap Query Peer × ℕ → List Query → HashMap Query Peer × ℕ
  | owned, [] => owned
  | (queries, pending), query :: rest =>
      own peer (queries.insert query peer,
        if (queries.get? query).isNone then pending + 1 else pending) rest

def record (peer : Peer) (queries : List Query) (now : ℕ) : RecoveryQueries Peer Query :=
  match s.peers.get? peer with
  | none => s
  | some state =>
      let attemptCount := min (state.attemptCount + 1) u8Max
      let owned := own peer (s.queries, state.pendingQueries) queries
      ⟨s.peers.insert peer ⟨now, owned.2, attemptCount, now + failureBackoff attemptCount⟩, owned.1⟩

def finished (query : Query) (now : ℕ) : RecoveryQueries Peer Query :=
  match s.queries.get? query with
  | none => s
  | some peer =>
      let queries := s.queries.remove query
      match s.peers.get? peer with
      | none => { s with queries }
      | some state =>
          ⟨s.peers.insert peer (state.finished now), queries⟩

def finishAll (queries : List Query) (now : ℕ) : RecoveryQueries Peer Query :=
  queries.foldl (fun s query => s.finished query now) s

/-- A peer whose queries have taken too long. -/
def isExpired (now : ℕ) (peer : Peer) : Bool :=
  (s.peers.get? peer).any fun state =>
    0 < state.pendingQueries && queryTimeout ≤ now - state.lastQuery

/-- `expire`, with the queries that have expired. -/
def expire (order : KeyOrder Query) (now : ℕ) : List Query × RecoveryQueries Peer Query :=
  let expired := ((order.entries s.queries).filter fun entry => s.isExpired now entry.2).map Prod.fst
  (expired, s.finishAll expired now)

/-- `cancel`, with the queries that are cancelled. -/
def cancel (order : KeyOrder Query) (now : ℕ) : List Query × RecoveryQueries Peer Query :=
  let cancelled := (order.entries s.queries).map Prod.fst
  (cancelled, s.finishAll cancelled now)

/-- `reset`, with the queries that were outstanding. -/
def reset (order : KeyOrder Query) : List Query × RecoveryQueries Peer Query :=
  ((order.entries s.queries).map Prod.fst, empty)

end RecoveryQueries

/-! ## Runs and ledgers -/

inductive RecoveryCall (Peer Query : Type) where
  | shouldQuery (peer : Peer) (now : ℕ)
  | record (peer : Peer) (queries : List Query) (now : ℕ)
  | finished (query : Query) (now : ℕ)
  | expire (order : KeyOrder Query) (now : ℕ)
  | cancel (order : KeyOrder Query) (now : ℕ)
  | connected (peer : Peer) (now : ℕ)
  | retainPeers (order : KeyOrder Query) (authorized : Peer → Bool)
  | reset (order : KeyOrder Query)

/-- What the calls say about one peer. -/
structure Ledger (Query : Type) where
  /-- The attempts that were recorded since the last restart. -/
  attempts : ℕ
  outstanding : Finset Query
  lastAttempt : ℕ
  /-- The last attempt, or the end of its last query. -/
  waitsFrom : ℕ

namespace Ledger

variable {Query : Type} (l : Ledger Query)

def empty : Ledger Query := ⟨0, ∅, 0, 0⟩

/-- The end of the wait. -/
def waitsUntil : ℕ := l.waitsFrom + failureBackoff l.attempts

def forgotten : Ledger Query := { l with attempts := 0, outstanding := ∅ }

variable [DecidableEq Query]

/-- The attempts start again when the peer has been idle for long enough after its wait. -/
def restarted (now : ℕ) : Ledger Query :=
  if l.outstanding = ∅ ∧ l.waitsUntil + stateTtl ≤ now then { l with attempts := 0 } else l

def attempted (queries : List Query) (now : ℕ) : Ledger Query where
  attempts := l.attempts + 1
  outstanding := l.outstanding ∪ queries.toFinset
  lastAttempt := now
  waitsFrom := now

def ended (query : Query) (now : ℕ) : Ledger Query :=
  if query ∈ l.outstanding then
    { l with
      outstanding := l.outstanding.erase query
      waitsFrom := if l.outstanding.erase query = ∅ then now else l.waitsFrom }
  else l

def endedAll (queries : List Query) (now : ℕ) : Ledger Query :=
  queries.foldl (fun l query => l.ended query now) l

/-- All queries end. -/
def cancelled (now : ℕ) : Ledger Query :=
  if l.outstanding = ∅ then l else { l with outstanding := ∅, waitsFrom := now }

/-- The queries end when they have taken too long. -/
def timedOut (now : ℕ) : Ledger Query :=
  if queryTimeout ≤ now - l.lastAttempt then l.cancelled now else l

end Ledger

section Runs

variable {Peer Query : Type} [DecidableEq Peer] [DecidableEq Query]

namespace RecoveryCall

def time? : RecoveryCall Peer Query → Option ℕ
  | shouldQuery _ now | record _ _ now | finished _ now | expire _ now | cancel _ now
  | connected _ now => some now
  | retainPeers _ _ | reset _ => none

def apply (s : RecoveryQueries Peer Query) : RecoveryCall Peer Query → RecoveryQueries Peer Query
  | shouldQuery peer now => (s.shouldQuery peer now).2
  | record peer queries now => s.record peer queries now
  | finished query now => s.finished query now
  | expire order now => (s.expire order now).2
  | cancel order now => (s.cancel order now).2
  | connected peer now => s.connected peer now
  | retainPeers order authorized => (s.retainPeers order authorized).2
  | reset order => (s.reset order).2

/-- The queries that a call records. -/
def recorded : RecoveryCall Peer Query → List Query
  | record _ queries _ => queries
  | _ => []

/-- The peer for which a call records queries. -/
def recordedFor? : RecoveryCall Peer Query → Option Peer
  | record peer _ _ => some peer
  | _ => none

/-- What a call means for the ledger of a peer. -/
def note (p : Peer) (l : Ledger Query) : RecoveryCall Peer Query → Ledger Query
  | shouldQuery _ now => l.restarted now
  | record peer queries now => if peer = p then l.attempted queries now else l
  | finished query now => l.ended query now
  | expire _ now => l.timedOut now
  | cancel _ now => l.cancelled now
  | connected peer _ => if peer = p then { l with attempts := 0 } else l
  | retainPeers _ authorized => if authorized p then l else l.forgotten
  | reset _ => l.forgotten

/-- The peer that may be recorded after a call: the one for which `should_query` was answered with yes,
until it is asked again or peers are dropped. -/
def allowed (s : RecoveryQueries Peer Query) (before : Option Peer) :
    RecoveryCall Peer Query → Option Peer
  | shouldQuery peer now => if (s.shouldQuery peer now).1 then some peer else none
  | retainPeers _ _ | reset _ => none
  | record _ _ _ | finished _ _ | expire _ _ | cancel _ _ | connected _ _ => before

end RecoveryCall

/-- Queries are recorded only for the peer that `should_query` has allowed. -/
def RecordsAllowed : RecoveryQueries Peer Query → Option Peer → List (RecoveryCall Peer Query) → Prop
  | _, _, [] => True
  | s, allowed, call :: calls =>
      (∀ peer ∈ call.recordedFor?, allowed = some peer) ∧
        RecordsAllowed (call.apply s) (call.allowed s allowed) calls

/-- The queries after some calls. -/
def after (calls : List (RecoveryCall Peer Query)) : RecoveryQueries Peer Query :=
  calls.foldl (fun s call => call.apply s) .empty

/-- The ledger of a peer after some calls. -/
def ledger (p : Peer) (calls : List (RecoveryCall Peer Query)) : Ledger Query :=
  calls.foldl (fun l call => call.note p l) .empty

/-! ## Ending several queries -/

variable {queries : List Query} {state : QueryState} {peer : Peer}

omit [DecidableEq Peer] in
lemma Ledger.endedAll_of_disjoint {l : Ledger Query} (now : ℕ)
    (h : ∀ query ∈ queries, query ∉ l.outstanding) : l.endedAll queries now = l := by
  induction queries with
  | nil => rfl
  | cons query queries ih =>
    obtain ⟨hquery, hqueries⟩ := List.forall_mem_cons.mp h
    rw [Ledger.endedAll, List.foldl_cons, Ledger.ended, if_neg hquery]
    exact ih hqueries

omit [DecidableEq Peer] in
lemma Ledger.endedAll_of_subset {l : Ledger Query} (now : ℕ)
    (h : ∀ query ∈ l.outstanding, query ∈ queries) : l.endedAll queries now = l.cancelled now := by
  induction queries generalizing l with
  | nil =>
    have hnone : l.outstanding = ∅ := Finset.eq_empty_of_forall_notMem fun query hquery =>
      List.not_mem_nil (h query hquery)
    rw [Ledger.cancelled, if_pos hnone]
    rfl
  | cons query queries ih =>
    rw [Ledger.endedAll, List.foldl_cons, ← Ledger.endedAll]
    by_cases hmem : query ∈ l.outstanding
    · have hrest : ∀ other ∈ (l.ended query now).outstanding, other ∈ queries := by
        intro other hother
        rw [Ledger.ended, if_pos hmem, Finset.mem_erase] at hother
        exact (List.mem_cons.mp (h other hother.2)).resolve_left hother.1
      rw [ih hrest, Ledger.ended, if_pos hmem, Ledger.cancelled, Ledger.cancelled,
        if_neg (Finset.ne_empty_of_mem hmem)]
      by_cases hlast : l.outstanding.erase query = ∅
      · simp [hlast]
      · simp [hlast]
    · rw [Ledger.ended, if_neg hmem]
      refine ih fun other hother => (List.mem_cons.mp (h other hother)).resolve_left ?_
      rintro rfl
      exact hmem hother

/-! ## The ledgers agree with the tables -/

/-- The state of a peer says what its ledger says. -/
structure QueryState.Reflects (state : QueryState) (l : Ledger Query) : Prop where
  pending : state.pendingQueries = l.outstanding.card
  attempts : state.attemptCount = min l.attempts u8Max
  lastQuery : l.outstanding ≠ ∅ ∨ 0 < l.attempts → state.lastQuery = l.lastAttempt
  retryAfter : 0 < l.attempts → state.retryAfter = l.waitsUntil

/-- The ledger of a peer and the tables agree, and nothing in the ledger is after the clock. -/
structure Agrees (p : Peer) (clock : ℕ) (s : RecoveryQueries Peer Query) (l : Ledger Query) : Prop where
  outstanding : ∀ query, query ∈ l.outstanding ↔ s.queries.get? query = some p
  tracked : l.outstanding ≠ ∅ ∨ 0 < l.attempts → ∃ state, s.peers.get? p = some state
  reflects : ∀ state, s.peers.get? p = some state → state.Reflects l
  lastAttempt_le : l.lastAttempt ≤ l.waitsFrom
  le_clock : l.waitsFrom ≤ clock

variable {p : Peer} {clock now : ℕ} {s : RecoveryQueries Peer Query} {l : Ledger Query}

lemma failureBackoff_min (n : ℕ) : failureBackoff (min n u8Max) = failureBackoff n := by
  have hexponent : min (min n u8Max - 1) 8 = min (n - 1) 8 := by
    simp only [u8Max]
    omega
  rw [failureBackoff, failureBackoff, hexponent]

lemma agrees_empty (p : Peer) : Agrees p 0 (.empty : RecoveryQueries Peer Query) .empty :=
  ⟨by simp [RecoveryQueries.empty, Ledger.empty], by simp [Ledger.empty],
    by simp [RecoveryQueries.empty], le_rfl, le_rfl⟩

/-- A new state for the peer. -/
lemma agrees_insert {peers : HashMap Peer QueryState} {queries : HashMap Query Peer}
    (houtstanding : ∀ query, query ∈ l.outstanding ↔ queries.get? query = some p)
    (hstate : state.Reflects l) (hlast : l.lastAttempt ≤ l.waitsFrom) (hclock : l.waitsFrom ≤ clock) :
    Agrees p clock ⟨peers.insert p state, queries⟩ l := by
  refine ⟨houtstanding, fun _ => ⟨state, HashMap.get?_insert_self _ _ _⟩, fun state' hstate' => ?_,
    hlast, hclock⟩
  rw [HashMap.get?_insert_self] at hstate'
  exact Option.some.inj hstate' ▸ hstate

omit [DecidableEq Peer] in
lemma get?_own (peer : Peer) (owned : HashMap Query Peer × ℕ) (queries : List Query) (query : Query) :
    (RecoveryQueries.own peer owned queries).1.get? query
      = if query ∈ queries then some peer else owned.1.get? query := by
  induction queries generalizing owned with
  | nil => simp [RecoveryQueries.own]
  | cons first queries ih =>
    rw [RecoveryQueries.own, ih, HashMap.get?_insert]
    by_cases heq : query = first <;> simp [heq]

omit [DecidableEq Peer] in
/-- The loop of `record` counts the queries that it owns in the end. -/
lemma own_snd {table : HashMap Query Peer} {pending : ℕ} {owned : Finset Query}
    (howned : ∀ query, query ∈ owned ↔ table.get? query = some peer)
    (hpending : pending = owned.card)
    (hfresh : ∀ query ∈ queries, table.get? query = none ∨ table.get? query = some peer) :
    (RecoveryQueries.own peer (table, pending) queries).2 = (owned ∪ queries.toFinset).card := by
  induction queries generalizing table pending owned with
  | nil => simpa [RecoveryQueries.own] using hpending
  | cons query queries ih =>
    have hunion : owned ∪ (query :: queries).toFinset = insert query owned ∪ queries.toFinset := by
      rw [List.toFinset_cons, Finset.union_insert, Finset.insert_union]
    rw [RecoveryQueries.own, hunion]
    refine ih (fun other => ?_) ?_ fun other hother => ?_
    · rw [Finset.mem_insert, HashMap.get?_insert, howned]
      by_cases heq : other = query <;> simp [heq]
    · rcases hfresh query List.mem_cons_self with hnone | hsome
      · have hnew : query ∉ owned := fun hmem => by
          rw [howned, hnone] at hmem
          cases hmem
        simp [hnone, Finset.card_insert_of_notMem hnew, hpending]
      · rw [hsome, Finset.insert_eq_of_mem ((howned query).mpr hsome), hpending]
        rfl
    · rw [HashMap.get?_insert]
      split_ifs
      · exact .inr rfl
      · exact hfresh other (List.mem_cons_of_mem _ hother)

section Steps

variable (h : Agrees p clock s l)
include h

lemma Agrees.mono (hle : clock ≤ now) : Agrees p now s l :=
  { h with le_clock := h.le_clock.trans hle }

/-- What happens to other peers does not matter. -/
lemma Agrees.congr {s' : RecoveryQueries Peer Query} (hpeers : s'.peers.get? p = s.peers.get? p)
    (hqueries : ∀ query, s'.queries.get? query = some p ↔ s.queries.get? query = some p) :
    Agrees p clock s' l :=
  { h with
    outstanding := fun query => (h.outstanding query).trans (hqueries query).symm
    tracked := hpeers ▸ h.tracked
    reflects := hpeers ▸ h.reflects }

/-- Nothing is known of a peer that is not tracked. -/
lemma Agrees.unused (hnone : s.peers.get? p = none) : l.outstanding = ∅ ∧ l.attempts = 0 := by
  by_contra hused
  rw [not_and_or, ← ne_eq, ← ne_eq, ← Nat.pos_iff_ne_zero] at hused
  obtain ⟨state, hstate⟩ := h.tracked hused
  rw [hnone] at hstate
  cases hstate

/-- With attempts on the ledger, a state stops being live when the ledger restarts. -/
lemma Agrees.isLive_iff (hstate : s.peers.get? p = some state)
    (hattempts : 0 < l.attempts) (now : ℕ) :
    state.isLive now = false ↔ l.outstanding = ∅ ∧ l.waitsUntil + stateTtl ≤ now := by
  have hreflects := h.reflects state hstate
  have hle : l.lastAttempt ≤ l.waitsUntil := h.lastAttempt_le.trans (Nat.le_add_right _ _)
  have httl : 0 < stateTtl := by decide
  rw [QueryState.isLive, hreflects.pending, hreflects.lastQuery (.inr hattempts),
    hreflects.retryAfter hattempts, max_eq_right hle, Bool.or_eq_false_iff, decide_eq_false_iff_not,
    decide_eq_false_iff_not, Finset.card_pos, Finset.not_nonempty_iff_eq_empty]
  refine and_congr_right fun _ => ?_
  omega

/-- A peer is forgotten exactly when its ledger restarts. -/
lemma Agrees.prune (now : ℕ) : Agrees p clock (s.prune now) (l.restarted now) := by
  have hget : ∀ state, (s.prune now).peers.get? p = some state ↔
      s.peers.get? p = some state ∧ state.isLive now = true := fun state => by
    rw [RecoveryQueries.prune, HashMap.get?_retain, Option.filter_eq_some_iff]
  rw [Ledger.restarted]
  split_ifs with hrestart
  · have hnone := hrestart.1
    refine { h with tracked := by simp [hnone], reflects := fun state hstate => ?_ }
    obtain ⟨hstate, hkept⟩ := (hget state).mp hstate
    have hzero : l.attempts = 0 := by
      by_contra hpos
      rw [(h.isLive_iff hstate (Nat.pos_of_ne_zero hpos) now).mpr hrestart] at hkept
      cases hkept
    have hreflects := h.reflects state hstate
    exact ⟨hreflects.pending, by rw [hreflects.attempts, hzero], by simp [hnone], by simp⟩
  · refine { h with
      tracked := fun hused => ?_
      reflects := fun state hstate => h.reflects state ((hget state).mp hstate).1 }
    obtain ⟨state, hstate⟩ := h.tracked hused
    refine ⟨state, (hget state).mpr ⟨hstate, ?_⟩⟩
    by_cases hnone : l.outstanding = ∅
    · have hpos := hused.resolve_left (not_not.mpr hnone)
      exact Bool.eq_true_of_not_eq_false fun hidle => hrestart ((h.isLive_iff hstate hpos now).mp hidle)
    · have hpending : 0 < state.pendingQueries := by
        rw [(h.reflects state hstate).pending, Finset.card_pos]
        exact Finset.nonempty_iff_ne_empty.mpr hnone
      simp [QueryState.isLive, hpending]

/-- A state for a peer that had none. -/
lemma Agrees.answer (peer : Peer) (now : ℕ) : Agrees p clock (s.answer peer now).2 l := by
  rw [RecoveryQueries.answer]
  split
  · split <;> exact h
  · rename_i hnone
    split
    · exact h
    · by_cases hpeer : p = peer
      · subst hpeer
        have hunused := h.unused hnone
        refine agrees_insert h.outstanding ?_ h.lastAttempt_le h.le_clock
        exact ⟨by simp [hunused], by simp [hunused], by simp [hunused], by simp [hunused]⟩
      · exact h.congr (HashMap.get?_insert_of_ne _ hpeer _) fun _ => Iff.rfl

lemma Agrees.connected (peer : Peer) (now : ℕ) :
    Agrees p clock (s.connected peer now) (if peer = p then { l with attempts := 0 } else l) := by
  rw [RecoveryQueries.connected]
  split_ifs with hpeer
  · subst hpeer
    split
    · rename_i hnone
      have hzero : { l with attempts := 0 } = l := by rw [← (h.unused hnone).2]
      rw [hzero]
      exact h
    · rename_i state hstate
      have hreflects := h.reflects state hstate
      refine agrees_insert h.outstanding ⟨hreflects.pending, rfl, fun hused => ?_, by simp⟩
        h.lastAttempt_le h.le_clock
      exact hreflects.lastQuery (.inl (hused.resolve_right (Nat.lt_irrefl 0)))
  · split
    · exact h
    · exact h.congr (HashMap.get?_insert_of_ne _ (Ne.symm hpeer) _) fun _ => Iff.rfl

/-- Queries recorded for a peer that is tracked. -/
lemma Agrees.record (hstate : s.peers.get? peer = some state)
    (hfresh : ∀ query ∈ queries, s.queries.get? query = none) (hclock : clock ≤ now) :
    Agrees p now (s.record peer queries now) (if peer = p then l.attempted queries now else l) := by
  simp only [RecoveryQueries.record, hstate]
  split_ifs with hpeer
  · subst hpeer
    have hreflects := h.reflects state hstate
    have hcard := own_snd h.outstanding hreflects.pending fun query hquery => .inl (hfresh query hquery)
    have hattempts : min (state.attemptCount + 1) u8Max = min (l.attempts + 1) u8Max := by
      rw [hreflects.attempts]
      omega
    refine agrees_insert (fun query => ?_) ⟨hcard, hattempts, fun _ => rfl, fun _ => ?_⟩ le_rfl le_rfl
    · rw [get?_own, Ledger.attempted, Finset.mem_union, List.mem_toFinset, h.outstanding]
      by_cases hquery : query ∈ queries <;> simp [hquery]
    · rw [hattempts, failureBackoff_min]
      rfl
  · refine (h.mono hclock).congr (HashMap.get?_insert_of_ne _ (Ne.symm hpeer) _) fun query => ?_
    rw [get?_own]
    split_ifs with hquery
    · simp [hfresh query hquery, hpeer]
    · rfl

/-- A query that ends, for its owner and for the others. -/
lemma Agrees.finished (query : Query) (hclock : clock ≤ now) :
    Agrees p now (s.finished query now) (l.ended query now) := by
  cases howner : s.queries.get? query with
  | none =>
    have hnot : query ∉ l.outstanding := by simp [h.outstanding, howner]
    rw [RecoveryQueries.finished, howner, Ledger.ended, if_neg hnot]
    exact h.mono hclock
  | some peer =>
    by_cases hpeer : peer = p
    · subst hpeer
      have hmem : query ∈ l.outstanding := (h.outstanding query).mpr howner
      obtain ⟨state, hstate⟩ := h.tracked (.inl (Finset.ne_empty_of_mem hmem))
      have hreflects := h.reflects state hstate
      have hcard : (state.finished now).pendingQueries = (l.outstanding.erase query).card := by
        rw [Finset.card_erase_of_mem hmem, ← hreflects.pending]
        rfl
      have hiff : (state.finished now).pendingQueries = 0 ↔ l.outstanding.erase query = ∅ := by
        rw [hcard, Finset.card_eq_zero]
      simp only [RecoveryQueries.finished, howner, hstate, Ledger.ended, if_pos hmem]
      refine agrees_insert (fun other => ?_) ⟨hcard, hreflects.attempts, fun _ => ?_, fun hattempts => ?_⟩
        ?_ ?_
      · rw [Finset.mem_erase, h.outstanding, HashMap.get?_remove]
        by_cases heq : other = query <;> simp [heq]
      · exact hreflects.lastQuery (.inl (Finset.ne_empty_of_mem hmem))
      · change (if (state.finished now).pendingQueries = 0 then _ else _) = _ + _
        simp only [hiff]
        split_ifs
        · rw [hreflects.attempts, failureBackoff_min]
        · exact hreflects.retryAfter hattempts
      · dsimp only
        split_ifs
        · exact (h.lastAttempt_le.trans h.le_clock).trans hclock
        · exact h.lastAttempt_le
      · dsimp only
        split_ifs
        · exact le_rfl
        · exact h.le_clock.trans hclock
    · have hnot : query ∉ l.outstanding := by simp [h.outstanding, howner, hpeer]
      rw [Ledger.ended, if_neg hnot]
      refine (h.mono hclock).congr ?_ fun other => ?_
      · simp only [RecoveryQueries.finished, howner]
        split
        · rfl
        · exact HashMap.get?_insert_of_ne _ (Ne.symm hpeer) _
      · have hqueries : (s.finished query now).queries = s.queries.remove query := by
          simp only [RecoveryQueries.finished, howner]
          split <;> rfl
        rw [hqueries, HashMap.get?_remove]
        split_ifs with heq
        · simp [heq, howner, hpeer]
        · rfl

lemma Agrees.finishAll (queries : List Query) (hclock : clock ≤ now) :
    Agrees p now (s.finishAll queries now) (l.endedAll queries now) := by
  induction queries generalizing clock s l with
  | nil => exact h.mono hclock
  | cons query queries ih => exact ih (h.finished query hclock) le_rfl

/-- All queries of a peer expire together, when its last attempt is too long ago. -/
lemma Agrees.expire (order : KeyOrder Query) (hclock : clock ≤ now) :
    Agrees p now (s.expire order now).2 (l.timedOut now) := by
  have hexpired : ∀ query, query ∈ (s.expire order now).1 ∧ query ∈ l.outstanding ↔
      query ∈ l.outstanding ∧ queryTimeout ≤ now - l.lastAttempt := by
    intro query
    rw [and_comm]
    refine and_congr_right fun hmem => ?_
    have howned := (h.outstanding query).mp hmem
    obtain ⟨state, hstate⟩ := h.tracked (.inl (Finset.ne_empty_of_mem hmem))
    have hreflects := h.reflects state hstate
    have hpending : 0 < state.pendingQueries := by
      rw [hreflects.pending]
      exact Finset.card_pos.mpr ⟨query, hmem⟩
    have hlast := hreflects.lastQuery (.inl (Finset.ne_empty_of_mem hmem))
    simp [RecoveryQueries.expire, RecoveryQueries.isExpired, howned, hstate, hpending, hlast]
  have hended : l.endedAll (s.expire order now).1 now = l.timedOut now := by
    rw [Ledger.timedOut]
    split_ifs with htimeout
    · exact Ledger.endedAll_of_subset now fun query hmem => ((hexpired query).mpr ⟨hmem, htimeout⟩).1
    · exact Ledger.endedAll_of_disjoint now fun query hquery hmem =>
        htimeout ((hexpired query).mp ⟨hquery, hmem⟩).2
  rw [← hended]
  exact h.finishAll _ hclock

lemma Agrees.cancel (order : KeyOrder Query) (hclock : clock ≤ now) :
    Agrees p now (s.cancel order now).2 (l.cancelled now) := by
  have hended : l.endedAll (s.cancel order now).1 now = l.cancelled now := by
    refine Ledger.endedAll_of_subset now fun query hmem => ?_
    simp [RecoveryQueries.cancel, (h.outstanding query).mp hmem]
  rw [← hended]
  exact h.finishAll _ hclock

/-- The queries of a peer that is kept are kept, since it is tracked. -/
lemma Agrees.retainPeers (order : KeyOrder Query) (authorized : Peer → Bool) :
    Agrees p clock (s.retainPeers order authorized).2 (if authorized p then l else l.forgotten) := by
  have hqueries : ∀ query, (s.retainPeers order authorized).2.queries.get? query = some p ↔
      s.queries.get? query = some p ∧ authorized p = true := by
    intro query
    rw [RecoveryQueries.retainPeers, HashMap.get?_retain, Option.filter_eq_some_iff]
    refine and_congr_right fun howned => ?_
    obtain ⟨state, hstate⟩ := h.tracked (.inl (Finset.ne_empty_of_mem ((h.outstanding query).mpr howned)))
    by_cases hauthorized : authorized p <;> simp [HashMap.get?_retainKeys, hauthorized, hstate]
  split_ifs with hauthorized
  · refine h.congr ?_ fun query => ?_
    · simp [RecoveryQueries.retainPeers, HashMap.get?_retainKeys, hauthorized]
    · simp [hqueries, hauthorized]
  · have hnone : (s.retainPeers order authorized).2.peers.get? p = none := by
      simp [RecoveryQueries.retainPeers, HashMap.get?_retainKeys, hauthorized]
    exact ⟨fun query => by simp [hqueries, hauthorized, Ledger.forgotten], by simp [Ledger.forgotten],
      by simp [hnone], h.lastAttempt_le, h.le_clock⟩

lemma Agrees.reset (order : KeyOrder Query) : Agrees p clock (s.reset order).2 l.forgotten :=
  ⟨(agrees_empty p).outstanding, by simp [Ledger.forgotten],
    by simp [RecoveryQueries.reset, RecoveryQueries.empty], h.lastAttempt_le, h.le_clock⟩

end Steps

/-! ## Runs -/

/-- Only what a call records becomes outstanding. -/
lemma mem_outstanding_note {call : RecoveryCall Peer Query} {query : Query}
    (h : query ∈ (call.note p l).outstanding) : query ∈ l.outstanding ∨ query ∈ call.recorded := by
  have hcancelled : ∀ now, query ∈ (l.cancelled now).outstanding → query ∈ l.outstanding := by
    intro now hmem
    rw [Ledger.cancelled] at hmem
    split_ifs at hmem
    · exact hmem
    · exact absurd hmem (Finset.notMem_empty query)
  cases call with
  | cancel order now => exact .inl (hcancelled now h)
  | reset order => exact absurd h (Finset.notMem_empty query)
  | expire order now =>
    rw [RecoveryCall.note, Ledger.timedOut] at h
    split at h
    · exact .inl (hcancelled now h)
    · exact .inl h
  | retainPeers order authorized =>
    rw [RecoveryCall.note] at h
    split at h
    · exact .inl h
    · exact absurd h (Finset.notMem_empty query)
  | shouldQuery | record | finished | connected =>
    simp only [RecoveryCall.note, Ledger.restarted, Ledger.ended] at h
    split at h
    · simp_all [Ledger.attempted, RecoveryCall.recorded]
    · exact .inl h

/-- A peer is tracked. -/
def Tracked (s : RecoveryQueries Peer Query) (peer : Peer) : Prop := (s.peers.get? peer).isSome = true

omit [DecidableEq Query] in
lemma tracked_insert {peers : HashMap Peer QueryState} {queries : HashMap Query Peer}
    (h : (peers.get? peer).isSome = true) (other : Peer) (state : QueryState) :
    Tracked ⟨peers.insert other state, queries⟩ peer := by
  rw [Tracked, HashMap.get?_insert]
  split_ifs
  · rfl
  · exact h

lemma Tracked.finished (h : Tracked s peer) (query : Query) (now : ℕ) :
    Tracked (s.finished query now) peer := by
  rw [RecoveryQueries.finished]
  split
  · exact h
  · dsimp only
    split
    · exact h
    · exact tracked_insert h _ _

lemma Tracked.finishAll (h : Tracked s peer) (queries : List Query) (now : ℕ) :
    Tracked (s.finishAll queries now) peer := by
  induction queries generalizing s with
  | nil => exact h
  | cons query queries ih => exact ih (h.finished query now)

omit [DecidableEq Query] in
/-- A peer that may be queried is tracked from then on. -/
lemma tracked_of_shouldQuery (h : (s.shouldQuery peer now).1 = true) :
    Tracked (s.shouldQuery peer now).2 peer := by
  rw [RecoveryQueries.shouldQuery, RecoveryQueries.answer] at h ⊢
  split
  · rename_i state hstate
    simp only [hstate] at h ⊢
    split at h
    · cases h
    · rename_i hready
      rw [if_neg hready, Tracked, hstate]
      rfl
  · rename_i hnone
    simp only [hnone] at h ⊢
    split at h
    · cases h
    · rename_i hroom
      rw [if_neg hroom, Tracked, HashMap.get?_insert_self]
      rfl

/-- The peer that may be recorded is tracked. -/
lemma tracked_allowed {allowed : Option Peer} (h : ∀ peer, allowed = some peer → Tracked s peer)
    (call : RecoveryCall Peer Query) (peer : Peer) (hallowed : call.allowed s allowed = some peer) :
    Tracked (call.apply s) peer := by
  cases call with
  | shouldQuery other now =>
    rw [RecoveryCall.allowed] at hallowed
    split_ifs at hallowed with hyes
    obtain rfl := Option.some.inj hallowed
    exact tracked_of_shouldQuery hyes
  | record other queries now =>
    have htracked := h peer hallowed
    rw [RecoveryCall.apply, RecoveryQueries.record]
    split
    · exact htracked
    · exact tracked_insert htracked _ _
  | finished query now => exact (h peer hallowed).finished query now
  | expire order now => exact (h peer hallowed).finishAll _ now
  | cancel order now => exact (h peer hallowed).finishAll _ now
  | connected other now =>
    have htracked := h peer hallowed
    rw [RecoveryCall.apply, RecoveryQueries.connected]
    split
    · exact htracked
    · exact tracked_insert htracked _ _
  | retainPeers order authorized => cases hallowed
  | reset order => cases hallowed

/-- The tables agree with the ledgers of all peers, what is outstanding was recorded before, and the
peer that may be recorded is tracked. -/
structure Consistent (clock : ℕ) (s : RecoveryQueries Peer Query) (ledgers : Peer → Ledger Query)
    (recorded : List Query) (allowed : Option Peer) : Prop where
  agrees : ∀ p, Agrees p clock s (ledgers p)
  recorded : ∀ p, ∀ query ∈ (ledgers p).outstanding, query ∈ recorded
  tracked : ∀ peer, allowed = some peer → Tracked s peer

variable {ledgers : Peer → Ledger Query} {recorded : List Query} {allowed : Option Peer}

/-- **One call.**  The clock goes on to the time of the call. -/
lemma Consistent.apply (h : Consistent clock s ledgers recorded allowed)
    (call : RecoveryCall Peer Query) (hfresh : ∀ query ∈ call.recorded, query ∉ recorded)
    (hallowed : ∀ peer ∈ call.recordedFor?, allowed = some peer)
    (hclock : ∀ time ∈ call.time?, clock ≤ time) :
    Consistent (call.time?.getD clock) (call.apply s) (fun p => call.note p (ledgers p))
      (recorded ++ call.recorded) (call.allowed s allowed) := by
  refine ⟨fun p => ?_, fun p query hquery => ?_, tracked_allowed h.tracked call⟩
  · have hp := h.agrees p
    cases call with
    | shouldQuery peer now => exact ((hp.mono (hclock now rfl)).prune now).answer peer now
    | record peer queries now =>
      obtain ⟨state, hstate⟩ :=
        Option.isSome_iff_exists.mp (h.tracked peer (hallowed peer rfl))
      refine hp.record hstate (fun query hquery => ?_) (hclock now rfl)
      refine Option.eq_none_iff_forall_ne_some.mpr fun owner howner => hfresh query hquery ?_
      exact h.recorded owner query (((h.agrees owner).outstanding query).mpr howner)
    | finished query now => exact hp.finished query (hclock now rfl)
    | expire order now => exact hp.expire order (hclock now rfl)
    | cancel order now => exact hp.cancel order (hclock now rfl)
    | connected peer now => exact (hp.mono (hclock now rfl)).connected peer now
    | retainPeers order authorized => exact hp.retainPeers order authorized
    | reset order => exact hp.reset order
  · exact List.mem_append.mpr ((mem_outstanding_note hquery).imp_left (h.recorded p query))

/-- **A run.** -/
lemma Consistent.foldl (h : Consistent clock s ledgers recorded allowed)
    {calls : List (RecoveryCall Peer Query)}
    (hfresh : (recorded ++ calls.flatMap RecoveryCall.recorded).Nodup)
    (hallowed : RecordsAllowed s allowed calls)
    (hclock : ∀ time ∈ calls.filterMap RecoveryCall.time?, clock ≤ time)
    (htimes : (calls.filterMap RecoveryCall.time?).Pairwise (· ≤ ·)) :
    ∃ clock, ∀ p, Agrees p clock (calls.foldl (fun s call => call.apply s) s)
      (calls.foldl (fun l call => call.note p l) (ledgers p)) := by
  induction calls generalizing clock s ledgers recorded allowed with
  | nil => exact ⟨clock, h.agrees⟩
  | cons call calls ih =>
    rw [List.flatMap_cons, ← List.append_assoc] at hfresh
    have hnew : ∀ query ∈ call.recorded, query ∉ recorded := fun query hquery hold =>
      (List.nodup_append.mp hfresh.of_append_left).2.2 query hold query hquery rfl
    have hstep := h.apply call hnew hallowed.1 fun time htime =>
      hclock time (List.mem_filterMap.mpr ⟨call, List.mem_cons_self, htime⟩)
    cases htime : call.time? with
    | none =>
      rw [htime] at hstep
      rw [List.filterMap_cons_none htime] at hclock htimes
      exact ih hstep hfresh hallowed.2 hclock htimes
    | some time =>
      rw [htime] at hstep
      rw [List.filterMap_cons_some htime, List.pairwise_cons] at htimes
      exact ih hstep hfresh hallowed.2 htimes.1 htimes.2

/-- A peer is refused as long as its wait lasts, also if idle peers are forgotten first. -/
lemma Agrees.refused (h : Agrees p clock s l) (hattempts : 0 < l.attempts) (hnow : now < l.waitsUntil) :
    (s.shouldQuery p now).1 = false := by
  obtain ⟨state, hstate⟩ := h.tracked (.inr hattempts)
  have hretry := (h.reflects state hstate).retryAfter hattempts
  have hlive : state.isLive now = true := by
    have hwait : now - max state.lastQuery state.retryAfter = 0 :=
      Nat.sub_eq_zero_of_le (hnow.le.trans (hretry ▸ le_max_right _ _))
    simp [QueryState.isLive, hwait, stateTtl, nanosPerSecond]
  have hkept : (s.prune now).peers.get? p = some state := by
    simp [RecoveryQueries.prune, hstate, hlive]
  rw [RecoveryQueries.shouldQuery, RecoveryQueries.answer, hkept]
  simp [hretry, hnow]

omit [DecidableEq Query] in
/-- A query is allowed only when none is outstanding. -/
lemma queries_of_shouldQuery (h : (s.shouldQuery peer now).1 = true) : s.queries.keys = ∅ := by
  have hlt : s.queries.keys.card < maxConcurrent := by
    rw [RecoveryQueries.shouldQuery, RecoveryQueries.answer] at h
    split at h <;> split at h
    · cases h
    · exact of_decide_eq_true h
    · cases h
    · exact of_decide_eq_true h
  exact Finset.card_eq_zero.mp (Nat.lt_one_iff.mp hlt)

/-- **Recovery queries are owned consistently, and the wait after an attempt is kept.**  After any calls
at times that do not decrease, in which every query is recorded once and for the peer that
`should_query` has allowed: a peer owns its outstanding queries and counts them as pending; a peer with
outstanding queries is tracked; a query is allowed only when no peer has one outstanding; and a peer
with `n` attempts is refused until the `n`-th wait has ended, counted from the attempt and again from
the end of its last query. -/
theorem recovery_queries_consistent (calls : List (RecoveryCall Peer Query))
    (hfresh : (calls.flatMap RecoveryCall.recorded).Nodup) (hallowed : RecordsAllowed .empty none calls)
    (htimes : (calls.filterMap RecoveryCall.time?).Pairwise (· ≤ ·)) (p : Peer) :
    (∀ query, (after calls).queries.get? query = some p ↔ query ∈ (ledger p calls).outstanding) ∧
    (∀ state, (after calls).peers.get? p = some state →
      state.pendingQueries = (ledger p calls).outstanding.card) ∧
    ((ledger p calls).outstanding.Nonempty → ∃ state, (after calls).peers.get? p = some state) ∧
    (∀ now, ((after calls).shouldQuery p now).1 = true →
      ∀ peer, (ledger peer calls).outstanding = ∅) ∧
    (∀ now, 0 < (ledger p calls).attempts →
      now < (ledger p calls).waitsFrom + failureBackoff (ledger p calls).attempts →
      ((after calls).shouldQuery p now).1 = false) := by
  have hstart : Consistent 0 (.empty : RecoveryQueries Peer Query) (fun _ => .empty) [] none :=
    ⟨agrees_empty, fun _ _ hquery => absurd hquery (Finset.notMem_empty _), fun _ hnone => by cases hnone⟩
  obtain ⟨clock, h⟩ := hstart.foldl hfresh hallowed (fun _ _ => Nat.zero_le _) htimes
  have hp : Agrees p clock (after calls) (ledger p calls) := h p
  refine ⟨fun query => (hp.outstanding query).symm, fun state hstate => (hp.reflects state hstate).pending,
    fun hsome => hp.tracked (.inl hsome.ne_empty), fun now hyes peer => ?_,
    fun now hattempts hnow => hp.refused hattempts hnow⟩
  have hnone := queries_of_shouldQuery hyes
  refine Finset.eq_empty_of_forall_notMem fun query hquery => ?_
  have howned : (after calls).queries.get? query = some peer := ((h peer).outstanding query).mp hquery
  exact Finset.notMem_empty query (hnone ▸ HashMap.mem_keys.mpr ⟨peer, howned⟩)

/-- Two attempts for one peer, the second after the wait of the first; the queries of the first are
finished, the one of the second expires.  Then a query for another peer is cancelled. -/
def sampleCalls : List (RecoveryCall ℕ ℕ) :=
  [.shouldQuery 7 0, .record 7 [1, 2] 0, .finished 1 5, .finished 2 6,
    .shouldQuery 7 (6 + backoffBase), .record 7 [3] (6 + backoffBase), .expire .sorted (9 + 3 * backoffBase),
    .shouldQuery 8 (9 + 3 * backoffBase), .record 8 [4] (9 + 3 * backoffBase),
    .cancel .sorted (10 + 3 * backoffBase)]

/-- The second wait counts from the expiry of the query, and is twice the first; the query for the other
peer is owned by it until it is cancelled. -/
theorem sample_second_wait_kept :
    (ledger 7 sampleCalls).attempts = 2 ∧ (ledger 7 sampleCalls).waitsFrom = 9 + 3 * backoffBase ∧
      ((after sampleCalls).shouldQuery 7 (8 + 5 * backoffBase)).1 = false ∧
      (after (sampleCalls.take 9)).queries.get? 4 = some 8 ∧
      (after sampleCalls).queries.get? 4 ≠ some 8 := by
  have hattempts : (ledger 7 sampleCalls).attempts = 2 := by decide +kernel
  have hwaits : (ledger 7 sampleCalls).waitsFrom = 9 + 3 * backoffBase := by decide +kernel
  have hallowed : RecordsAllowed .empty none sampleCalls := by
    refine ⟨?_, ?_, ?_, ?_, ?_, ?_, ?_, ?_, ?_, ?_, trivial⟩
    all_goals decide +kernel
  have hallowed' : RecordsAllowed .empty none (sampleCalls.take 9) := by
    refine ⟨?_, ?_, ?_, ?_, ?_, ?_, ?_, ?_, ?_, trivial⟩
    all_goals decide +kernel
  have hrun := recovery_queries_consistent sampleCalls (by decide +kernel) hallowed (by decide +kernel)
  have hrun' :=
    recovery_queries_consistent (sampleCalls.take 9) (by decide +kernel) hallowed' (by decide +kernel)
  refine ⟨hattempts, hwaits, (hrun 7).2.2.2.2 _ ?_ ?_, ((hrun' 8).1 4).mpr (by decide +kernel), ?_⟩
  · rw [hattempts]
    exact Nat.two_pos
  · rw [hattempts, hwaits]
    decide +kernel
  · rw [ne_eq, (hrun 8).1 4]
    decide +kernel

end Runs

end P2pVpn.Recovery
