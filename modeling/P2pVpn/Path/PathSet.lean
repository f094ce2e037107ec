/-
# Paths to peers

A path set keeps two lists: the path candidates of all peers, with what is known about each path,
and the inventories of the connections that back a path.  A direct path is known by its peer and
kind, a relayed one by its relay as well, in both lists.  An inventory is an array with room for a
few connection identifiers; recording one moves it to the end and may push out the oldest, and
forgetting one closes the gap.
-/
import P2pVpn.Lib.FirstMatch
import P2pVpn.Lib.Units
import Mathlib.Algebra.Order.Group.Int
import Mathlib.Data.List.Basic

namespace P2pVpn.Path

open P2pVpn.Lib

def pathFailurePenaltyStep : ℕ := 50

def pathFailurePenaltyMax : ℕ := pathFailurePenaltyStep

def pathFailurePenaltyRecoveryStep : ℕ := 10

def maxTrackedPathConnectionIds : ℕ := 8

inductive PathKind where
  | directUdpDatagram
  | directQuicDatagram
  | directQuicStream
  | directTcpStream
  | circuitRelay
  deriving DecidableEq, Repr

def PathKind.defaultScore : PathKind → ℤ
  | .directUdpDatagram => 95
  | .directQuicDatagram => 100
  | .directQuicStream => 75
  | .directTcpStream => 40
  | .circuitRelay => 30

inductive PathOrigin where
  | unknown
  | configured
  | mdns
  | kademlia
  | identify
  | relayCircuit
  | dcutr
  | packetPlaneNegotiation
  deriving DecidableEq, Repr

inductive PathConnectionRole where
  | unknown
  | dialer
  | listener
  deriving DecidableEq, Repr

structure PathCandidate (Peer Conn : Type) where
  peer : Peer
  kind : PathKind
  relayPeer : Option Peer
  observedRttMs : Option ℕ
  estimatedMtu : Option ℕ
  failurePenalty : ℕ
  relay : Bool
  healthy : Bool
  establishedConnections : ℕ
  origin : PathOrigin
  connectionRole : PathConnectionRole
  establishedAsRelayed : Bool
  latestConnectionId : Option Conn
  firstSeenUnixSeconds : Option ℕ
  lastEstablishedUnixSeconds : Option ℕ
  deriving DecidableEq

variable {Peer Conn : Type}

namespace PathCandidate

def new (peer : Peer) (kind : PathKind) : PathCandidate Peer Conn where
  peer := peer
  kind := kind
  relayPeer := none
  observedRttMs := none
  estimatedMtu := none
  failurePenalty := 0
  relay := kind = .circuitRelay
  healthy := true
  establishedConnections := 0
  origin := .unknown
  connectionRole := .unknown
  establishedAsRelayed := kind = .circuitRelay
  latestConnectionId := none
  firstSeenUnixSeconds := none
  lastEstablishedUnixSeconds := none

/-- `score`, where an unhealthy path has the least 32-bit number. -/
def score (candidate : PathCandidate Peer Conn) : ℤ :=
  if !candidate.healthy then -2 ^ 31
  else
    candidate.kind.defaultScore - (candidate.observedRttMs.map fun rtt => ((rtt / 10 : ℕ) : ℤ)).getD 0
      - candidate.failurePenalty

def identity (candidate : PathCandidate Peer Conn) : PathKind × Option Peer :=
  (candidate.kind, candidate.relayPeer)

end PathCandidate

/-! ## Connection inventories -/

/-- The array of connection identifiers of one path. -/
structure ConnectionIds (Conn : Type) where
  slots : List (Option Conn)
  length_eq : slots.length = maxTrackedPathConnectionIds

/-- The identifiers in the array, in their order. -/
def ConnectionIds.tracked (ids : ConnectionIds Conn) : List Conn := ids.slots.filterMap id

def ConnectionIds.empty : ConnectionIds Conn :=
  ⟨List.replicate maxTrackedPathConnectionIds none, List.length_replicate⟩

structure PathConnectionInventoryUpdate (Conn : Type) where
  latestConnectionId : Option Conn
  trackedConnections : ℕ
  connectionWasTracked : Bool

def PathConnectionInventoryUpdate.default : PathConnectionInventoryUpdate Conn := ⟨none, 0, false⟩

def connectionInventoryUpdate (ids : ConnectionIds Conn) (connectionWasTracked : Bool) :
    PathConnectionInventoryUpdate Conn where
  latestConnectionId := ids.tracked.getLast?
  trackedConnections := min ids.tracked.length u32Max
  connectionWasTracked := connectionWasTracked

section Compaction

variable [DecidableEq Conn] (ids : ConnectionIds Conn) (connectionId : Conn)

/-- One turn of the loop that copies the other identifiers to the front of a new array. -/
def compactStep (state : List (Option Conn) × ℕ) (existing : Conn) : List (Option Conn) × ℕ :=
  if existing ≠ connectionId ∧ state.2 < state.1.length then
    (state.1.set state.2 (some existing), state.2 + 1)
  else state

/-- The new array and the number of identifiers copied to it. -/
def compact (ids : ConnectionIds Conn) : List (Option Conn) × ℕ :=
  ids.tracked.foldl (compactStep connectionId)
    (List.replicate maxTrackedPathConnectionIds none, 0)

lemma length_foldl_compactStep (existing : List Conn) (state : List (Option Conn) × ℕ) :
    (existing.foldl (compactStep connectionId) state).1.length = state.1.length := by
  induction existing generalizing state with
  | nil => rfl
  | cons first existing ih =>
    rw [List.foldl_cons, ih]
    unfold compactStep
    split_ifs <;> simp

lemma length_compact (ids : ConnectionIds Conn) :
    (compact connectionId ids).1.length = maxTrackedPathConnectionIds := by
  rw [compact, length_foldl_compactStep, List.length_replicate]

/-- The array after a last identifier is written behind the copied ones.  A full array is moved
one place to the front first (`copy_within(1.., 0)`), which loses its oldest identifier. -/
def ConnectionIds.recorded : ConnectionIds Conn :=
  let compacted := compact connectionId ids
  let full := compacted.2 = compacted.1.length
  { slots :=
      if full then (compacted.1.drop 1 ++ compacted.1.drop (compacted.1.length - 1)).set
        (compacted.2 - 1) (some connectionId)
      else compacted.1.set compacted.2 (some connectionId)
    length_eq := by
      have hlength := length_compact connectionId ids
      have hpositive : 0 < maxTrackedPathConnectionIds := by decide
      split_ifs <;> simp <;> omega }

def ConnectionIds.forgotten : ConnectionIds Conn :=
  ⟨(compact connectionId ids).1, length_compact connectionId ids⟩

def recordConnectionId :
    Option Conn → PathConnectionInventoryUpdate Conn × ConnectionIds Conn
  | none => (connectionInventoryUpdate ids false, ids)
  | some connectionId =>
    let ids := ids.recorded connectionId
    (connectionInventoryUpdate ids true, ids)

def forgetConnectionId :
    Option Conn → PathConnectionInventoryUpdate Conn × ConnectionIds Conn
  | none => (connectionInventoryUpdate ids false, ids)
  | some connectionId =>
    let connectionWasTracked := ids.tracked.any (· = connectionId)
    let ids := ids.forgotten connectionId
    (connectionInventoryUpdate ids connectionWasTracked, ids)

/-! ### The arrays as lists -/

/-- An array with the given identifiers at its front. -/
def padded (tracked : List Conn) : List (Option Conn) :=
  tracked.map some ++ List.replicate (maxTrackedPathConnectionIds - tracked.length) none

omit [DecidableEq Conn] in
lemma filterMap_padded (tracked : List Conn) : (padded tracked).filterMap id = tracked := by
  simp [padded, List.filterMap_map]

omit [DecidableEq Conn] in
lemma padded_set {tracked : List Conn} (h : tracked.length < maxTrackedPathConnectionIds)
    (connectionId : Conn) :
    (padded tracked).set tracked.length (some connectionId) = padded (tracked ++ [connectionId]) := by
  obtain ⟨room, hroom⟩ : ∃ room, maxTrackedPathConnectionIds - tracked.length = room + 1 :=
    ⟨maxTrackedPathConnectionIds - tracked.length - 1, by omega⟩
  have hafter : maxTrackedPathConnectionIds - (tracked ++ [connectionId]).length = room := by
    rw [List.length_append, List.length_singleton]
    omega
  rw [padded, padded, hroom, hafter, List.set_append_right _ _ (by simp)]
  simp [List.replicate_succ]

omit [DecidableEq Conn] in
lemma ConnectionIds.length_tracked_le : ids.tracked.length ≤ maxTrackedPathConnectionIds := by
  rw [← ids.length_eq]
  exact List.length_filterMap_le _ _

lemma foldl_compactStep_eq (rest done : List Conn)
    (h : done.length + rest.length ≤ maxTrackedPathConnectionIds) :
    rest.foldl (compactStep connectionId) (padded done, done.length) =
      (padded (done ++ rest.filter (· ≠ connectionId)),
        (done ++ rest.filter (· ≠ connectionId)).length) := by
  induction rest generalizing done with
  | nil => simp
  | cons existing rest ih =>
    rw [List.length_cons] at h
    rw [List.foldl_cons]
    by_cases hsame : existing = connectionId
    · have hskip : compactStep connectionId (padded done, done.length) existing =
          (padded done, done.length) := if_neg fun hboth => hboth.1 hsame
      rw [hskip, ih done (by omega), List.filter_cons_of_neg (by simp [hsame])]
    · have hroom : done.length < (padded done).length := by
        simp [padded]
        omega
      have hcopy : compactStep connectionId (padded done, done.length) existing =
          (padded (done ++ [existing]), (done ++ [existing]).length) := by
        rw [compactStep, if_pos ⟨hsame, hroom⟩, padded_set (by omega), List.length_append,
          List.length_singleton]
      rw [hcopy, ih (done ++ [existing]) (by rw [List.length_append, List.length_singleton]; omega),
        List.filter_cons_of_pos (by simp [hsame]), List.append_assoc, List.singleton_append]

/-- Compaction keeps the other identifiers in their order. -/
lemma compact_eq (ids : ConnectionIds Conn) :
    compact connectionId ids =
      (padded (ids.tracked.filter (· ≠ connectionId)),
        (ids.tracked.filter (· ≠ connectionId)).length) := by
  have hlength := ids.length_tracked_le
  exact foldl_compactStep_eq connectionId ids.tracked [] (by simpa using hlength)

lemma ConnectionIds.tracked_forgotten :
    (ids.forgotten connectionId).tracked = ids.tracked.filter (· ≠ connectionId) := by
  have hslots : (ids.forgotten connectionId).slots = _ := congrArg Prod.fst (compact_eq connectionId ids)
  rw [ConnectionIds.tracked, hslots, filterMap_padded]

/-- The most recent identifiers that there is room for. -/
def keepRecent (ids : List Conn) : List Conn := ids.drop (ids.length - maxTrackedPathConnectionIds)

lemma ConnectionIds.tracked_recorded :
    (ids.recorded connectionId).tracked =
      keepRecent (ids.tracked.filter (· ≠ connectionId) ++ [connectionId]) := by
  have hlength := length_compact connectionId ids
  have hle := (List.length_filter_le (· ≠ connectionId) ids.tracked).trans ids.length_tracked_le
  rw [ConnectionIds.tracked, ConnectionIds.recorded, keepRecent]
  dsimp only
  rw [compact_eq] at hlength ⊢
  dsimp only at hlength ⊢
  generalize ids.tracked.filter (· ≠ connectionId) = others at *
  rw [hlength]
  split_ifs with hfull
  · -- a full array: the oldest identifier is pushed out
    obtain ⟨oldest, others, rfl⟩ : ∃ oldest rest, others = oldest :: rest := by
      cases others with
      | nil => exact absurd hfull (by simp [maxTrackedPathConnectionIds])
      | cons oldest rest => exact ⟨oldest, rest, rfl⟩
    have hpad : padded (oldest :: others) = some oldest :: others.map some := by
      rw [padded, hfull, Nat.sub_self]
      simp
    have hothers : others.length = 7 := by
      rw [List.length_cons] at hfull
      exact Nat.succ.inj hfull
    have hdrop : (oldest :: others ++ [connectionId]).length - maxTrackedPathConnectionIds = 1 := by
      simp [hothers, maxTrackedPathConnectionIds]
    obtain ⟨last, hlast⟩ : ∃ last, (some oldest :: others.map some).drop
        (maxTrackedPathConnectionIds - 1) = [last] := by
      refine List.length_eq_one_iff.mp ?_
      simp [hothers, maxTrackedPathConnectionIds]
    rw [hpad, hdrop, hlast, hfull, List.drop_one, List.tail_cons,
      List.set_append_right _ _ (by simp [hothers, maxTrackedPathConnectionIds])]
    simp [hothers, maxTrackedPathConnectionIds, List.filterMap_map]
  · have hroom : others.length < maxTrackedPathConnectionIds := lt_of_le_of_ne hle hfull
    have hdrop : (others ++ [connectionId]).length - maxTrackedPathConnectionIds = 0 := by
      rw [List.length_append, List.length_singleton]
      omega
    rw [padded_set hroom, filterMap_padded, hdrop, List.drop_zero]

end Compaction

/-! ## The path set -/

structure PathConnectionInventory (Peer Conn : Type) where
  peer : Peer
  kind : PathKind
  relayPeer : Option Peer
  connectionIds : ConnectionIds Conn

structure PathSet (Peer Conn : Type) where
  candidates : List (PathCandidate Peer Conn)
  connectionInventories : List (PathConnectionInventory Peer Conn)

structure PathTransportSupport where
  udpDatagrams : Bool
  quicDatagrams : Bool

def PathTransportSupport.supports (support : PathTransportSupport) : PathKind → Bool
  | .directUdpDatagram => support.udpDatagrams
  | .directQuicDatagram => support.quicDatagrams
  | .directQuicStream | .directTcpStream | .circuitRelay => true

structure PathSelectionChange (Peer Conn : Type) where
  peer : Peer
  previous : Option (PathCandidate Peer Conn)
  current : Option (PathCandidate Peer Conn)

structure PathConnectionFailure (Peer Conn : Type) where
  selectionChange : Option (PathSelectionChange Peer Conn)
  connectionWasTracked : Bool
  remainingConnections : ℕ
  latestConnectionId : Option Conn
  pathHealthy : Bool

/-- The last of the entries with the greatest value, as `max_by_key` has it. -/
def maxByKey {α : Type} (value : α → ℤ) (entries : List α) : Option α :=
  entries.foldl (fun best entry => match best with
    | none => some entry
    | some best => if value entry < value best then some best else some entry) none

variable [DecidableEq Peer]

def pathCandidateMatches (candidate : PathCandidate Peer Conn) (peer : Peer) (kind : PathKind)
    (relayPeer : Option Peer) : Bool :=
  candidate.peer = peer && candidate.kind = kind
    && (!decide (kind = .circuitRelay) || decide (candidate.relayPeer = relayPeer))

def pathInventoryMatches (inventory : PathConnectionInventory Peer Conn) (peer : Peer)
    (kind : PathKind) (relayPeer : Option Peer) : Bool :=
  inventory.peer = peer && inventory.kind = kind
    && (!decide (kind = .circuitRelay) || decide (inventory.relayPeer = relayPeer))

namespace PathSet

def new : PathSet Peer Conn := ⟨[], []⟩

variable (s : PathSet Peer Conn)

def bestSupportedFor (peer : Peer) (support : PathTransportSupport) :
    Option (PathCandidate Peer Conn) :=
  maxByKey PathCandidate.score (s.candidates.filter fun candidate =>
    candidate.peer = peer && candidate.healthy && support.supports candidate.kind)

def bestFor (peer : Peer) : Option (PathCandidate Peer Conn) :=
  s.bestSupportedFor peer ⟨true, true⟩

def selectionChange (peer : Peer) (previous : Option (PathCandidate Peer Conn)) :
    Option (PathSelectionChange Peer Conn) :=
  let current := s.bestFor peer
  if previous.map PathCandidate.identity = current.map PathCandidate.identity then none
  else some ⟨peer, previous, current⟩

def clearConnectionInventory (peer : Peer) (kind : PathKind) (relayPeer : Option Peer) :
    PathSet Peer Conn :=
  { s with connectionInventories := s.connectionInventories.filter fun inventory =>
      !pathInventoryMatches inventory peer kind relayPeer }

def forgetPeer (peer : Peer) : PathSet Peer Conn where
  candidates := s.candidates.filter (·.peer ≠ peer)
  connectionInventories := s.connectionInventories.filter (·.peer ≠ peer)

/-- `invalidate_connections`: the number of paths that were in use, and the paths after it. -/
def invalidateConnections : ℕ × PathSet Peer Conn :=
  (s.candidates.countP fun candidate =>
      candidate.healthy || decide (0 < candidate.establishedConnections),
    { candidates := s.candidates.map fun candidate => { candidate with
        healthy := false
        establishedConnections := 0
        latestConnectionId := none }
      connectionInventories := [] })

end PathSet

namespace PathCandidate

variable (candidate : PathCandidate Peer Conn)

/-- What `mark_unhealthy_for_relay` does to the path. -/
def markedUnhealthy : PathCandidate Peer Conn :=
  { candidate with
    healthy := false
    establishedConnections := 0
    failurePenalty :=
      min (min (candidate.failurePenalty + pathFailurePenaltyStep) u16Max) pathFailurePenaltyMax
    latestConnectionId := none }

/-- What `record_rtt_for_relay` does to the path. -/
def withRtt (rttMs : ℕ) : PathCandidate Peer Conn :=
  { candidate with
    healthy := true
    observedRttMs := some rttMs
    failurePenalty := candidate.failurePenalty - pathFailurePenaltyRecoveryStep }

/-- What `record_connection_lost` does to the path. -/
def lost (connectionId : Option Conn) (update : PathConnectionInventoryUpdate Conn) :
    PathCandidate Peer Conn :=
  let candidate :=
    if connectionId.isNone then
      { candidate with establishedConnections := candidate.establishedConnections - 1 }
    else if update.connectionWasTracked then
      { candidate with establishedConnections := update.trackedConnections }
    else candidate
  let candidate :=
    if connectionId.isNone || update.connectionWasTracked then
      { candidate with latestConnectionId := update.latestConnectionId }
    else candidate
  if candidate.establishedConnections = 0 then
    { candidate with healthy := false, latestConnectionId := none }
  else candidate

end PathCandidate

/-- What a new connection says about its path. -/
structure PathDetails (Peer : Type) where
  relayPeer : Option Peer
  estimatedMtu : Option ℕ
  origin : PathOrigin
  connectionRole : PathConnectionRole
  establishedAsRelayed : Bool
  nowUnixSeconds : Option ℕ

namespace PathCandidate

/-- What `record_established_with_details` does to a path that is known. -/
def established (candidate : PathCandidate Peer Conn) (details : PathDetails Peer)
    (connectionId : Option Conn) (update : PathConnectionInventoryUpdate Conn) :
    PathCandidate Peer Conn :=
  { candidate with
    healthy := true
    relayPeer := details.relayPeer
    estimatedMtu := details.estimatedMtu.or candidate.estimatedMtu
    origin := details.origin
    connectionRole := details.connectionRole
    establishedAsRelayed := details.establishedAsRelayed
    latestConnectionId := update.latestConnectionId
    firstSeenUnixSeconds := candidate.firstSeenUnixSeconds.or details.nowUnixSeconds
    lastEstablishedUnixSeconds := details.nowUnixSeconds
    establishedConnections :=
      if connectionId.isSome then update.trackedConnections
      else min (candidate.establishedConnections + 1) u32Max }

/-- The path that `record_established_with_details` adds. -/
def firstEstablished (peer : Peer) (kind : PathKind) (details : PathDetails Peer)
    (connectionId : Option Conn) (update : PathConnectionInventoryUpdate Conn) :
    PathCandidate Peer Conn :=
  { (PathCandidate.new peer kind : PathCandidate Peer Conn) with
    relayPeer := details.relayPeer
    estimatedMtu := details.estimatedMtu
    origin := details.origin
    connectionRole := details.connectionRole
    establishedAsRelayed := details.establishedAsRelayed
    latestConnectionId := update.latestConnectionId
    firstSeenUnixSeconds := details.nowUnixSeconds
    lastEstablishedUnixSeconds := details.nowUnixSeconds
    establishedConnections := if connectionId.isSome then update.trackedConnections else 1 }

end PathCandidate

namespace PathSet

variable (s : PathSet Peer Conn) (peer : Peer) (kind : PathKind) (relayPeer : Option Peer)
  (connectionId : Option Conn)

/-- Change the first candidate of a path, which is the one that `iter_mut().find` finds. -/
def changeCandidate (change : PathCandidate Peer Conn → PathCandidate Peer Conn) :
    PathSet Peer Conn :=
  { s with
    candidates := modifyFirst (pathCandidateMatches · peer kind relayPeer) change s.candidates }

/-- Change the identifiers in the first inventory of a path. -/
def changeInventory (change : ConnectionIds Conn → ConnectionIds Conn) : PathSet Peer Conn :=
  { s with
    connectionInventories := modifyFirst (pathInventoryMatches · peer kind relayPeer)
      (fun inventory => { inventory with connectionIds := change inventory.connectionIds })
      s.connectionInventories }

def markUnhealthyForRelay : Option (PathSelectionChange Peer Conn) × PathSet Peer Conn :=
  let previous := s.bestFor peer
  let s := s.changeCandidate peer kind relayPeer PathCandidate.markedUnhealthy
  let s := s.clearConnectionInventory peer kind relayPeer
  (s.selectionChange peer previous, s)

def recordRttForRelay (rttMs : ℕ) : Option (PathSelectionChange Peer Conn) × PathSet Peer Conn :=
  let previous := s.bestFor peer
  if s.candidates.any (pathCandidateMatches · peer kind relayPeer) then
    let s := s.changeCandidate peer kind relayPeer (·.withRtt rttMs)
    (s.selectionChange peer previous, s)
  else (none, s)

variable [DecidableEq Conn]

def recordStreamRtt (connectionId : Conn) (rttMs : ℕ) :
    Option (PathSelectionChange Peer Conn) × PathSet Peer Conn :=
  if s.connectionInventories.any fun inventory =>
      pathInventoryMatches inventory peer kind relayPeer
        && inventory.connectionIds.slots.any (· = some connectionId) then
    s.recordRttForRelay peer kind relayPeer rttMs
  else (none, s)

def recordConnectionInventory : PathConnectionInventoryUpdate Conn × PathSet Peer Conn :=
  match s.connectionInventories.find? (pathInventoryMatches · peer kind relayPeer) with
  | some inventory =>
    ((recordConnectionId inventory.connectionIds connectionId).1,
      s.changeInventory peer kind relayPeer fun ids => (recordConnectionId ids connectionId).2)
  | none =>
    let recorded := recordConnectionId ConnectionIds.empty connectionId
    (recorded.1, { s with
      connectionInventories := s.connectionInventories ++ [⟨peer, kind, relayPeer, recorded.2⟩] })

def forgetConnectionInventory : PathConnectionInventoryUpdate Conn × PathSet Peer Conn :=
  match s.connectionInventories.find? (pathInventoryMatches · peer kind relayPeer) with
  | some inventory =>
    ((forgetConnectionId inventory.connectionIds connectionId).1,
      s.changeInventory peer kind relayPeer fun ids => (forgetConnectionId ids connectionId).2)
  | none => (.default, s)

def recordEstablishedWithDetails (details : PathDetails Peer) (connectionId : Option Conn) :
    Option (PathSelectionChange Peer Conn) × PathSet Peer Conn :=
  let previous := s.bestFor peer
  let recorded := s.recordConnectionInventory peer kind details.relayPeer connectionId
  let s := recorded.2
  let s :=
    if s.candidates.any (pathCandidateMatches · peer kind details.relayPeer) then
      s.changeCandidate peer kind details.relayPeer (·.established details connectionId recorded.1)
    else
      { s with candidates :=
          s.candidates ++ [.firstEstablished peer kind details connectionId recorded.1] }
  (s.selectionChange peer previous, s)

def recordConnectionLost : PathConnectionFailure Peer Conn × PathSet Peer Conn :=
  let previous := s.bestFor peer
  let forgotten := s.forgetConnectionInventory peer kind relayPeer connectionId
  let update := forgotten.1
  let s := forgotten.2
  let connectionWasTracked := connectionId.isNone || update.connectionWasTracked
  match s.candidates.find? (pathCandidateMatches · peer kind relayPeer) with
  | none =>
    ({ selectionChange := s.selectionChange peer previous
       connectionWasTracked := connectionWasTracked
       remainingConnections := 0
       latestConnectionId := none
       pathHealthy := false }, s)
  | some candidate =>
    let candidate := candidate.lost connectionId update
    let s := s.changeCandidate peer kind relayPeer (·.lost connectionId update)
    let s := if candidate.establishedConnections = 0
      then s.clearConnectionInventory peer kind relayPeer else s
    ({ selectionChange := s.selectionChange peer previous
       connectionWasTracked := connectionWasTracked
       remainingConnections := candidate.establishedConnections
       latestConnectionId := candidate.latestConnectionId
       pathHealthy := candidate.healthy }, s)

def recordClosedForRelayConnection : Option (PathSelectionChange Peer Conn) × PathSet Peer Conn :=
  let failure := s.recordConnectionLost peer kind relayPeer connectionId
  (failure.1.selectionChange, failure.2)

def recordFailedConnection (connectionId : Conn) :
    PathConnectionFailure Peer Conn × PathSet Peer Conn :=
  s.recordConnectionLost peer kind relayPeer (some connectionId)

end PathSet

end P2pVpn.Path
