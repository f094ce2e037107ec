/-
# Path health follows the live connections

The reference for a path set is a list of connection identifiers for each path: an established
connection goes to its end, where only the most recent ones are kept, a lost connection is taken
out, and an invalidated path has none.  The path set keeps the identifiers in its inventories and
the health, the number and the latest of them in its candidates.  Every call keeps the two in step
with the reference (`step_tracks`), so that after any run of calls a path is healthy exactly when
its reference list is not empty.
-/
import P2pVpn.Path.PathSet
import Mathlib.Data.List.Induction
import Mathlib.Logic.Function.Basic

namespace P2pVpn.Path

open P2pVpn.Lib

variable {Peer Conn : Type} [DecidableEq Peer]

/-! ## Paths and their inventories -/

/-- What tells paths apart: the peer and the kind, and the relay of a relayed path. -/
abbrev PathKey (Peer : Type) := Peer × PathKind × Option Peer

def pathKey (peer : Peer) (kind : PathKind) (relayPeer : Option Peer) : PathKey Peer :=
  (peer, kind, if kind = .circuitRelay then relayPeer else none)

def PathCandidate.key (candidate : PathCandidate Peer Conn) : PathKey Peer :=
  pathKey candidate.peer candidate.kind candidate.relayPeer

def PathConnectionInventory.key (inventory : PathConnectionInventory Peer Conn) : PathKey Peer :=
  pathKey inventory.peer inventory.kind inventory.relayPeer

lemma pathCandidateMatches_eq (candidate : PathCandidate Peer Conn) (peer : Peer) (kind : PathKind)
    (relayPeer : Option Peer) :
    pathCandidateMatches candidate peer kind relayPeer =
      decide (candidate.key = pathKey peer kind relayPeer) := by
  unfold pathCandidateMatches PathCandidate.key pathKey
  rw [Bool.eq_iff_iff]
  simp only [Bool.and_eq_true, decide_eq_true_eq, Bool.or_eq_true, Bool.not_eq_true',
    decide_eq_false_iff_not, Prod.mk.injEq]
  constructor
  · rintro ⟨⟨hpeer, rfl⟩, hrelay⟩
    refine ⟨hpeer, rfl, ?_⟩
    split_ifs with hkind
    · exact hrelay.resolve_left (not_not.mpr hkind)
    · rfl
  · rintro ⟨hpeer, rfl, hrelay⟩
    refine ⟨⟨hpeer, rfl⟩, ?_⟩
    by_cases hkind : candidate.kind = .circuitRelay
    · exact .inr (by simpa [hkind] using hrelay)
    · exact .inl hkind

lemma pathInventoryMatches_eq (inventory : PathConnectionInventory Peer Conn) (peer : Peer)
    (kind : PathKind) (relayPeer : Option Peer) :
    pathInventoryMatches inventory peer kind relayPeer =
      decide (inventory.key = pathKey peer kind relayPeer) :=
  pathCandidateMatches_eq { (PathCandidate.new inventory.peer inventory.kind :
    PathCandidate Peer Conn) with relayPeer := inventory.relayPeer } peer kind relayPeer

namespace PathSet

/-- The identifiers in the inventory of a path. -/
def trackedAt (s : PathSet Peer Conn) (path : PathKey Peer) : List Conn :=
  ((s.connectionInventories.find? fun inventory => decide (inventory.key = path)).map
    fun inventory => inventory.connectionIds.tracked).getD []

/-- The paths with an inventory. -/
def inventoryKeys (s : PathSet Peer Conn) : List (PathKey Peer) :=
  s.connectionInventories.map PathConnectionInventory.key

/-- The known paths. -/
def candidateKeys (s : PathSet Peer Conn) : List (PathKey Peer) :=
  s.candidates.map PathCandidate.key

variable {s : PathSet Peer Conn} (peer : Peer) (kind : PathKind) (relayPeer : Option Peer)

lemma find?_inventory_eq :
    s.connectionInventories.find? (pathInventoryMatches · peer kind relayPeer) =
      s.connectionInventories.find? fun inventory =>
        decide (inventory.key = pathKey peer kind relayPeer) := by
  simp only [pathInventoryMatches_eq]

/-- The inventory of a path is changed. -/
lemma changeInventory_spec (h : s.inventoryKeys.Nodup)
    (change : ConnectionIds Conn → ConnectionIds Conn) :
    (s.changeInventory peer kind relayPeer change).inventoryKeys = s.inventoryKeys ∧
      ∀ path, (s.changeInventory peer kind relayPeer change).trackedAt path =
        if path = pathKey peer kind relayPeer then
          ((s.connectionInventories.find? fun inventory => decide (inventory.key = path)).map
            fun inventory => (change inventory.connectionIds).tracked).getD []
        else s.trackedAt path := by
  have hkeep : ∀ inventory : PathConnectionInventory Peer Conn,
      ({ inventory with connectionIds := change inventory.connectionIds } :
        PathConnectionInventory Peer Conn).key = inventory.key := fun _ => rfl
  have hmap : (s.changeInventory peer kind relayPeer change).connectionInventories = _ :=
    modifyFirst_eq_map (fun inventory => pathInventoryMatches_eq inventory peer kind relayPeer) h
  refine ⟨?_, fun path => ?_⟩
  · rw [inventoryKeys, hmap]
    exact map_key_map_ite hkeep _
  · rw [trackedAt, trackedAt, hmap, find?_map_ite hkeep, Option.map_map]
    split_ifs with hpath
    · subst hpath
      simp [Function.comp_def]
    · simp [Function.comp_def]

lemma clearConnectionInventory_spec (h : s.inventoryKeys.Nodup) :
    (s.clearConnectionInventory peer kind relayPeer).inventoryKeys.Nodup ∧
      ∀ path, (s.clearConnectionInventory peer kind relayPeer).trackedAt path =
        if path = pathKey peer kind relayPeer then [] else s.trackedAt path := by
  refine ⟨h.sublist (List.filter_sublist.map _), fun path => ?_⟩
  unfold trackedAt clearConnectionInventory
  simp only [pathInventoryMatches_eq, List.find?_filter]
  split_ifs with hpath
  · rw [List.find?_eq_none.mpr fun inventory _ => by simp [hpath]]
    rfl
  · congr 3
    funext inventory
    by_cases hkey : inventory.key = path
    · simp [hkey, hpath]
    · simp [hkey]

end PathSet

/-! ## Candidates -/

variable {tracked : List Conn} {path : PathKey Peer}

section Candidates

/-- The connections of every path. -/
abbrev Reference (Peer Conn : Type) := PathKey Peer → List Conn

/-- A candidate says of its path what the identifiers of its connections say. -/
structure Follows (candidate : PathCandidate Peer Conn) (connections : List Conn) : Prop where
  healthy_iff : candidate.healthy = true ↔ connections ≠ []
  count_eq : candidate.establishedConnections = connections.length
  latest_eq : candidate.latestConnectionId = connections.getLast?

namespace Follows

omit [DecidableEq Peer]

variable {candidate : PathCandidate Peer Conn} {connections : List Conn}

/-- The loss of a connection that the path has. -/
lemma lost (h : Follows candidate connections) {connectionId : Conn}
    (hmem : connectionId ∈ connections) {remaining : List Conn} :
    Follows (candidate.lost (some connectionId) ⟨remaining.getLast?, remaining.length, true⟩)
      remaining := by
  have hhealthy : candidate.healthy = true := h.healthy_iff.mpr (List.ne_nil_of_mem hmem)
  cases remaining with
  | nil => exact ⟨by simp [PathCandidate.lost], rfl, rfl⟩
  | cons first remaining =>
    refine ⟨?_, ?_, ?_⟩
    · simp [PathCandidate.lost, hhealthy]
    · simp [PathCandidate.lost]
    · simp [PathCandidate.lost]

/-- The loss of a connection that the path does not have: nothing changes, not even on a path
without connections. -/
lemma lost_eq_self (h : Follows candidate connections) (connectionId : Conn)
    (update : PathConnectionInventoryUpdate Conn) (huntracked : update.connectionWasTracked = false) :
    candidate.lost (some connectionId) update = candidate := by
  simp only [PathCandidate.lost, huntracked, Option.isNone_some, Bool.false_eq_true, if_false,
    Bool.or_self]
  split_ifs with hzero
  · have hempty : connections = [] := List.length_eq_zero_iff.mp (h.count_eq.symm.trans hzero)
    have hunhealthy : candidate.healthy = false := by
      rw [← Bool.not_eq_true, h.healthy_iff, hempty]
      simp
    have hlatest : candidate.latestConnectionId = none := by rw [h.latest_eq, hempty]; rfl
    obtain ⟨⟩ := candidate
    simp_all
  · rfl

end Follows

/-- The path set is in step with the reference. -/
structure Tracks (s : PathSet Peer Conn) (connections : Reference Peer Conn) : Prop where
  candidates_nodup : s.candidateKeys.Nodup
  inventories_nodup : s.inventoryKeys.Nodup
  tracked_eq : ∀ path, s.trackedAt path = connections path
  follows : ∀ candidate ∈ s.candidates, Follows candidate (connections candidate.key)
  known : ∀ path, connections path ≠ [] → path ∈ s.candidateKeys

lemma tracks_new : Tracks (PathSet.new : PathSet Peer Conn) fun _ => [] where
  candidates_nodup := List.nodup_nil
  inventories_nodup := List.nodup_nil
  tracked_eq := fun _ => rfl
  follows := fun _ hmem => absurd hmem List.not_mem_nil
  known := fun _ hne => absurd rfl hne

section Steps

variable {s : PathSet Peer Conn} {connections : Reference Peer Conn} (peer : Peer) (kind : PathKind)
  (relayPeer : Option Peer)

/-- The candidate of a path is changed. -/
lemma PathSet.changeCandidate_candidates (h : s.candidateKeys.Nodup)
    (change : PathCandidate Peer Conn → PathCandidate Peer Conn) :
    (s.changeCandidate peer kind relayPeer change).candidates = s.candidates.map fun candidate =>
      if candidate.key = pathKey peer kind relayPeer then change candidate else candidate :=
  modifyFirst_eq_map (fun candidate => pathCandidateMatches_eq candidate peer kind relayPeer) h

/-- The connections of one path change, and its candidate with them. -/
lemma Tracks.change (h : Tracks s connections) {next : PathSet Peer Conn}
    {change : PathCandidate Peer Conn → PathCandidate Peer Conn}
    (hcandidates : next.candidates = s.candidates.map fun candidate =>
      if candidate.key = path then change candidate else candidate)
    (hkey : ∀ candidate, candidate.key = path → (change candidate).key = path)
    (hinventories : next.inventoryKeys.Nodup)
    (htracked : ∀ other, next.trackedAt other = if other = path then tracked else s.trackedAt other)
    (hfollows : ∀ candidate ∈ s.candidates, candidate.key = path →
      Follows candidate (connections path) → Follows (change candidate) tracked)
    (hknown : tracked ≠ [] → path ∈ s.candidateKeys) :
    Tracks next (Function.update connections path tracked) := by
  have hkeys : next.candidateKeys = s.candidateKeys := by
    rw [PathSet.candidateKeys, hcandidates, List.map_map]
    refine List.map_congr_left fun candidate _ => ?_
    dsimp only [Function.comp_apply]
    split_ifs with hpath
    · rw [hkey candidate hpath, hpath]
    · rfl
  refine ⟨hkeys ▸ h.candidates_nodup, hinventories, fun other => ?_, ?_, fun other hother => ?_⟩
  · rw [htracked other, Function.update_apply, h.tracked_eq]
  · rw [hcandidates]
    intro candidate hmem
    obtain ⟨before, hbefore, rfl⟩ := List.mem_map.mp hmem
    have hheld := h.follows before hbefore
    by_cases hpath : before.key = path
    · rw [if_pos hpath, hkey before hpath, Function.update_self]
      exact hfollows before hbefore hpath (hpath ▸ hheld)
    · rw [if_neg hpath, Function.update_of_ne hpath]
      exact hheld
  · rw [hkeys]
    by_cases hsame : other = path
    · rw [hsame, Function.update_self] at hother
      exact hsame ▸ hknown hother
    · rw [Function.update_of_ne hsame] at hother
      exact h.known other hother

lemma any_candidate_iff (s : PathSet Peer Conn) :
    s.candidates.any (pathCandidateMatches · peer kind relayPeer) = true ↔
      pathKey peer kind relayPeer ∈ s.candidateKeys := by
  simp [PathSet.candidateKeys, pathCandidateMatches_eq]

end Steps

end Candidates

/-! ## Calls and the reference -/

variable [DecidableEq Conn]

/-- The calls of a run, all with connection identifiers. -/
inductive PathCall (Peer Conn : Type) where
  | established (peer : Peer) (kind : PathKind) (details : PathDetails Peer) (connectionId : Conn)
  | closed (peer : Peer) (kind : PathKind) (relayPeer : Option Peer) (connectionId : Conn)
  | failed (peer : Peer) (kind : PathKind) (relayPeer : Option Peer) (connectionId : Conn)
  | streamRtt (peer : Peer) (kind : PathKind) (relayPeer : Option Peer) (connectionId : Conn)
      (rttMs : ℕ)
  | markUnhealthy (peer : Peer) (kind : PathKind) (relayPeer : Option Peer)
  | invalidateConnections
  | forgetPeer (peer : Peer)

/-- The path set after a call. -/
def PathSet.after (s : PathSet Peer Conn) : PathCall Peer Conn → PathSet Peer Conn
  | .established peer kind details connectionId =>
    (s.recordEstablishedWithDetails peer kind details (some connectionId)).2
  | .closed peer kind relayPeer connectionId =>
    (s.recordClosedForRelayConnection peer kind relayPeer (some connectionId)).2
  | .failed peer kind relayPeer connectionId =>
    (s.recordFailedConnection peer kind relayPeer connectionId).2
  | .streamRtt peer kind relayPeer connectionId rttMs =>
    (s.recordStreamRtt peer kind relayPeer connectionId rttMs).2
  | .markUnhealthy peer kind relayPeer => (s.markUnhealthyForRelay peer kind relayPeer).2
  | .invalidateConnections => s.invalidateConnections.2
  | .forgetPeer peer => s.forgetPeer peer

/-- The peer of a call that reports a selection change, and its report. -/
def PathSet.report (s : PathSet Peer Conn) :
    PathCall Peer Conn → Option (Peer × Option (PathSelectionChange Peer Conn))
  | .established peer kind details connectionId =>
    some (peer, (s.recordEstablishedWithDetails peer kind details (some connectionId)).1)
  | .closed peer kind relayPeer connectionId =>
    some (peer, (s.recordClosedForRelayConnection peer kind relayPeer (some connectionId)).1)
  | .failed peer kind relayPeer connectionId =>
    some (peer, (s.recordFailedConnection peer kind relayPeer connectionId).1.selectionChange)
  | .streamRtt peer kind relayPeer connectionId rttMs =>
    some (peer, (s.recordStreamRtt peer kind relayPeer connectionId rttMs).1)
  | .markUnhealthy peer kind relayPeer =>
    some (peer, (s.markUnhealthyForRelay peer kind relayPeer).1)
  | .invalidateConnections => none
  | .forgetPeer _ => none

/-- The reference after a call. -/
def Reference.after (connections : Reference Peer Conn) : PathCall Peer Conn → Reference Peer Conn
  | .established peer kind details connectionId =>
    let path := pathKey peer kind details.relayPeer
    Function.update connections path
      (keepRecent ((connections path).filter (· ≠ connectionId) ++ [connectionId]))
  | .closed peer kind relayPeer connectionId | .failed peer kind relayPeer connectionId =>
    let path := pathKey peer kind relayPeer
    Function.update connections path ((connections path).filter (· ≠ connectionId))
  | .streamRtt _ _ _ _ _ => connections
  | .markUnhealthy peer kind relayPeer =>
    Function.update connections (pathKey peer kind relayPeer) []
  | .invalidateConnections => fun _ => []
  | .forgetPeer peer => fun path => if path.1 = peer then [] else connections path

/-- The path set and the reference after a run of calls. -/
def runCalls (calls : List (PathCall Peer Conn)) : PathSet Peer Conn × Reference Peer Conn :=
  calls.foldl (fun run call => (run.1.after call, run.2.after call)) (.new, fun _ => [])

namespace PathSet

variable {s : PathSet Peer Conn}

omit [DecidableEq Conn] in
lemma connectionInventoryUpdate_eq (ids : ConnectionIds Conn) (connectionWasTracked : Bool) :
    connectionInventoryUpdate ids connectionWasTracked =
      ⟨ids.tracked.getLast?, ids.tracked.length, connectionWasTracked⟩ := by
  rw [connectionInventoryUpdate, Nat.min_eq_left (ids.length_tracked_le.trans (by decide))]

/-- What is returned when an inventory is changed: what it has now, and the other paths unchanged. -/
structure Inventoried (s : PathSet Peer Conn) (path : PathKey Peer) (tracked : List Conn)
    (wasTracked : Bool) (result : PathConnectionInventoryUpdate Conn × PathSet Peer Conn) : Prop where
  update : result.1 = ⟨tracked.getLast?, tracked.length, wasTracked⟩
  candidates : result.2.candidates = s.candidates
  nodup : result.2.inventoryKeys.Nodup
  trackedAt : ∀ other, result.2.trackedAt other = if other = path then tracked else s.trackedAt other

variable (peer : Peer) (kind : PathKind) (relayPeer : Option Peer)

omit [DecidableEq Conn] in
/-- The inventory of a path that has one is changed. -/
lemma inventoried_change (h : s.inventoryKeys.Nodup) (hpath : path = pathKey peer kind relayPeer)
    {inventory : PathConnectionInventory Peer Conn}
    (hfound : s.connectionInventories.find? (fun inventory => decide (inventory.key = path))
      = some inventory) (change : ConnectionIds Conn → ConnectionIds Conn)
    (htracked : (change inventory.connectionIds).tracked = tracked) (wasTracked : Bool) :
    s.Inventoried path tracked wasTracked
      (connectionInventoryUpdate (change inventory.connectionIds) wasTracked,
        s.changeInventory peer kind relayPeer change) := by
  obtain ⟨hkeys, hchanged⟩ := changeInventory_spec peer kind relayPeer h change
  refine ⟨htracked ▸ connectionInventoryUpdate_eq _ _, rfl, hkeys ▸ h, fun other => ?_⟩
  rw [hchanged other, ← hpath]
  split_ifs with hother
  · rw [hother, hfound, ← htracked]
    rfl
  · rfl

variable (connectionId : Conn)

/-- An established connection is at the end of its inventory. -/
lemma inventoried_record (h : s.inventoryKeys.Nodup) (hpath : path = pathKey peer kind relayPeer)
    (htracked : tracked =
      keepRecent ((s.trackedAt path).filter (· ≠ connectionId) ++ [connectionId])) :
    s.Inventoried path tracked true
      (s.recordConnectionInventory peer kind relayPeer (some connectionId)) := by
  unfold recordConnectionInventory
  rw [find?_inventory_eq, ← hpath]
  cases hfound : s.connectionInventories.find? fun inventory => decide (inventory.key = path) with
  | some inventory =>
    have hnew : (inventory.connectionIds.recorded connectionId).tracked = tracked := by
      rw [ConnectionIds.tracked_recorded, htracked, trackedAt, hfound]
      rfl
    exact inventoried_change peer kind relayPeer h hpath hfound (·.recorded connectionId) hnew true
  | none =>
    have hat : s.trackedAt path = [] := by rw [trackedAt, hfound]; rfl
    have hnew : ((ConnectionIds.empty : ConnectionIds Conn).recorded connectionId).tracked =
        tracked := by
      rw [ConnectionIds.tracked_recorded, htracked, hat]
      simp [ConnectionIds.empty, ConnectionIds.tracked]
    have hkey : (⟨peer, kind, relayPeer, (recordConnectionId ConnectionIds.empty
        (some connectionId)).2⟩ : PathConnectionInventory Peer Conn).key = path := hpath.symm
    refine ⟨hnew ▸ connectionInventoryUpdate_eq _ _, rfl, ?_, fun other => ?_⟩
    · rw [inventoryKeys, List.map_append, List.map_singleton, hkey]
      refine List.nodup_append.mpr ⟨h, List.nodup_singleton _, fun key hmem last hlast heq => ?_⟩
      obtain ⟨inventory, hinventory, rfl⟩ := List.mem_map.mp hmem
      rw [List.mem_singleton.mp hlast] at heq
      exact List.find?_eq_none.mp hfound inventory hinventory (decide_eq_true heq)
    · unfold trackedAt
      rw [List.find?_append]
      split_ifs with hother
      · rw [hother, hfound, Option.none_or, List.find?_singleton, if_pos (decide_eq_true hkey)]
        exact hnew
      · rw [List.find?_singleton, if_neg (by simpa [hkey] using Ne.symm hother), Option.or_none]

/-- A lost connection is no longer in its inventory. -/
lemma inventoried_forget (h : s.inventoryKeys.Nodup) (hpath : path = pathKey peer kind relayPeer)
    (htracked : tracked = (s.trackedAt path).filter (· ≠ connectionId)) :
    s.Inventoried path tracked (decide (connectionId ∈ s.trackedAt path))
      (s.forgetConnectionInventory peer kind relayPeer (some connectionId)) := by
  unfold forgetConnectionInventory
  rw [find?_inventory_eq, ← hpath]
  cases hfound : s.connectionInventories.find? fun inventory => decide (inventory.key = path) with
  | some inventory =>
    have hat : s.trackedAt path = inventory.connectionIds.tracked := by rw [trackedAt, hfound]; rfl
    have hwas : inventory.connectionIds.tracked.any (· = connectionId) =
        decide (connectionId ∈ s.trackedAt path) := by
      rw [hat, Bool.eq_iff_iff]
      simp
    have hnew : (inventory.connectionIds.forgotten connectionId).tracked = tracked := by
      rw [ConnectionIds.tracked_forgotten, htracked, hat]
    rw [← hwas]
    exact inventoried_change peer kind relayPeer h hpath hfound (·.forgotten connectionId) hnew _
  | none =>
    have hat : s.trackedAt path = [] := by rw [trackedAt, hfound]; rfl
    rw [hat] at htracked ⊢
    subst htracked
    refine ⟨rfl, rfl, h, fun other => ?_⟩
    split_ifs with hother
    · rw [hother, hat]
      rfl
    · rfl

end PathSet

/-! ## Steps -/

section StepLemmas

variable {s : PathSet Peer Conn} {connections : Reference Peer Conn} (peer : Peer) (kind : PathKind)
  (relayPeer : Option Peer) (connectionId : Conn)

omit [DecidableEq Peer] [DecidableEq Conn] in
lemma keepRecent_append_ne_nil (connections : List Conn) (connectionId : Conn) :
    keepRecent (connections ++ [connectionId]) ≠ [] := by
  intro hnil
  have hlength := congrArg List.length hnil
  have hroom : 0 < maxTrackedPathConnectionIds := by decide
  rw [keepRecent, List.length_drop, List.length_append, List.length_singleton,
    List.length_nil] at hlength
  omega

lemma Tracks.established (details : PathDetails Peer) (connectionId : Conn)
    (h : Tracks s connections) :
    Tracks (s.after (.established peer kind details connectionId))
      (connections.after (.established peer kind details connectionId)) := by
  obtain ⟨path, hpath⟩ : ∃ path, path = pathKey peer kind details.relayPeer := ⟨_, rfl⟩
  obtain ⟨tracked, htracked⟩ : ∃ tracked, tracked =
    keepRecent ((connections path).filter (· ≠ connectionId) ++ [connectionId]) := ⟨_, rfl⟩
  have hsome : tracked ≠ [] := htracked ▸ keepRecent_append_ne_nil _ _
  obtain ⟨hupdate, hcandidates, hinventories, htrackedAt⟩ :=
    PathSet.inventoried_record peer kind details.relayPeer connectionId h.inventories_nodup hpath
      (htracked.trans (by rw [h.tracked_eq]))
  have hkeys : (s.recordConnectionInventory peer kind details.relayPeer
      (some connectionId)).2.candidateKeys = s.candidateKeys := by
    rw [PathSet.candidateKeys, hcandidates, PathSet.candidateKeys]
  have hany := any_candidate_iff peer kind details.relayPeer (s.recordConnectionInventory peer kind
    details.relayPeer (some connectionId)).2
  rw [hkeys, ← hpath] at hany
  simp only [PathSet.after, PathSet.recordEstablishedWithDetails, Reference.after, ← hpath,
    ← htracked, hupdate]
  by_cases hknown : path ∈ s.candidateKeys
  · rw [if_pos (hany.mpr hknown)]
    have hchanged := PathSet.changeCandidate_candidates peer kind details.relayPeer
      (hkeys ▸ h.candidates_nodup) fun candidate => candidate.established details (some connectionId)
        ⟨tracked.getLast?, tracked.length, true⟩
    rw [hcandidates, ← hpath] at hchanged
    refine h.change hchanged (fun candidate hkey => ?_) hinventories htrackedAt
      (fun candidate _ _ _ => ⟨by simp [PathCandidate.established, hsome], rfl, rfl⟩)
      fun _ => hknown
    have hpeer : candidate.peer = peer := congrArg Prod.fst (hkey.trans hpath)
    have hkind : candidate.kind = kind := congrArg (fun key => key.2.1) (hkey.trans hpath)
    rw [hpath, ← hpeer, ← hkind]
    rfl
  · -- a path that was not known yet
    rw [if_neg (fun hyes => hknown (hany.mp hyes)), hcandidates]
    have hkey : (PathCandidate.firstEstablished peer kind details (some connectionId)
        ⟨tracked.getLast?, tracked.length, true⟩).key = path := hpath.symm
    refine ⟨?_, hinventories, fun other => ?_, ?_, fun other hother => ?_⟩
    · rw [PathSet.candidateKeys, List.map_append, List.map_singleton, hkey]
      refine List.nodup_append.mpr ⟨h.candidates_nodup, List.nodup_singleton _, ?_⟩
      rintro key hmem last hlast rfl
      exact hknown (List.mem_singleton.mp hlast ▸ hmem)
    · rw [Function.update_apply, ← h.tracked_eq]
      exact htrackedAt other
    · intro candidate hmem
      rcases List.mem_append.mp hmem with hold | hnew
      · have hne : candidate.key ≠ path := fun hsame => hknown (hsame ▸ List.mem_map_of_mem hold)
        rw [Function.update_of_ne hne]
        exact h.follows candidate hold
      · rw [List.mem_singleton.mp hnew, hkey, Function.update_self]
        exact ⟨by simp [PathCandidate.firstEstablished, PathCandidate.new, hsome], rfl, rfl⟩
    · rw [PathSet.candidateKeys, List.map_append, List.mem_append]
      by_cases hsame : other = path
      · exact .inr (by simp [hkey, hsame])
      · rw [Function.update_of_ne hsame] at hother
        exact .inl (h.known other hother)

omit [DecidableEq Peer] in
/-- The loss of a connection, whether the path has it or not. -/
lemma Follows.lost_filter {candidate : PathCandidate Peer Conn} {connected : List Conn}
    (h : Follows candidate connected) (connectionId : Conn)
    (htracked : tracked = connected.filter (· ≠ connectionId)) :
    Follows (candidate.lost (some connectionId)
      ⟨tracked.getLast?, tracked.length, decide (connectionId ∈ connected)⟩) tracked := by
  by_cases hmem : connectionId ∈ connected
  · rw [decide_eq_true hmem]
    exact h.lost hmem
  · have hsame : tracked = connected := by
      rw [htracked, List.filter_eq_self]
      intro other hother
      simpa using fun heq : other = connectionId => hmem (heq ▸ hother)
    rw [h.lost_eq_self connectionId _ (decide_eq_false hmem), hsame]
    exact h

/-- What the loss of a connection leaves. -/
lemma Tracks.lost_spec (h : Tracks s connections) (hpath : path = pathKey peer kind relayPeer)
    (htracked : tracked = (connections path).filter (· ≠ connectionId)) :
    ((s.recordConnectionLost peer kind relayPeer (some connectionId)).2.candidates =
        s.candidates.map fun candidate => if candidate.key = path then
          candidate.lost (some connectionId)
            ⟨tracked.getLast?, tracked.length, decide (connectionId ∈ connections path)⟩
          else candidate) ∧
      (s.recordConnectionLost peer kind relayPeer (some connectionId)).2.inventoryKeys.Nodup ∧
      ∀ other, (s.recordConnectionLost peer kind relayPeer (some connectionId)).2.trackedAt other =
        if other = path then tracked else s.trackedAt other := by
  obtain ⟨hupdate, hcandidates, hinventories, htrackedAt⟩ :=
    PathSet.inventoried_forget peer kind relayPeer connectionId h.inventories_nodup hpath
      (htracked.trans (by rw [h.tracked_eq]))
  rw [h.tracked_eq] at hupdate
  have hchanged := PathSet.changeCandidate_candidates (s :=
    (s.forgetConnectionInventory peer kind relayPeer (some connectionId)).2) peer kind relayPeer
    (by rw [PathSet.candidateKeys, hcandidates]; exact h.candidates_nodup)
    fun candidate => candidate.lost (some connectionId)
      ⟨tracked.getLast?, tracked.length, decide (connectionId ∈ connections path)⟩
  rw [hcandidates, ← hpath] at hchanged
  unfold PathSet.recordConnectionLost
  dsimp only
  rw [hupdate, hcandidates]
  cases hfound : s.candidates.find? (pathCandidateMatches · peer kind relayPeer) with
  | none =>
    refine ⟨?_, hinventories, htrackedAt⟩
    rw [hcandidates]
    refine ((List.map_congr_left fun candidate hmem => if_neg fun hkey => ?_).trans
      (List.map_id _)).symm
    refine List.find?_eq_none.mp hfound candidate hmem ?_
    rw [pathCandidateMatches_eq, ← hpath]
    exact decide_eq_true hkey
  | some candidate =>
    have hmem := List.mem_of_find?_eq_some hfound
    have hkey : candidate.key = path := by
      have hmatch := List.find?_some hfound
      rw [pathCandidateMatches_eq, ← hpath] at hmatch
      exact of_decide_eq_true hmatch
    have hfollows := (hkey ▸ h.follows candidate hmem : Follows candidate (connections path))
    have hcount := (hfollows.lost_filter connectionId htracked).count_eq
    dsimp only
    split_ifs with hzero
    · -- the last connection is gone and the empty inventory with it
      obtain ⟨hcleared, hclearedAt⟩ := PathSet.clearConnectionInventory_spec
        (s := (s.forgetConnectionInventory peer kind relayPeer
          (some connectionId)).2.changeCandidate peer kind relayPeer _) peer kind relayPeer hinventories
      refine ⟨hchanged, hcleared, fun other => ?_⟩
      have hnone : tracked = [] := List.length_eq_zero_iff.mp (hcount.symm.trans hzero)
      rw [hclearedAt other, ← hpath, hnone]
      split_ifs with hother
      · rfl
      · have hrest := htrackedAt other
        rwa [if_neg hother] at hrest
    · exact ⟨hchanged, hinventories, htrackedAt⟩

omit [DecidableEq Peer] [DecidableEq Conn] in
lemma PathCandidate.key_lost (candidate : PathCandidate Peer Conn) (connectionId : Option Conn)
    (update : PathConnectionInventoryUpdate Conn) :
    (candidate.lost connectionId update).key = candidate.key := by
  unfold PathCandidate.lost
  dsimp only
  split_ifs <;> rfl

lemma Tracks.lost (h : Tracks s connections) :
    Tracks (s.recordConnectionLost peer kind relayPeer (some connectionId)).2
      (Function.update connections (pathKey peer kind relayPeer)
        ((connections (pathKey peer kind relayPeer)).filter (· ≠ connectionId))) := by
  obtain ⟨hcandidates, hinventories, htrackedAt⟩ :=
    h.lost_spec peer kind relayPeer connectionId rfl rfl
  refine h.change hcandidates (fun candidate hkey => ?_) hinventories htrackedAt
    (fun candidate _ _ hfollows => hfollows.lost_filter connectionId rfl) fun hsome => ?_
  · rw [PathCandidate.key_lost, hkey]
  · exact h.known _ fun hnone => hsome (by rw [hnone]; rfl)

/-- Losing a connection that a path does not have changes no candidate. -/
lemma Tracks.lost_untracked (h : Tracks s connections)
    (hnew : connectionId ∉ connections (pathKey peer kind relayPeer)) :
    (s.recordConnectionLost peer kind relayPeer (some connectionId)).2.candidates = s.candidates := by
  obtain ⟨hcandidates, -, -⟩ := h.lost_spec peer kind relayPeer connectionId rfl rfl
  rw [hcandidates]
  refine (List.map_congr_left fun candidate hmem => ?_).trans (List.map_id _)
  split_ifs with hkey
  · exact (h.follows candidate hmem).lost_eq_self connectionId _ (decide_eq_false hnew)
  · rfl

lemma Tracks.streamRtt (rttMs : ℕ) (h : Tracks s connections) :
    Tracks (s.recordStreamRtt peer kind relayPeer connectionId rttMs).2 connections := by
  unfold PathSet.recordStreamRtt PathSet.recordRttForRelay
  split_ifs with hinventory hcandidate
  · -- the connection is in the inventory of the path, so that the path is healthy already
    obtain ⟨inventory, hmem, hboth⟩ := List.any_eq_true.mp hinventory
    rw [pathInventoryMatches_eq, Bool.and_eq_true, decide_eq_true_eq] at hboth
    obtain ⟨hkey, hslot⟩ := hboth
    have htracked : connectionId ∈ inventory.connectionIds.tracked := by
      obtain ⟨slot, hslotMem, hslotEq⟩ := List.any_eq_true.mp hslot
      rw [of_decide_eq_true hslotEq] at hslotMem
      exact List.mem_filterMap.mpr ⟨_, hslotMem, rfl⟩
    have hsome : connections (pathKey peer kind relayPeer) ≠ [] := by
      rw [← h.tracked_eq, PathSet.trackedAt, ← hkey, find?_key_of_mem h.inventories_nodup hmem]
      exact List.ne_nil_of_mem htracked
    have hchanged := PathSet.changeCandidate_candidates peer kind relayPeer h.candidates_nodup
      (·.withRtt rttMs)
    have hsame : ∀ other, s.trackedAt other = if other = pathKey peer kind relayPeer
        then connections (pathKey peer kind relayPeer) else s.trackedAt other := by
      intro other
      split_ifs with hother
      · rw [hother]
        exact h.tracked_eq _
      · rfl
    have hnext : Tracks (s.changeCandidate peer kind relayPeer (·.withRtt rttMs))
        (Function.update connections (pathKey peer kind relayPeer)
          (connections (pathKey peer kind relayPeer))) :=
      h.change hchanged (fun _ hkey => hkey) h.inventories_nodup hsame
        (fun _ _ _ hfollows => ⟨by simp [PathCandidate.withRtt, hsome], hfollows.count_eq,
          hfollows.latest_eq⟩) fun hne => h.known _ hne
    rwa [Function.update_eq_self] at hnext
  · exact h
  · exact h

omit [DecidableEq Conn] in
lemma Tracks.markUnhealthy (h : Tracks s connections) :
    Tracks (s.markUnhealthyForRelay peer kind relayPeer).2
      (Function.update connections (pathKey peer kind relayPeer) []) := by
  have hchanged := PathSet.changeCandidate_candidates peer kind relayPeer h.candidates_nodup
    PathCandidate.markedUnhealthy
  obtain ⟨hinventories, hcleared⟩ := PathSet.clearConnectionInventory_spec
    (s := s.changeCandidate peer kind relayPeer PathCandidate.markedUnhealthy) peer kind relayPeer
    h.inventories_nodup
  exact h.change hchanged (fun _ hkey => hkey) hinventories hcleared
    (fun _ _ _ _ => ⟨by simp [PathCandidate.markedUnhealthy], rfl, rfl⟩) fun hne => absurd rfl hne

omit [DecidableEq Conn] in
lemma Tracks.invalidateConnections (h : Tracks s connections) :
    Tracks s.invalidateConnections.2 fun _ => [] := by
  refine ⟨?_, List.nodup_nil, fun _ => rfl, fun candidate hmem => ?_, fun _ hne => absurd rfl hne⟩
  · have hkeys : s.invalidateConnections.2.candidateKeys = s.candidateKeys := by
      rw [PathSet.candidateKeys, PathSet.invalidateConnections, List.map_map]
      rfl
    exact hkeys ▸ h.candidates_nodup
  · obtain ⟨before, -, rfl⟩ := List.mem_map.mp hmem
    exact ⟨by simp, rfl, rfl⟩

omit [DecidableEq Conn] in
lemma Tracks.forgetPeer (h : Tracks s connections) :
    Tracks (s.forgetPeer peer) fun path => if path.1 = peer then [] else connections path := by
  refine ⟨h.candidates_nodup.sublist (List.filter_sublist.map _),
    h.inventories_nodup.sublist (List.filter_sublist.map _), fun path => ?_,
    fun candidate hmem => ?_, fun path hne => ?_⟩
  · rw [← h.tracked_eq]
    unfold PathSet.trackedAt PathSet.forgetPeer
    rw [List.find?_filter]
    split_ifs with hpeer
    · rw [List.find?_eq_none.mpr fun inventory _ => ?_]
      · rfl
      · rintro hboth
        obtain ⟨hother, hkey⟩ := of_decide_eq_true hboth
        exact of_decide_eq_true hother ((congrArg Prod.fst (of_decide_eq_true hkey)).trans hpeer)
    · congr 3
      funext inventory
      by_cases hkey : inventory.key = path
      · have hother : inventory.peer ≠ peer := fun heq =>
          hpeer ((congrArg Prod.fst hkey).symm.trans heq)
        simp [hkey, hother]
      · simp [hkey]
  · obtain ⟨hold, hother⟩ := List.mem_filter.mp hmem
    have hne : candidate.key.1 ≠ peer := of_decide_eq_true hother
    rw [if_neg hne]
    exact h.follows candidate hold
  · split_ifs at hne with hpeer
    · exact absurd rfl hne
    · obtain ⟨candidate, hmem, rfl⟩ := List.mem_map.mp (h.known path hne)
      exact List.mem_map.mpr ⟨candidate, List.mem_filter.mpr ⟨hmem, decide_eq_true hpeer⟩, rfl⟩

/-- Every call keeps the path set in step with the reference. -/
lemma step_tracks (h : Tracks s connections) (call : PathCall Peer Conn) :
    Tracks (s.after call) (connections.after call) := by
  cases call with
  | established peer kind details connectionId => exact h.established peer kind details connectionId
  | closed peer kind relayPeer connectionId => exact h.lost peer kind relayPeer connectionId
  | failed peer kind relayPeer connectionId => exact h.lost peer kind relayPeer connectionId
  | streamRtt peer kind relayPeer connectionId rttMs =>
    exact h.streamRtt peer kind relayPeer connectionId rttMs
  | markUnhealthy peer kind relayPeer => exact h.markUnhealthy peer kind relayPeer
  | invalidateConnections => exact h.invalidateConnections
  | forgetPeer peer => exact h.forgetPeer peer

end StepLemmas

lemma run_tracks (calls : List (PathCall Peer Conn)) :
    Tracks (runCalls calls).1 (runCalls calls).2 := by
  induction calls using List.reverseRecOn with
  | nil => exact tracks_new
  | append_singleton calls call ih =>
    have hrun : runCalls (calls ++ [call]) =
        ((runCalls calls).1.after call, (runCalls calls).2.after call) := List.foldl_append ..
    rw [hrun]
    exact step_tracks ih call

/-! ## Reports -/

omit [DecidableEq Conn] in
lemma selectionChange_self (s : PathSet Peer Conn) (peer : Peer) :
    s.selectionChange peer (s.bestFor peer) = none :=
  if_pos rfl

/-- A report compares the best path before and after the call. -/
lemma report_eq {s : PathSet Peer Conn} {call : PathCall Peer Conn} {peer : Peer}
    {change : Option (PathSelectionChange Peer Conn)} (h : s.report call = some (peer, change)) :
    change = (s.after call).selectionChange peer (s.bestFor peer) := by
  have hlost : ∀ (peer : Peer) kind relayPeer (connectionId : Conn),
      (s.recordConnectionLost peer kind relayPeer (some connectionId)).1.selectionChange =
        (s.recordConnectionLost peer kind relayPeer (some connectionId)).2.selectionChange peer
          (s.bestFor peer) := by
    intro peer kind relayPeer connectionId
    unfold PathSet.recordConnectionLost
    dsimp only
    split <;> rfl
  cases call with
  | established peer kind details connectionId =>
    obtain ⟨rfl, rfl⟩ := Prod.mk.inj (Option.some.inj h)
    rfl
  | closed peer kind relayPeer connectionId =>
    obtain ⟨rfl, rfl⟩ := Prod.mk.inj (Option.some.inj h)
    exact hlost peer kind relayPeer connectionId
  | failed peer kind relayPeer connectionId =>
    obtain ⟨rfl, rfl⟩ := Prod.mk.inj (Option.some.inj h)
    exact hlost peer kind relayPeer connectionId
  | streamRtt peer kind relayPeer connectionId rttMs =>
    obtain ⟨rfl, rfl⟩ := Prod.mk.inj (Option.some.inj h)
    unfold PathSet.after PathSet.recordStreamRtt PathSet.recordRttForRelay
    dsimp only
    split_ifs
    · rfl
    · exact (selectionChange_self s peer).symm
    · exact (selectionChange_self s peer).symm
  | markUnhealthy peer kind relayPeer =>
    obtain ⟨rfl, rfl⟩ := Prod.mk.inj (Option.some.inj h)
    rfl
  | invalidateConnections => exact absurd h (by simp [PathSet.report])
  | forgetPeer peer => exact absurd h (by simp [PathSet.report])

omit [DecidableEq Peer] in
/-- The greatest value of a list, if it is not empty. -/
lemma maxByKey_isMax {α : Type} (value : α → ℤ) (entries : List α) :
    match maxByKey value entries with
    | none => entries = []
    | some best => best ∈ entries ∧ ∀ entry ∈ entries, value entry ≤ value best := by
  induction entries using List.reverseRecOn with
  | nil => rfl
  | append_singleton entries last ih =>
    rw [maxByKey, List.foldl_append, ← maxByKey]
    cases hbest : maxByKey value entries with
    | none =>
      rw [hbest] at ih
      simp [ih]
    | some best =>
      rw [hbest] at ih
      obtain ⟨hmem, hmax⟩ := ih
      simp only [List.foldl_cons, List.foldl_nil]
      by_cases hlt : value last < value best
      · simp only [if_pos hlt]
        exact ⟨List.mem_append_left _ hmem, List.forall_mem_append.mpr ⟨hmax, by simpa using hlt.le⟩⟩
      · simp only [if_neg hlt]
        refine ⟨by simp, List.forall_mem_append.mpr ⟨fun entry hentry => ?_, by simp⟩⟩
        exact (hmax entry hentry).trans (not_lt.mp hlt)

/-- The best path of a peer is a healthy one with the greatest score. -/
def PathSet.IsBest (s : PathSet Peer Conn) (peer : Peer) : Option (PathCandidate Peer Conn) → Prop
  | none => ∀ candidate ∈ s.candidates, candidate.peer = peer → candidate.healthy = false
  | some best => best ∈ s.candidates ∧ best.peer = peer ∧ best.healthy = true ∧
      ∀ candidate ∈ s.candidates, candidate.peer = peer → candidate.healthy = true →
        candidate.score ≤ best.score

omit [DecidableEq Conn] in
lemma PathSet.isBest_bestFor (s : PathSet Peer Conn) (peer : Peer) : s.IsBest peer (s.bestFor peer) := by
  have hmem : ∀ candidate, candidate ∈ s.candidates.filter (fun candidate => candidate.peer = peer &&
      candidate.healthy && PathTransportSupport.supports ⟨true, true⟩ candidate.kind) ↔
      candidate ∈ s.candidates ∧ candidate.peer = peer ∧ candidate.healthy = true := by
    intro candidate
    have hsupports : PathTransportSupport.supports ⟨true, true⟩ candidate.kind = true := by
      cases candidate.kind <;> rfl
    simp [List.mem_filter, hsupports]
  have hmax := maxByKey_isMax PathCandidate.score (s.candidates.filter fun candidate =>
    candidate.peer = peer && candidate.healthy &&
      PathTransportSupport.supports ⟨true, true⟩ candidate.kind)
  rw [PathSet.bestFor, PathSet.bestSupportedFor]
  split at hmax
  · rename_i hnone
    rw [hnone]
    intro candidate hcandidate hpeer
    rw [← Bool.not_eq_true]
    intro hhealthy
    have hfiltered := (hmem candidate).mpr ⟨hcandidate, hpeer, hhealthy⟩
    rw [hmax] at hfiltered
    exact List.not_mem_nil hfiltered
  · rename_i best hbest
    rw [hbest]
    obtain ⟨hbestMem, hgreatest⟩ := hmax
    obtain ⟨hcandidate, hpeer, hhealthy⟩ := (hmem best).mp hbestMem
    exact ⟨hcandidate, hpeer, hhealthy, fun other hother hpeer' hhealthy' =>
      hgreatest other ((hmem other).mpr ⟨hother, hpeer', hhealthy'⟩)⟩

/-- **Path health follows the live connections.**  After every run of calls: the paths have
different keys; a path is healthy exactly when its reference list is not empty, and has the number
and the last of its connections; every path with connections is known; losing a connection that is
not in the list of its path changes no candidate; the best path of a peer is a healthy one with the
greatest score, if there is a healthy one; and a call reports a selection change exactly when the kind
or the relay of the best path has changed. -/
theorem path_health_follows_connections (calls : List (PathCall Peer Conn)) :
    let s := (runCalls calls).1
    let connections := (runCalls calls).2
    (s.candidates.map PathCandidate.key).Nodup ∧
    (∀ candidate ∈ s.candidates,
      (candidate.healthy = true ↔ connections candidate.key ≠ []) ∧
      candidate.establishedConnections = (connections candidate.key).length ∧
      candidate.latestConnectionId = (connections candidate.key).getLast?) ∧
    (∀ path, connections path ≠ [] → ∃ candidate ∈ s.candidates, candidate.key = path) ∧
    (∀ peer kind relayPeer connectionId, connectionId ∉ connections (pathKey peer kind relayPeer) →
      (s.recordClosedForRelayConnection peer kind relayPeer (some connectionId)).2.candidates =
        s.candidates ∧
      (s.recordFailedConnection peer kind relayPeer connectionId).2.candidates = s.candidates) ∧
    (∀ peer, s.IsBest peer (s.bestFor peer)) ∧
    (∀ call peer change, s.report call = some (peer, change) →
      (change.isSome = true ↔ (s.bestFor peer).map PathCandidate.identity ≠
        ((s.after call).bestFor peer).map PathCandidate.identity)) := by
  intro s connections
  have htracks : Tracks s connections := run_tracks calls
  refine ⟨htracks.candidates_nodup, fun candidate hmem => ?_, fun path hne => ?_, ?_,
    s.isBest_bestFor, ?_⟩
  · have hfollows := htracks.follows candidate hmem
    exact ⟨hfollows.healthy_iff, hfollows.count_eq, hfollows.latest_eq⟩
  · obtain ⟨candidate, hmem, hkey⟩ := List.mem_map.mp (htracks.known path hne)
    exact ⟨candidate, hmem, hkey⟩
  · intro peer kind relayPeer connectionId hnew
    have hsame := htracks.lost_untracked peer kind relayPeer connectionId hnew
    exact ⟨hsame, hsame⟩
  · intro call peer change hreport
    rw [report_eq hreport, PathSet.selectionChange]
    split_ifs with hsame <;> simp [hsame]

/-- A stream and a relayed connection to one peer; the relayed one is measured, and the stream lost. -/
def sampleCalls : List (PathCall ℕ ℕ) :=
  [.established 1 .directQuicStream ⟨none, none, .mdns, .dialer, false, none⟩ 7,
    .established 1 .circuitRelay ⟨some 2, none, .relayCircuit, .dialer, true, none⟩ 8,
    .streamRtt 1 .circuitRelay (some 2) 8 40, .closed 1 .directQuicStream none 7]

/-- The stream is the best path until it is lost; then the relayed path is. -/
theorem sample_path_selected :
    ((runCalls (sampleCalls.take 3)).1.bestFor 1).map PathCandidate.identity
      = some (.directQuicStream, none) ∧
    ((runCalls sampleCalls).1.bestFor 1).map PathCandidate.identity = some (.circuitRelay, some 2) ∧
    (runCalls sampleCalls).1.IsBest 1 ((runCalls sampleCalls).1.bestFor 1) ∧
    ∃ candidate ∈ (runCalls sampleCalls).1.candidates, candidate.key = (1, .circuitRelay, some 2) := by
  obtain ⟨-, -, hknown, -, hbest, -⟩ := path_health_follows_connections sampleCalls
  exact ⟨by decide +kernel, by decide +kernel, hbest 1, hknown _ (by decide +kernel)⟩

end P2pVpn.Path
