/-
# The route table

A route hands a block of addresses to a peer.  The table refuses a block that overlaps one of
another peer, and keeps its routes sorted, the longest prefixes first.  Filling a table succeeds
exactly when no two of the routes conflict, and the result only depends on the routes of each peer
and their order (`insertAll_congr`).
-/
import Mathlib.Data.List.Induction
import Mathlib.Data.Prod.Lex
import P2pVpn.Lib.Bytes
import P2pVpn.Lib.Except
import P2pVpn.Lib.StableSort
import P2pVpn.Net.Cidr

namespace P2pVpn.Net

open Lib

/-- The overlay address of a peer, 32 bytes. -/
abbrev PeerId : Type := Fin (2 ^ 256)

/-! ## The program -/

def IpCidr.contains (cidr : IpCidr) (candidate : IpAddr) : Bool :=
  match cidr.address, candidate with
  | .v4 network, .v4 address =>
      network &&& prefixMask 32 cidr.prefixLen = address &&& prefixMask 32 cidr.prefixLen
  | .v6 network, .v6 address =>
      network &&& prefixMask 128 cidr.prefixLen = address &&& prefixMask 128 cidr.prefixLen
  | _, _ => false

/-- `IpCidr::overlaps`; blocks of different families never do. -/
def IpCidr.overlaps (cidr other : IpCidr) : Bool :=
  cidr.contains other.address || other.contains cidr.address

structure Route where
  owner : PeerId
  /-- The block of the route. -/
  cidr : IpCidr
  metric : ℕ
deriving DecidableEq, Repr

structure RouteTable where
  routes : List Route
deriving DecidableEq, Repr

/-- What `sort_routes` compares: longer prefixes come first, then smaller metrics, then owners. -/
def Route.sortKey (route : Route) : ℕᵒᵈ ×ₗ ℕ ×ₗ PeerId :=
  toLex (OrderDual.toDual route.cidr.prefixLen, toLex (route.metric, route.owner))

/-- The routes of two peers with overlapping blocks. -/
def Route.conflicts (existing route : Route) : Bool :=
  existing.owner ≠ route.owner ∧ existing.cidr.overlaps route.cidr

def RouteTable.insertAuthorized (table : RouteTable) (route : Route) :
    Except RouteError RouteTable :=
  if route ∈ table.routes then .ok table
  else
    match table.routes.find? (·.conflicts route) with
    | some existing =>
        .error (.conflictingOwnership existing.owner route.owner existing.cidr route.cidr)
    | none => .ok ⟨sortBy Route.sortKey (table.routes ++ [route])⟩

/-- The address whose bytes are given. -/
def ofBytes (width : ℕ) (bytes : List UInt8) : BitVec width :=
  BitVec.ofNat width (bytes.foldl (fun value byte => 256 * value + byte.toNat) 0)

/-- The bytes of a peer, folded into part of an address. -/
def foldPeer (peer : PeerId) (start count : ℕ) (address : List UInt8) : List UInt8 :=
  (toBeBytes 32 peer.val).zipIdx.foldl
    (fun address entry => address.modify (entry.2 % count + start) (· ^^^ entry.1)) address

def builtinIpv4 (peer : PeerId) : IpAddr :=
  .v4 (ofBytes 32 (foldPeer peer 2 2 [100, 64, 0, 0]))

def netId (peer : PeerId) : List UInt8 := foldPeer peer 0 4 [0xde, 0xad, 0xbe, 0xef]

def builtinIpv6 (peer : PeerId) : IpAddr :=
  .v6 (ofBytes 128 ([0xfd, 0] ++ "hyprspace".toUTF8.toList ++ [0] ++ netId peer))

/-! ## Filling a table -/

/-- No two of the routes are in conflict. -/
def ConflictFree (routes : List Route) : Prop :=
  ∀ a ∈ routes, ∀ b ∈ routes, a.conflicts b = false

instance (routes : List Route) : Decidable (ConflictFree routes) :=
  inferInstanceAs (Decidable (∀ a ∈ routes, ∀ b ∈ routes, a.conflicts b = false))

/-- Insert the routes one after the other. -/
def RouteTable.insertAll (table : RouteTable) (routes : List Route) : Except RouteError RouteTable :=
  routes.foldlM RouteTable.insertAuthorized table

/-- A list with an element that it may have already. -/
def insertNew (routes : List Route) (route : Route) : List Route :=
  if route ∈ routes then routes else routes ++ [route]

/-- The routes without repetitions. -/
def distinctRoutes (routes : List Route) : List Route := routes.foldl insertNew []

lemma Route.conflicts_comm (a b : Route) : a.conflicts b = b.conflicts a := by
  rw [Route.conflicts, Route.conflicts, decide_eq_decide, ne_comm, IpCidr.overlaps, Bool.or_comm]
  rfl

lemma Route.conflicts_self (a : Route) : a.conflicts a = false := by
  simp [Route.conflicts]

variable {routes : List Route} {table : RouteTable}

lemma mem_insertNew {a b : Route} : b ∈ insertNew routes a ↔ b ∈ routes ∨ b = a := by
  unfold insertNew
  split
  · rename_i h
    constructor
    · exact Or.inl
    · rintro (hb | rfl)
      · exact hb
      · exact h
  · simp

lemma distinctRoutes_concat (routes : List Route) (route : Route) :
    distinctRoutes (routes ++ [route]) = insertNew (distinctRoutes routes) route := by
  simp [distinctRoutes]

lemma mem_distinctRoutes {a : Route} : a ∈ distinctRoutes routes ↔ a ∈ routes := by
  induction routes using List.reverseRecOn with
  | nil => simp [distinctRoutes]
  | append_singleton routes route ih =>
    rw [distinctRoutes_concat, mem_insertNew, ih]
    simp

/-- The table after an insertion, and when there is one. -/
lemma insertAuthorized_eq_ok {route : Route} :
    RouteTable.insertAuthorized ⟨sortBy Route.sortKey routes⟩ route = .ok table ↔
      (∀ existing ∈ routes, existing.conflicts route = false ∨ route ∈ routes) ∧
        table = ⟨sortBy Route.sortKey (insertNew routes route)⟩ := by
  have hmem : ∀ a, a ∈ sortBy Route.sortKey routes ↔ a ∈ routes := fun a =>
    (perm_sortBy routes).mem_iff
  unfold RouteTable.insertAuthorized insertNew
  by_cases hin : route ∈ routes
  · rw [if_pos ((hmem route).mpr hin), if_pos hin]
    constructor
    · intro h
      exact ⟨fun _ _ => Or.inr hin, (Except.ok.inj h).symm⟩
    · rintro ⟨-, rfl⟩
      rfl
  · rw [if_neg (fun h => hin ((hmem route).mp h)), if_neg hin]
    cases hfind : (sortBy Route.sortKey routes).find? (·.conflicts route) with
    | some existing =>
      have hexisting := List.mem_of_find?_eq_some hfind
      have hconflicts := List.find?_some hfind
      refine ⟨fun h => absurd h (by simp), fun h => ?_⟩
      rcases h.1 existing ((hmem existing).mp hexisting) with hfree | hmem'
      · rw [hfree] at hconflicts
        cases hconflicts
      · exact absurd hmem' hin
    | none =>
      have hfree := List.find?_eq_none.mp hfind
      rw [sortBy_sortBy_append]
      constructor
      · intro h
        refine ⟨fun existing h' => Or.inl ?_, (Except.ok.inj h).symm⟩
        exact Bool.eq_false_iff.mpr (hfree existing ((hmem existing).mpr h'))
      · rintro ⟨-, rfl⟩
        rfl

lemma conflictFree_concat {route : Route} :
    ConflictFree (routes ++ [route]) ↔
      ConflictFree routes ∧ ∀ existing ∈ routes, existing.conflicts route = false := by
  constructor
  · intro h
    refine ⟨fun a ha b hb => h a (List.mem_append_left _ ha) b (List.mem_append_left _ hb), ?_⟩
    exact fun existing ha => h existing (List.mem_append_left _ ha) route
      (List.mem_append_right _ (List.mem_singleton_self _))
  · rintro ⟨hfree, hroute⟩ a ha b hb
    rcases List.mem_append.mp ha with ha | ha <;> rcases List.mem_append.mp hb with hb | hb
    · exact hfree a ha b hb
    · rw [List.mem_singleton.mp hb]
      exact hroute a ha
    · rw [List.mem_singleton.mp ha, Route.conflicts_comm]
      exact hroute b hb
    · rw [List.mem_singleton.mp ha, List.mem_singleton.mp hb]
      exact Route.conflicts_self _

/-- Filling a table succeeds exactly when there is no conflict; the result has the routes, sorted. -/
lemma insertAll_eq_ok :
    RouteTable.insertAll ⟨[]⟩ routes = .ok table ↔
      ConflictFree routes ∧ table = ⟨sortBy Route.sortKey (distinctRoutes routes)⟩ := by
  induction routes using List.reverseRecOn generalizing table with
  | nil =>
    constructor
    · intro h
      exact ⟨by simp [ConflictFree], (Except.ok.inj h).symm⟩
    · rintro ⟨-, rfl⟩
      rfl
  | append_singleton routes route ih =>
    rw [RouteTable.insertAll, List.foldlM_append, bind_eq_ok, distinctRoutes_concat,
      conflictFree_concat]
    simp only [List.foldlM_cons, List.foldlM_nil, bind_pure]
    constructor
    · rintro ⟨before, hbefore, hinsert⟩
      obtain ⟨hfree, rfl⟩ := ih.mp hbefore
      obtain ⟨hroute, htable⟩ := insertAuthorized_eq_ok.mp hinsert
      refine ⟨⟨hfree, fun existing h => ?_⟩, htable⟩
      rcases hroute existing (mem_distinctRoutes.mpr h) with hok | hmem
      · exact hok
      · exact hfree existing h route (mem_distinctRoutes.mp hmem)
    · rintro ⟨⟨hfree, hroute⟩, htable⟩
      refine ⟨_, ih.mpr ⟨hfree, rfl⟩, insertAuthorized_eq_ok.mpr ⟨fun existing h => ?_, htable⟩⟩
      exact Or.inl (hroute existing (mem_distinctRoutes.mp h))

/-- What the distinct routes have of one owner. -/
lemma filter_distinctRoutes (routes : List Route) (owner : PeerId) :
    (distinctRoutes routes).filter (·.owner = owner)
      = distinctRoutes (routes.filter (·.owner = owner)) := by
  induction routes using List.reverseRecOn with
  | nil => rfl
  | append_singleton routes route ih =>
    rw [distinctRoutes_concat, List.filter_append]
    by_cases howner : route.owner = owner
    · rw [List.filter_cons_of_pos (by simpa using howner), List.filter_nil, distinctRoutes_concat,
        ← ih]
      simp only [insertNew, List.mem_filter, howner, decide_true, and_true]
      split
      · rfl
      · simp [howner]
    · rw [List.filter_cons_of_neg (by simpa using howner), List.filter_nil, List.append_nil, ← ih,
        insertNew]
      split
      · rfl
      · simp [howner]

/-- The order of routes of different owners does not matter. -/
lemma insertAll_congr {routes' : List Route}
    (h : ∀ owner, routes.filter (·.owner = owner) = routes'.filter (·.owner = owner))
    (htable : RouteTable.insertAll ⟨[]⟩ routes = .ok table) :
    RouteTable.insertAll ⟨[]⟩ routes' = .ok table := by
  obtain ⟨hfree, rfl⟩ := insertAll_eq_ok.mp htable
  have hmem : ∀ a, a ∈ routes' → a ∈ routes := by
    intro a ha
    have hfilter : a ∈ routes'.filter (·.owner = a.owner) := List.mem_filter.mpr ⟨ha, by simp⟩
    rw [← h] at hfilter
    exact List.mem_of_mem_filter hfilter
  refine insertAll_eq_ok.mpr ⟨fun a ha b hb => hfree a (hmem a ha) b (hmem b hb), ?_⟩
  refine congrArg RouteTable.mk (sortBy_congr fun k => ?_)
  -- routes with one sort key have one owner
  have howner : ∀ l : List Route, l.filter (·.sortKey = k)
      = (l.filter (·.owner = (ofLex (ofLex k).2).2)).filter (·.sortKey = k) := by
    intro l
    rw [List.filter_filter]
    refine List.filter_congr fun a _ => ?_
    by_cases hk : a.sortKey = k
    · have : a.owner = (ofLex (ofLex k).2).2 := by rw [← hk]; rfl
      simp [hk, this]
    · simp [hk]
  rw [howner, filter_distinctRoutes, h, ← filter_distinctRoutes, ← howner]

end P2pVpn.Net
