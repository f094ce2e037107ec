/-
# Resolving an address

A destination goes to the first route of the table whose block contains it.  Two blocks with an
address in common overlap (`overlaps_of_contains`), so in a table without conflicts all routes that
contain an address have one owner, and the address resolves to that owner (`resolve_owner_iff`), by
its longest prefix (`resolve_best`).
-/
import P2pVpn.Net.Route

namespace P2pVpn.Net

open Lib

/-- `RouteTable::resolve`. -/
def RouteTable.resolve (table : RouteTable) (destination : IpAddr) : Option Route :=
  table.routes.find? (·.cidr.contains destination)

/-- `RouteError::UnauthorizedSource`. -/
structure UnauthorizedSource where
  peer : PeerId
  source : IpAddr
deriving DecidableEq, Repr

def RouteTable.authorizeSource (table : RouteTable) (peer : PeerId) (source : IpAddr) :
    Except UnauthorizedSource Unit :=
  if table.routes.any fun route => route.owner = peer && route.cidr.contains source then .ok ()
  else .error ⟨peer, source⟩

/-! ## Blocks with a common address -/

/-- A shorter mask keeps less. -/
lemma prefixMask_and {width short long : ℕ} (hle : short ≤ long) (hlong : long ≤ width) :
    prefixMask width long &&& prefixMask width short = prefixMask width short := by
  unfold prefixMask
  by_cases hshort : short = 0
  · simp [hshort]
  · rw [if_neg (by omega), if_neg (by omega)]
    ext i hi
    simp only [BitVec.getElem_and, BitVec.getElem_shiftLeft, BitVec.getElem_allOnes]
    by_cases hbit : i < width - short
    · simp [hbit]
    · simp [hbit, show ¬ i < width - long by omega]

/-- Numbers that agree under a mask agree under a shorter one. -/
lemma and_prefixMask_of_le {width short long : ℕ} (hle : short ≤ long) (hlong : long ≤ width)
    {a b : BitVec width} (h : a &&& prefixMask width long = b &&& prefixMask width long) :
    a &&& prefixMask width short = b &&& prefixMask width short := by
  rw [← prefixMask_and hle hlong, ← BitVec.and_assoc, ← BitVec.and_assoc, h]

/-- Of two blocks with a common address, the larger contains the address of the smaller. -/
lemma contains_address_of_contains {large small : IpCidr} (hle : large.prefixLen ≤ small.prefixLen)
    {address : IpAddr} (hlarge : large.contains address = true)
    (hsmall : small.contains address = true) : large.contains small.address = true := by
  obtain ⟨networkL, lenL, hlenL⟩ := large
  obtain ⟨networkS, lenS, hlenS⟩ := small
  -- all three addresses are of one family
  rcases networkL with networkL | networkL <;> rcases address with address | address <;>
    rcases networkS with networkS | networkS <;>
    simp only [IpCidr.contains, decide_eq_true_eq, Bool.false_eq_true] at hlarge hsmall ⊢
  · exact hlarge.trans (and_prefixMask_of_le hle hlenS hsmall).symm
  · exact hlarge.trans (and_prefixMask_of_le hle hlenS hsmall).symm

lemma overlaps_of_contains {a b : IpCidr} {address : IpAddr} (ha : a.contains address = true)
    (hb : b.contains address = true) : a.overlaps b = true := by
  rw [IpCidr.overlaps, Bool.or_eq_true]
  rcases le_total a.prefixLen b.prefixLen with hle | hle
  · exact Or.inl (contains_address_of_contains hle ha hb)
  · exact Or.inr (contains_address_of_contains hle hb ha)

lemma contains_self (cidr : IpCidr) : cidr.contains cidr.address = true := by
  obtain ⟨network | network, _, _⟩ := cidr
  · exact decide_eq_true rfl
  · exact decide_eq_true rfl

/-- Blocks overlap exactly when they have an address in common. -/
lemma overlaps_iff {a b : IpCidr} :
    a.overlaps b = true ↔ ∃ address, a.contains address = true ∧ b.contains address = true := by
  constructor
  · intro h
    rcases Bool.or_eq_true _ _ ▸ h with h | h
    · exact ⟨b.address, h, contains_self b⟩
    · exact ⟨a.address, contains_self a, h⟩
  · rintro ⟨address, ha, hb⟩
    exact overlaps_of_contains ha hb

/-! ## The owner of an address -/

variable {table : RouteTable} {destination : IpAddr}

lemma contains_of_resolve {route : Route} (h : table.resolve destination = some route) :
    route.cidr.contains destination = true :=
  List.find?_some (p := fun route : Route => route.cidr.contains destination) h

/-- In a table without conflicts, an address resolves to a peer exactly when a route of the peer
contains it. -/
lemma resolve_owner_iff (hfree : ConflictFree table.routes) {owner : PeerId} :
    (∃ route, table.resolve destination = some route ∧ route.owner = owner) ↔
      ∃ route ∈ table.routes, route.owner = owner ∧ route.cidr.contains destination = true := by
  constructor
  · rintro ⟨route, hroute, howner⟩
    exact ⟨route, List.mem_of_find?_eq_some hroute, howner, contains_of_resolve hroute⟩
  · rintro ⟨route, hmem, rfl, hcontains⟩
    cases hresolve : table.resolve destination with
    | none => exact absurd hcontains (List.find?_eq_none.mp hresolve route hmem)
    | some found =>
      refine ⟨found, rfl, ?_⟩
      by_contra hne
      have hconflict : found.conflicts route = true := decide_eq_true
        ⟨hne, overlaps_of_contains (contains_of_resolve hresolve) hcontains⟩
      rw [hfree found (List.mem_of_find?_eq_some hresolve) route hmem] at hconflict
      cases hconflict

lemma authorizeSource_eq_ok {peer : PeerId} {source : IpAddr} :
    table.authorizeSource peer source = .ok () ↔
      ∃ route ∈ table.routes, route.owner = peer ∧ route.cidr.contains source = true := by
  unfold RouteTable.authorizeSource
  split
  · rename_i h
    simpa using h
  · rename_i h
    simpa using h

/-- In a sorted table, an address resolves to a longest prefix, and of these to the smallest metric. -/
lemma resolve_best {routes : List Route} {route other : Route}
    (h : RouteTable.resolve ⟨sortBy Route.sortKey routes⟩ destination = some route)
    (hother : other ∈ sortBy Route.sortKey routes)
    (hcontains : other.cidr.contains destination = true) :
    other.cidr.prefixLen < route.cidr.prefixLen ∨
      other.cidr.prefixLen = route.cidr.prefixLen ∧ route.metric ≤ other.metric := by
  obtain ⟨-, before, after, hsplit, hbefore⟩ := List.find?_eq_some_iff_append.mp h
  have hsplit : sortBy Route.sortKey routes = before ++ route :: after := hsplit
  have hsorted : (sortBy Route.sortKey routes).Pairwise fun a b => a.sortKey ≤ b.sortKey :=
    pairwise_sortBy routes
  rw [hsplit] at hother hsorted
  -- what stands before the route does not contain the address, what stands after it is not better
  have hle : route.sortKey ≤ other.sortKey := by
    rcases List.mem_append.mp hother with hin | hin
    · have := hbefore other hin
      simp [hcontains] at this
    · rcases List.mem_cons.mp hin with rfl | hin
      · exact le_rfl
      · exact (List.pairwise_cons.mp (List.pairwise_append.mp hsorted).2.1).1 other hin
  rcases Prod.Lex.toLex_le_toLex.mp hle with hlt | ⟨heq, hrest⟩
  · exact Or.inl hlt
  · refine Or.inr ⟨heq.symm, ?_⟩
    rcases Prod.Lex.toLex_le_toLex.mp hrest with hlt | ⟨hmetric, -⟩
    · exact le_of_lt hlt
    · exact le_of_eq hmetric

end P2pVpn.Net
