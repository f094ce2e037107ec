/-
# Retention of discovered addresses

Addresses of peers are discovered all the time, and only some can be kept: so many for each peer, so
many for the overlay and so many for the infrastructure.  An address that is admitted may push out one
of its own peer and one of its own class, and one that was kept in the other class changes class on
the way.  Whatever goes is reported, so that others can keep a copy.

`mirror_exact` says that such a copy is exact.  The arguments of it are permutations: what goes and
what stays is what there was (`makeRoom_perm`).
-/
import Mathlib.Algebra.Order.Ring.Nat
import Mathlib.Data.Finset.Image
import Mathlib.Data.List.Induction
import Mathlib.Data.List.MinMax
import Mathlib.Data.Prod.Lex

namespace P2pVpn.Retention

def maxDiscoveredAddressBytes : ℕ := 2048

def maxDiscoveredAddressesPerPeer : ℕ := 64

def maxDiscoveredAddresses : ℕ := 4096

def maxInfrastructureAddresses : ℕ := 512

/-! ## Addresses -/

/-- A part of a multiaddress; the parts that are not looked at are given by their encoding. -/
inductive Protocol (Peer : Type) where
  | ip4 (bits : BitVec 32)
  | ip6 (bits : BitVec 128)
  | p2p (peer : Peer)
  | p2pCircuit
  | other (encoding : List UInt8)
  deriving DecidableEq

abbrev Multiaddr (Peer : Type) : Type := List (Protocol Peer)

/-- The third-party code for multiaddresses. -/
structure AddressPlatform (Peer : Type) where
  /-- `Multiaddr::len`. -/
  len : Multiaddr Peer → ℕ
  /-- `Multiaddr::with_p2p`, which fails on the address of another peer. -/
  withP2p : Multiaddr Peer → Peer → Option (Multiaddr Peer)

def canonical {Peer : Type} (env : AddressPlatform Peer) (peer : Peer) (address : Multiaddr Peer) :
    Multiaddr Peer :=
  (env.withP2p address peer).getD address

/-- Private, loopback and link-local addresses. -/
def Protocol.isLocal {Peer : Type} : Protocol Peer → Bool
  | ip4 bits =>
      bits.toNat / 2 ^ 24 = 10 || bits.toNat / 2 ^ 20 = 0xac1 || bits.toNat / 2 ^ 16 = 0xc0a8 ||
        bits.toNat / 2 ^ 24 = 127 || bits.toNat / 2 ^ 16 = 0xa9fe
  | ip6 bits => bits.toNat / 2 ^ 121 = 0x7e || bits = 1 || bits.toNat / 2 ^ 118 = 0x3fa
  | _ => false

def category {Peer : Type} (address : Multiaddr Peer) : ℕ :=
  if address.any fun part => part matches .p2pCircuit then 2
  else if address.any Protocol.isLocal then 0
  else 1

/-! ## Entries -/

structure Entry (Peer : Type) where
  peer : Peer
  address : Multiaddr Peer
  overlay : Bool
  category : ℕ
  lastSeen : ℕ
  deriving DecidableEq

structure AddressRetention (Peer : Type) where
  entries : List (Entry Peer)
  protectedAddresses : Finset (Peer × Multiaddr Peer)

inductive Admission (Peer : Type) where
  | rejectedTooLarge
  | retained (evicted : List (Peer × Multiaddr Peer))
  deriving DecidableEq

variable {Peer : Type}

def Entry.pair (entry : Entry Peer) : Peer × Multiaddr Peer := (entry.peer, entry.address)

/-- The pairs of a list of entries. -/
def pairs (entries : List (Entry Peer)) : List (Peer × Multiaddr Peer) := entries.map Entry.pair

/-- The place of the first entry with the least key among those that fit. -/
def leastIndex (fits : Entry Peer → Bool) (key : Entry Peer → Bool ×ₗ ℕ) (entries : List (Entry Peer)) :
    Option ℕ :=
  ((entries.zipIdx.filter fun entry => fits entry.1).argmin fun entry => key entry.1).map Prod.snd

/-- The entry at a place, if there is one, and the others. -/
def takeOut (index : Option ℕ) (entries : List (Entry Peer)) : List (Entry Peer) × List (Entry Peer) :=
  match index with
  | none => ([], entries)
  | some index => (entries[index]?.toList, entries.eraseIdx index)

def classLimit (overlay : Bool) : ℕ :=
  if overlay then maxDiscoveredAddresses else maxInfrastructureAddresses

namespace AddressRetention

def empty : AddressRetention Peer := ⟨[], ∅⟩

variable [DecidableEq Peer] (s : AddressRetention Peer) (peer : Peer)

/-- The victim among the addresses of the peer, of the same category if possible. -/
def peerVictim (addressCategory : ℕ) (entries : List (Entry Peer)) : Option ℕ :=
  if maxDiscoveredAddressesPerPeer ≤ entries.countP (fun entry => entry.peer = peer) then
    leastIndex (fun entry => entry.peer = peer)
      (fun entry => toLex (decide (entry.category ≠ addressCategory), entry.lastSeen)) entries
  else none

/-- The victim among the addresses of the class, of the same peer if possible. -/
def classVictim (overlay : Bool) (entries : List (Entry Peer)) : Option ℕ :=
  if classLimit overlay ≤ entries.countP (fun entry => entry.overlay = overlay) then
    leastIndex (fun entry => entry.overlay = overlay)
      (fun entry => toLex (decide (entry.peer ≠ peer), entry.lastSeen)) entries
  else none

/-- Both evictions of `admitAddress`: what goes, and what stays. -/
def makeRoom (addressCategory : ℕ) (overlay : Bool) (entries : List (Entry Peer)) :
    List (Entry Peer) × List (Entry Peer) :=
  let first := takeOut (peerVictim peer addressCategory entries) entries
  let second := takeOut (classVictim peer overlay first.2) first.2
  (first.1 ++ second.1, second.2)

/-- `admitAddress` for an address that is not among the entries. -/
def place (address : Multiaddr Peer) (overlay : Bool) (now : ℕ) (entries : List (Entry Peer)) :
    Admission Peer × AddressRetention Peer :=
  let room := makeRoom peer (category address) overlay entries
  (.retained (pairs room.1),
    { s with entries := room.2 ++ [⟨peer, address, overlay, category address, now⟩] })

def admitAddress (env : AddressPlatform Peer) (s : AddressRetention Peer) (peer : Peer)
    (address : Multiaddr Peer) (overlay : Bool) (now : ℕ) : Admission Peer × AddressRetention Peer :=
  let address := canonical env peer address
  if maxDiscoveredAddressBytes < env.len address then (.rejectedTooLarge, s)
  else
    match s.entries.findIdx? fun entry => entry.peer = peer ∧ entry.address = address with
    | none => s.place peer address overlay now s.entries
    | some index =>
        if s.entries[index]?.any fun entry => entry.overlay = overlay then
          (.retained [],
            { s with entries := s.entries.modify index fun entry => { entry with lastSeen := now } })
        else s.place peer address overlay now (s.entries.eraseIdx index)

/-- `expire`, with what has expired. -/
def expire (now ttl : ℕ) : List (Peer × Multiaddr Peer) × AddressRetention Peer :=
  (pairs (s.entries.filter fun entry => ! decide (now - entry.lastSeen ≤ ttl)),
    { s with entries := s.entries.filter fun entry => now - entry.lastSeen ≤ ttl })

def protect (env : AddressPlatform Peer) (s : AddressRetention Peer) (peer : Peer)
    (address : Multiaddr Peer) : AddressRetention Peer :=
  { s with protectedAddresses := insert (peer, canonical env peer address) s.protectedAddresses }

/-- The peers with an address or a protection that are not eligible. -/
def removedPeers (eligible : Peer → Bool) : Finset Peer :=
  ((s.entries.map Entry.peer).toFinset ∪ s.protectedAddresses.image Prod.fst).filter fun peer =>
    ! eligible peer

/-- `retain_peers`, with what was removed. -/
def retainPeers (eligible : Peer → Bool) : Finset (Peer × Multiaddr Peer) × AddressRetention Peer :=
  let removed := s.removedPeers eligible
  ((pairs (s.entries.filter fun entry => entry.peer ∈ removed)).toFinset ∪
      s.protectedAddresses.filter fun pair => pair.1 ∈ removed,
    { entries := s.entries.filter fun entry => entry.peer ∉ removed
      protectedAddresses := s.protectedAddresses.filter fun pair => pair.1 ∉ removed })

end AddressRetention

/-! ## Runs, and a copy -/

inductive RetentionCall (Peer : Type) where
  | admitAddress (peer : Peer) (address : Multiaddr Peer) (overlay : Bool) (now : ℕ)
  | expire (now ttl : ℕ)
  | protect (peer : Peer) (address : Multiaddr Peer)
  | retainPeers (eligible : Peer → Bool)

section Runs

variable [DecidableEq Peer] (env : AddressPlatform Peer)

/-- A call, and what someone who sees its report does with a copy. -/
def RetentionCall.apply : AddressRetention Peer × Finset (Peer × Multiaddr Peer) → RetentionCall Peer →
    AddressRetention Peer × Finset (Peer × Multiaddr Peer)
  | (s, mirror), .admitAddress peer address overlay now =>
      match s.admitAddress env peer address overlay now with
      | (.rejectedTooLarge, s) => (s, mirror)
      | (.retained evicted, s) => (s, insert (peer, canonical env peer address) (mirror \ evicted.toFinset))
  | (s, mirror), .expire now ttl =>
      ((s.expire now ttl).2, mirror \ (s.expire now ttl).1.toFinset)
  | (s, mirror), .protect peer address => (s.protect env peer address, mirror)
  | (s, mirror), .retainPeers eligible =>
      ((s.retainPeers eligible).2, mirror \ (s.retainPeers eligible).1)

/-- The retained addresses and the copy after some calls. -/
def after (calls : List (RetentionCall Peer)) :
    AddressRetention Peer × Finset (Peer × Multiaddr Peer) :=
  calls.foldl (RetentionCall.apply env) (.empty, ∅)

end Runs

/-! ## Taking entries out -/

section TakeOut

variable {fits : Entry Peer → Bool} {key : Entry Peer → Bool ×ₗ ℕ} {entries : List (Entry Peer)}

lemma takeOut_perm (index : Option ℕ) (entries : List (Entry Peer)) :
    ((takeOut index entries).1 ++ (takeOut index entries).2).Perm entries := by
  cases index with
  | none => exact List.Perm.refl _
  | some index =>
    by_cases hlt : index < entries.length
    · simp only [takeOut, List.getElem?_eq_getElem hlt, Option.toList_some, List.singleton_append]
      exact List.getElem_cons_eraseIdx_perm hlt
    · simp only [takeOut, List.getElem?_eq_none (Nat.le_of_not_lt hlt), Option.toList_none,
        List.nil_append, List.eraseIdx_of_length_le (Nat.le_of_not_lt hlt), List.Perm.refl]

lemma takeOut_sublist (index : Option ℕ) (entries : List (Entry Peer)) :
    (takeOut index entries).2.Sublist entries := by
  cases index with
  | none => exact List.Sublist.refl _
  | some index => exact List.eraseIdx_sublist _ _

lemma exists_leastIndex (key : Entry Peer → Bool ×ₗ ℕ) (hpos : 0 < entries.countP fits) :
    ∃ index entry, leastIndex fits key entries = some index ∧ entries[index]? = some entry ∧
      fits entry = true := by
  obtain ⟨entry, hmem, hfits⟩ := List.countP_pos_iff.mp hpos
  obtain ⟨place, hplace⟩ := List.mem_iff_getElem?.mp hmem
  cases hleast : (entries.zipIdx.filter fun entry => fits entry.1).argmin fun entry => key entry.1 with
  | none =>
    have hin : (entry, place) ∈ entries.zipIdx.filter fun entry => fits entry.1 :=
      List.mem_filter.mpr ⟨List.mk_mem_zipIdx_iff_getElem?.mpr hplace, hfits⟩
    rw [List.argmin_eq_none.mp hleast] at hin
    exact absurd hin List.not_mem_nil
  | some least =>
    obtain ⟨hin, hleastFits⟩ := List.mem_filter.mp (List.argmin_mem hleast)
    exact ⟨least.2, least.1, by rw [leastIndex, hleast]; rfl,
      List.mk_mem_zipIdx_iff_getElem?.mp hin, hleastFits⟩

/-- When the first of those that fit goes as soon as there are too many, there is room for one. -/
lemma countP_takeOut_lt {limit : ℕ} (hlimit : 0 < limit) (hle : entries.countP fits ≤ limit) :
    (takeOut (if limit ≤ entries.countP fits then leastIndex fits key entries else none)
      entries).2.countP fits < limit := by
  split_ifs with hfull
  · obtain ⟨index, entry, hleast, hget, hfits⟩ :=
      exists_leastIndex key (hlimit.trans_le hfull)
    have hcount := (takeOut_perm (some index) entries).countP_eq fits
    rw [hleast]
    simp only [takeOut, hget, Option.toList_some, List.singleton_append, List.countP_cons,
      hfits, if_true] at hcount ⊢
    omega
  · exact Nat.lt_of_not_le hfull

end TakeOut

/-! ## Limits -/

section Limits

variable [DecidableEq Peer] {entries kept : List (Entry Peer)}

/-- The pairs are different, and all limits are kept. -/
structure Bounded (entries : List (Entry Peer)) : Prop where
  unique : (pairs entries).Nodup
  perPeer : ∀ peer, entries.countP (fun entry => entry.peer = peer) ≤ maxDiscoveredAddressesPerPeer
  perClass : ∀ overlay, entries.countP (fun entry => entry.overlay = overlay) ≤ classLimit overlay

lemma Bounded.sublist (h : Bounded entries) (hsub : kept.Sublist entries) : Bounded kept :=
  ⟨h.unique.sublist (hsub.map _), fun peer => (hsub.countP_le).trans (h.perPeer peer),
    fun overlay => (hsub.countP_le).trans (h.perClass overlay)⟩

lemma makeRoom_perm (peer : Peer) (addressCategory : ℕ) (overlay : Bool) (entries : List (Entry Peer)) :
    ((AddressRetention.makeRoom peer addressCategory overlay entries).1 ++
      (AddressRetention.makeRoom peer addressCategory overlay entries).2).Perm entries := by
  simp only [AddressRetention.makeRoom, List.append_assoc]
  exact (List.Perm.append_left _ (takeOut_perm _ _)).trans (takeOut_perm _ _)

lemma makeRoom_sublist (peer : Peer) (addressCategory : ℕ) (overlay : Bool)
    (entries : List (Entry Peer)) :
    (AddressRetention.makeRoom peer addressCategory overlay entries).2.Sublist entries :=
  (takeOut_sublist _ _).trans (takeOut_sublist _ _)

lemma Bounded.makeRoom (h : Bounded entries) (peer : Peer) (addressCategory : ℕ) (overlay : Bool) :
    (AddressRetention.makeRoom peer addressCategory overlay entries).2.countP
        (fun entry => entry.peer = peer) < maxDiscoveredAddressesPerPeer ∧
      (AddressRetention.makeRoom peer addressCategory overlay entries).2.countP
        (fun entry => entry.overlay = overlay) < classLimit overlay := by
  have hfirst := h.sublist (takeOut_sublist
    (AddressRetention.peerVictim peer addressCategory entries) entries)
  refine ⟨(List.Sublist.countP_le (takeOut_sublist _ _)).trans_lt ?_, ?_⟩
  · exact countP_takeOut_lt (by decide) (h.perPeer peer)
  · exact countP_takeOut_lt (by cases overlay <;> decide) (hfirst.perClass overlay)

lemma Bounded.place (h : Bounded entries) {s : AddressRetention Peer} {peer : Peer}
    {address : Multiaddr Peer} (hnew : (peer, address) ∉ pairs entries) (overlay : Bool) (now : ℕ) :
    Bounded (s.place peer address overlay now entries).2.entries := by
  obtain ⟨hpeer, hclass⟩ := h.makeRoom peer (category address) overlay
  have hsub := makeRoom_sublist peer (category address) overlay entries
  have hkept := h.sublist hsub
  refine ⟨?_, fun other => ?_, fun other => ?_⟩
  · simp only [AddressRetention.place, pairs, List.map_append, List.map_singleton]
    rw [← List.concat_eq_append]
    exact hkept.unique.concat fun hmem => hnew ((hsub.map Entry.pair).subset hmem)
  · simp only [AddressRetention.place, List.countP_append, List.countP_singleton, decide_eq_true_eq]
    split_ifs with heq
    · exact heq ▸ hpeer
    · exact hkept.perPeer other
  · simp only [AddressRetention.place, List.countP_append, List.countP_singleton, decide_eq_true_eq]
    split_ifs with heq
    · exact heq ▸ hclass
    · exact hkept.perClass other

/-! ## The copy -/

/-- The copy has the retained pairs. -/
structure Mirrored (s : AddressRetention Peer) (mirror : Finset (Peer × Multiaddr Peer)) : Prop where
  bounded : Bounded s.entries
  mirror_eq : mirror = (pairs s.entries).toFinset

omit [DecidableEq Peer] in
/-- What goes and what stays of different pairs. -/
lemma mem_kept_iff {gone : List (Entry Peer)} (hperm : (gone ++ kept).Perm entries)
    (hunique : (pairs entries).Nodup) (pair : Peer × Multiaddr Peer) :
    pair ∈ pairs kept ↔ pair ∈ pairs entries ∧ pair ∉ pairs gone := by
  have hpairs : (pairs gone ++ pairs kept).Perm (pairs entries) := by
    rw [pairs, pairs, ← List.map_append]
    exact hperm.map _
  have hdisjoint := (List.nodup_append.mp (hpairs.nodup_iff.mpr hunique)).2.2
  rw [← hpairs.mem_iff, List.mem_append]
  constructor
  · exact fun hkept => ⟨.inr hkept, fun hgone => hdisjoint pair hgone pair hkept rfl⟩
  · rintro ⟨hgone | hkept, hnot⟩
    · exact absurd hgone hnot
    · exact hkept

/-- A copy that differs at most in the pair that is admitted is exact afterwards. -/
lemma Bounded.mirrored_place (h : Bounded entries) {s : AddressRetention Peer} {peer : Peer}
    {address : Multiaddr Peer} (hnew : (peer, address) ∉ pairs entries) (overlay : Bool) (now : ℕ)
    {mirror : Finset (Peer × Multiaddr Peer)}
    (hmirror : ∀ pair ≠ (peer, address), pair ∈ mirror ↔ pair ∈ pairs entries) :
    Mirrored (s.place peer address overlay now entries).2 (insert (peer, address)
      (mirror \ (pairs (AddressRetention.makeRoom peer (category address) overlay entries).1).toFinset)) := by
  refine ⟨h.place hnew overlay now, ?_⟩
  ext pair
  have hkept := mem_kept_iff (makeRoom_perm peer (category address) overlay entries) h.unique pair
  simp only [AddressRetention.place, pairs, List.map_append, List.map_singleton, List.toFinset_append,
    Finset.mem_insert, Finset.mem_sdiff, Finset.mem_union, List.mem_toFinset, List.mem_singleton]
    at hkept hmirror ⊢
  by_cases heq : pair = (peer, address)
  · simp [heq, Entry.pair]
  · rw [hkept, hmirror pair heq]
    simp [heq, Entry.pair]

omit [DecidableEq Peer] in
/-- Refreshing an entry changes nothing but its time. -/
lemma map_modify_lastSeen {β : Type} (f : Entry Peer → β) (now : ℕ)
    (hkeep : ∀ entry : Entry Peer, f { entry with lastSeen := now } = f entry)
    (entries : List (Entry Peer)) (index : ℕ) :
    (entries.modify index fun entry => { entry with lastSeen := now }).map f = entries.map f := by
  refine List.ext_getElem? fun place => ?_
  rw [List.getElem?_map, List.getElem?_map, List.getElem?_modify]
  cases entries[place]? with
  | none => rfl
  | some entry =>
    simp only [Option.map_eq_map, Option.map_some, Option.some.injEq]
    split_ifs
    · exact hkeep entry
    · rfl

lemma Bounded.refresh (h : Bounded entries) (index now : ℕ) :
    Bounded (entries.modify index fun entry => { entry with lastSeen := now }) := by
  have hcount : ∀ {β : Type} [DecidableEq β] (f : Entry Peer → β) (value : β),
      (∀ entry : Entry Peer, f { entry with lastSeen := now } = f entry) →
      (entries.modify index fun entry => { entry with lastSeen := now }).countP (fun entry => f entry = value)
        = entries.countP fun entry => f entry = value := by
    intro β _ f value hkeep
    have hmap := congrArg (List.countP fun b => decide (b = value))
      (map_modify_lastSeen f now hkeep entries index)
    simpa only [List.countP_map, Function.comp_def] using hmap
  refine ⟨?_, fun peer => ?_, fun overlay => ?_⟩
  · rw [pairs, map_modify_lastSeen _ now (fun _ => rfl)]
    exact h.unique
  · rw [hcount Entry.peer peer fun _ => rfl]
    exact h.perPeer peer
  · rw [hcount Entry.overlay overlay fun _ => rfl]
    exact h.perClass overlay

section Steps

variable {env : AddressPlatform Peer} {s : AddressRetention Peer} {mirror : Finset (Peer × Multiaddr Peer)}

lemma Mirrored.admitAddress (h : Mirrored s mirror) (peer : Peer) (address : Multiaddr Peer)
    (overlay : Bool) (now : ℕ) :
    Mirrored (RetentionCall.apply env (s, mirror) (.admitAddress peer address overlay now)).1
      (RetentionCall.apply env (s, mirror) (.admitAddress peer address overlay now)).2 := by
  obtain ⟨hbounded, rfl⟩ := h
  rw [RetentionCall.apply, AddressRetention.admitAddress]
  by_cases hlarge : maxDiscoveredAddressBytes < env.len (canonical env peer address)
  · simp only [if_pos hlarge]
    exact ⟨hbounded, rfl⟩
  simp only [if_neg hlarge]
  cases hfind : s.entries.findIdx? fun entry =>
      entry.peer = peer ∧ entry.address = canonical env peer address with
  | none =>
    have hnew : (peer, canonical env peer address) ∉ pairs s.entries := by
      intro hmem
      obtain ⟨entry, hentry, hpair⟩ := List.mem_map.mp hmem
      have hnot := List.findIdx?_eq_none_iff.mp hfind entry hentry
      obtain ⟨hpeer, haddress⟩ := Prod.mk.inj hpair
      simp [hpeer, haddress] at hnot
    exact hbounded.mirrored_place hnew overlay now fun pair _ => List.mem_toFinset
  | some index =>
    obtain ⟨hlt, hfits, -⟩ := List.findIdx?_eq_some_iff_getElem.mp hfind
    obtain ⟨hpeer, haddress⟩ : s.entries[index].peer = peer ∧
        s.entries[index].address = canonical env peer address := by simpa using hfits
    have hpair : s.entries[index].pair = (peer, canonical env peer address) :=
      Prod.ext hpeer haddress
    dsimp only
    split_ifs with hsame
    · refine ⟨hbounded.refresh index now, ?_⟩
      have hpairs : pairs (s.entries.modify index fun entry => { entry with lastSeen := now })
          = pairs s.entries := map_modify_lastSeen _ now (fun _ => rfl) _ _
      have hmem : (peer, canonical env peer address) ∈ pairs s.entries :=
        hpair ▸ List.mem_map_of_mem (List.getElem_mem hlt)
      simp only [hpairs, List.toFinset_nil, Finset.sdiff_empty]
      exact Finset.insert_eq_of_mem (List.mem_toFinset.mpr hmem)
    · have hperm : ([s.entries[index]] ++ s.entries.eraseIdx index).Perm s.entries :=
        List.getElem_cons_eraseIdx_perm hlt
      have hkept := mem_kept_iff hperm hbounded.unique
      simp only [pairs, List.map_singleton, hpair, List.mem_singleton] at hkept
      refine (hbounded.sublist (List.eraseIdx_sublist _ _)).mirrored_place ?_ overlay now
        fun pair hne => ?_
      · exact fun hmem => ((hkept _).mp hmem).2 rfl
      · rw [List.mem_toFinset, pairs, pairs, hkept]
        exact ⟨fun hmem => ⟨hmem, hne⟩, fun hmem => hmem.1⟩

/-- Entries that are dropped and reported. -/
lemma Mirrored.drop (h : Mirrored s mirror) (keep : Entry Peer → Bool) {s' : AddressRetention Peer}
    (hentries : s'.entries = s.entries.filter keep) {removed : Finset (Peer × Multiaddr Peer)}
    (hremoved : ∀ pair ∈ pairs s.entries,
      pair ∈ removed ↔ pair ∈ pairs (s.entries.filter fun entry => ! keep entry)) :
    Mirrored s' (mirror \ removed) := by
  obtain ⟨hbounded, rfl⟩ := h
  refine ⟨hentries ▸ hbounded.sublist List.filter_sublist, ?_⟩
  have hperm : (s.entries.filter (fun entry => ! keep entry) ++ s.entries.filter keep).Perm s.entries :=
    List.perm_append_comm.trans (List.filter_append_perm _ _)
  ext pair
  rw [Finset.mem_sdiff, List.mem_toFinset, List.mem_toFinset, hentries,
    mem_kept_iff hperm hbounded.unique]
  exact and_congr_right fun hmem => not_congr (hremoved pair hmem)

lemma Mirrored.apply (h : Mirrored s mirror) (call : RetentionCall Peer) :
    Mirrored (call.apply env (s, mirror)).1 (call.apply env (s, mirror)).2 := by
  cases call with
  | admitAddress peer address overlay now => exact h.admitAddress peer address overlay now
  | expire now ttl =>
    exact h.drop (fun entry => now - entry.lastSeen ≤ ttl) rfl fun pair _ => List.mem_toFinset
  | protect peer address => exact ⟨h.bounded, h.mirror_eq⟩
  | retainPeers eligible =>
    refine h.drop (fun entry => entry.peer ∉ s.removedPeers eligible) rfl fun pair hmem => ?_
    -- a pair that is reported for its protection and retained is also reported for its entry
    have hentry : pair ∈ pairs (s.entries.filter fun entry => entry.peer ∈ s.removedPeers eligible) ↔
        pair.1 ∈ s.removedPeers eligible := by
      obtain ⟨entry, hentry, rfl⟩ := List.mem_map.mp hmem
      constructor
      · intro hpair
        obtain ⟨other, hother, heq⟩ := List.mem_map.mp hpair
        rw [← heq]
        simpa [Entry.pair] using (List.mem_filter.mp hother).2
      · intro hremoved
        exact List.mem_map_of_mem (List.mem_filter.mpr ⟨hentry, by simpa [Entry.pair] using hremoved⟩)
    simp only [AddressRetention.retainPeers, Finset.mem_union, List.mem_toFinset, Finset.mem_filter,
      decide_not, Bool.not_not, hentry]
    exact ⟨fun hcases => hcases.elim id And.right, .inl⟩

end Steps

lemma mirrored_after (env : AddressPlatform Peer) (calls : List (RetentionCall Peer)) :
    Mirrored (after env calls).1 (after env calls).2 := by
  induction calls using List.reverseRecOn with
  | nil => exact ⟨⟨List.nodup_nil, fun _ => Nat.zero_le _, fun _ => Nat.zero_le _⟩, rfl⟩
  | append_singleton calls call ih =>
    rw [after, List.foldl_append, ← after]
    exact ih.apply call

/-- **Copies of the discovered addresses are exact.**  After every run the retained pairs are
different and within all limits, and the copy that follows the reports has exactly these pairs. -/
theorem mirror_exact (env : AddressPlatform Peer) (calls : List (RetentionCall Peer)) :
    (pairs (after env calls).1.entries).Nodup ∧
      (∀ peer, (after env calls).1.entries.countP (fun entry => entry.peer = peer)
        ≤ maxDiscoveredAddressesPerPeer) ∧
      (after env calls).1.entries.countP (fun entry => entry.overlay = true)
        ≤ maxDiscoveredAddresses ∧
      (after env calls).1.entries.countP (fun entry => entry.overlay = false)
        ≤ maxInfrastructureAddresses ∧
      (after env calls).2 = (pairs (after env calls).1.entries).toFinset := by
  obtain ⟨⟨hunique, hpeer, hclass⟩, hmirror⟩ := mirrored_after env calls
  exact ⟨hunique, hpeer, hclass true, hclass false, hmirror⟩

end Limits

end P2pVpn.Retention
