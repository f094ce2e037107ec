/-
# The order of the hash maps

The construction of a zone goes through several hash maps, and what it computes on the way depends on
the orders in which they are handed out.  The record sets and the conflicts do not
(`fromMembershipSourceAt_reorder`): claims of names are entered in any order with the same result, the
members have addresses of their own, and what is left is sorted.  Only the reverse map remembers an
order, that of the record sets which addresses lead back to.
-/
import P2pVpn.Dns.Serve

namespace P2pVpn.Dns

open Lib Net P2pVpn.Membership P2pVpn.Checkpoint P2pVpn.Forward

variable {T K : Type} {env : SigningPlatform T K} {config : Config} {membership : EffectiveMembership T}
  {localPeer : PeerId} {hostnameRecords : HashMap PeerId String}

/-! ## The claims of names -/

/-- The names of a member. -/
def memberNames (env : SigningPlatform T K) (hostnameRecords : HashMap PeerId String)
    (member : EffectiveMember T) : List EffectivePeerName :=
  if (hostnameRecords.get? member.peer).isSome then [] else
    member.hostnames.map fun label =>
      ⟨member.peer, env.peerIdText member.transportPeer, label, .signedMembership⟩

/-- The loop over the members, the owners and the names apart. -/
lemma foldl_claimMember (members : List (EffectiveMember T))
    (state : HashMap PeerId String × List EffectivePeerName) :
    members.foldl (claimMember env hostnameRecords) state =
      (members.foldl (fun owners member =>
          owners.insert member.peer (env.peerIdText member.transportPeer)) state.1,
        state.2 ++ members.flatMap (memberNames env hostnameRecords)) := by
  induction members generalizing state with
  | nil => simp
  | cons member members ih =>
    rw [List.foldl_cons, ih, List.flatMap_cons, List.foldl_cons, ← List.append_assoc]
    rfl

/-- Members are told apart by their addresses. -/
lemma eq_of_mem_allowedMembers (hfiled : WellFiled membership) {order : KeyOrder PeerId}
    {a b : EffectiveMember T} (ha : a ∈ allowedMembers membership localPeer order)
    (hb : b ∈ allowedMembers membership localPeer order) (hpeer : a.peer = b.peer) : a = b := by
  obtain ⟨⟨⟨p, hp⟩, -⟩, -⟩ := mem_allowedMembers.mp ha
  obtain ⟨⟨⟨q, hq⟩, -⟩, -⟩ := mem_allowedMembers.mp hb
  have heq : p = q := (hfiled p a hp).symm.trans (hpeer.trans (hfiled q b hq))
  exact Option.some.inj (hp.symm.trans (heq ▸ hq))

/-- In another order, the same names are claimed. -/
lemma effectivePeerNames_reorder (hfiled : WellFiled membership) {order : ZoneOrder}
    {claims : List EffectivePeerName}
    (h : effectivePeerNames env hostnameRecords config membership order = .ok claims)
    (order' : ZoneOrder) :
    ∃ claims', effectivePeerNames env hostnameRecords config membership order' = .ok claims' ∧
      claims.Perm claims' := by
  obtain ⟨localPeer, hlocal, h⟩ := bind_eq_ok.mp h
  simp only [effectivePeerNames, hlocal]
  split at h
  · rename_i hsilenced
    obtain rfl := Except.ok.inj h
    exact ⟨[], by simp [bind, Except.bind, hsilenced, pure, Except.pure], .refl _⟩
  · rename_i hopen
    obtain ⟨transportPeer, htransport, h⟩ := bind_eq_ok.mp h
    obtain ⟨state, hstate, h⟩ := bind_eq_ok.mp h
    obtain rfl := Except.ok.inj h
    have hmembers : (allowedMembers membership localPeer order.members).Perm
        (allowedMembers membership localPeer order'.members) := allowedMembers_perm
    have howners := hmembers.foldl_eq' (f := fun owners member =>
        owners.insert member.peer (env.peerIdText member.transportPeer))
      (fun a ha b hb owners => by
        by_cases hpeer : a.peer = b.peer
        · rw [eq_of_mem_allowedMembers hfiled ha hb hpeer]
        · exact HashMap.insert_comm _ hpeer _ _) state.1
    refine ⟨_, by simp only [bind, Except.bind, hopen, if_false, htransport, hstate]; rfl, ?_⟩
    refine (perm_sortBy _).trans (List.Perm.trans ?_ (perm_sortBy _).symm)
    rw [foldl_claimMember, foldl_claimMember, howners]
    exact ((hmembers.flatMap_right _).append_left _).append
      ((KeyOrder.entries_perm _ _).flatMap_right _)

/-- Claims may be entered in any order. -/
lemma insertName_comm {names first both : HashMap String Owners} {a b : EffectivePeerName}
    (ha : insertName names a = .ok first) (hb : insertName first b = .ok both) :
    ∃ other, insertName names b = .ok other ∧ insertName other a = .ok both := by
  obtain ⟨labelA, hlabelA, ha⟩ := bind_eq_ok.mp ha
  obtain ⟨labelB, hlabelB, hb⟩ := bind_eq_ok.mp hb
  obtain rfl := Except.ok.inj ha
  obtain rfl := Except.ok.inj hb
  refine ⟨_, bind_eq_ok.mpr ⟨labelB, hlabelB, rfl⟩, bind_eq_ok.mpr ⟨labelA, hlabelA, ?_⟩⟩
  refine congrArg Except.ok ?_
  by_cases hlabel : labelA = labelB
  · subst hlabel
    simp only [HashMap.get?_insert_self, Option.getD_some, HashMap.insert_insert]
    congr 1
    by_cases hpeer : a.peer = b.peer
    · simp only [hpeer, HashMap.get?_insert_self, Option.getD_some, HashMap.insert_insert]
      rw [Finset.insert_comm]
    · rw [HashMap.get?_insert_of_ne _ hpeer, HashMap.get?_insert_of_ne _ (Ne.symm hpeer),
        HashMap.insert_comm _ hpeer]
  · rw [HashMap.get?_insert_of_ne _ hlabel, HashMap.get?_insert_of_ne _ (Ne.symm hlabel),
      HashMap.insert_comm _ hlabel]

lemma foldlM_insertName_perm {claims claims' : List EffectivePeerName} (hperm : claims.Perm claims')
    {names names' : HashMap String Owners} (h : claims.foldlM insertName names = .ok names') :
    claims'.foldlM insertName names = .ok names' := by
  refine foldlM_perm (R := fun _ _ => True) (fun _ _ _ => trivial) ?_ hperm ?_ h
  · exact fun _ _ _ _ _ _ ha hb => insertName_comm ha hb
  · exact List.pairwise_of_forall fun _ _ => trivial

/-! ## The addresses -/

/-- The addresses of different peers may be added in any order. -/
lemma addMember_comm {peers first both : HashMap PeerId PeerAddresses} {a b : EffectiveMember T}
    (hne : a.peer ≠ b.peer) (ha : addMember env peers a = .ok first)
    (hb : addMember env first b = .ok both) :
    ∃ other, addMember env peers b = .ok other ∧ addMember env other a = .ok both := by
  simp only [addMember, addAddresses, bind_eq_ok] at ha hb ⊢
  obtain ⟨explicitA, hexplicitA, addressesA, haddressesA, ha⟩ := ha
  obtain rfl := Except.ok.inj ha
  rw [HashMap.get?_insert_of_ne _ (Ne.symm hne)] at hb
  obtain ⟨explicitB, hexplicitB, addressesB, haddressesB, hb⟩ := hb
  obtain rfl := Except.ok.inj hb
  refine ⟨_, ⟨explicitB, hexplicitB, addressesB, haddressesB, rfl⟩, explicitA, ?_, addressesA,
    haddressesA, ?_⟩
  · rw [HashMap.get?_insert_of_ne _ hne]
    exact hexplicitA
  · rw [HashMap.insert_comm _ hne]
    rfl

lemma foldlM_addMember_reorder (hfiled : WellFiled membership) {order : KeyOrder PeerId}
    {peers peers' : HashMap PeerId PeerAddresses}
    (h : (allowedMembers membership localPeer order).foldlM (addMember env) peers = .ok peers')
    (order' : KeyOrder PeerId) :
    (allowedMembers membership localPeer order').foldlM (addMember env) peers = .ok peers' := by
  refine foldlM_perm (R := fun a b => a.peer ≠ b.peer) (fun _ _ hne => hne.symm) ?_ allowedMembers_perm
    (pairwise_allowedMembers hfiled) h
  exact fun _ _ hne _ _ _ ha hb => addMember_comm hne ha hb

lemma checkAddresses_reorder {order : KeyOrder PeerId} {peers : HashMap PeerId PeerAddresses}
    (h : checkAddresses order peers = .ok ()) (order' : KeyOrder PeerId) :
    checkAddresses order' peers = .ok () := by
  obtain ⟨_, hlimits, htotal⟩ := bind_eq_ok.mp h
  refine bind_eq_ok.mpr ⟨(), forM_eq_ok.mpr fun entry hentry => ?_, htotal⟩
  exact forM_eq_ok.mp hlimits entry ((KeyOrder.entries_perm order' peers).mem_iff.mpr hentry)

/-! ## Entries of the zone -/

lemma digitChar_inj : ∀ d < 16, ∀ d' < 16, Nat.digitChar d = Nat.digitChar d' → d = d' := by decide

/-- Peers are told apart by the text of their overlay address. -/
lemma overlayText_inj {p q : PeerId} (h : overlayText p = overlayText q) : p = q := by
  have hbytes : ∀ l l' : List UInt8,
      (l.flatMap fun byte => [Nat.digitChar (byte.toNat / 16), Nat.digitChar (byte.toNat % 16)]) =
        (l'.flatMap fun byte => [Nat.digitChar (byte.toNat / 16), Nat.digitChar (byte.toNat % 16)]) →
      l = l' := by
    intro l
    induction l with
    | nil =>
      intro l' heq
      cases l' with
      | nil => rfl
      | cons byte l' => simp at heq
    | cons byte l ih =>
      intro l' heq
      cases l' with
      | nil => simp at heq
      | cons byte' l' =>
        simp only [List.flatMap_cons, List.cons_append, List.nil_append, List.cons.injEq] at heq
        obtain ⟨hhigh, hlow, hrest⟩ := heq
        have hlt := byte.toNat_lt
        have hlt' := byte'.toNat_lt
        have hhigh := digitChar_inj _ (by omega) _ (by omega) hhigh
        have hlow := digitChar_inj _ (Nat.mod_lt _ (by decide)) _ (Nat.mod_lt _ (by decide)) hlow
        rw [ih l' hrest, UInt8.toNat_inj.mp (by omega : byte.toNat = byte'.toNat)]
  exact Fin.ext (toBeBytes_inj p.isLt q.isLt (hbytes _ _ (String.ofList_injective h)))

/-- The claimants of a name are sorted, or there is only one. -/
lemma zoneEntry_reorder (order order' : KeyOrder PeerId) (zone : String)
    (peers : HashMap PeerId PeerAddresses) (label : String) (owners : Owners) :
    zoneEntry order zone peers label owners = zoneEntry order' zone peers label owners := by
  have hconflict : sortBy overlayText (order.enumerate owners.keys)
      = sortBy overlayText (order'.enumerate owners.keys) :=
    sortBy_eq_of_perm (order.perm order' owners.keys) fun _ _ _ _ => overlayText_inj
  have hentries : ¬ owners.keys.card > 1 → order.entries owners = order'.entries owners := by
    intro hone
    have hperm := KeyOrder.entries_perm (o := order) order' owners
    match hlist : order.entries owners with
    | [] => rw [hlist] at hperm; exact hperm.nil_eq
    | [entry] => rw [hlist] at hperm; exact (List.perm_singleton.mp hperm.symm).symm
    | (p, _) :: (q, _) :: rest =>
      have hne := (List.pairwise_cons.mp (hlist ▸ KeyOrder.entries_pairwise (o := order) owners)).1 _
        List.mem_cons_self
      have hp : p ∈ owners.keys := HashMap.mem_keys.mpr
        ⟨_, KeyOrder.mem_entries.mp (hlist ▸ List.mem_cons_self)⟩
      have hq : q ∈ owners.keys := HashMap.mem_keys.mpr
        ⟨_, KeyOrder.mem_entries.mp (hlist ▸ List.mem_cons_of_mem _ List.mem_cons_self)⟩
      exact absurd (Finset.one_lt_card.mpr ⟨p, hp, q, hq, hne⟩) hone
  rw [zoneEntry, zoneEntry, hconflict]
  congr 1
  funext fqdn
  split
  · rfl
  · rename_i hone
    rw [hentries hone]

/-! ## Zones -/

/-- **Another order.**  The zone is built in any other order, with the same record sets and conflicts. -/
lemma fromMembershipSourceAt_reorder (hfiled : WellFiled membership)
    {memberRecords : List SignedMembershipRecord} {now : ℕ} {order : ZoneOrder} {zone : DnsZone}
    (h : DnsZone.fromMembershipSourceAt env config memberRecords hostnameRecords now (.ok membership)
      order = .ok zone) (order' : ZoneOrder) :
    DnsZone.fromMembershipSourceAt env config memberRecords hostnameRecords now (.ok membership) order'
      = .ok { zone with reverse := buildReverseRecords order'.preferred zone.records } := by
  simp only [DnsZone.fromMembershipSourceAt, bind_eq_ok, mapError_eq_ok_iff] at h ⊢
  obtain ⟨_, hvalid, _, henabled, name, hname, localPeer, hlocal, transportPeer, htransport, start,
    hstart, effective, heffective, claims, hclaims, names, hnames, configured, hconfigured, peers, hpeers,
    _, haddresses, entries, hentries, _, hcount, h⟩ := h
  obtain rfl := Except.ok.inj heffective
  obtain rfl := Except.ok.inj h
  obtain ⟨claims', hclaims', hclaimed⟩ := effectivePeerNames_reorder hfiled hclaims order'
  have hnames' := foldlM_insertName_perm hclaimed hnames
  have hpeers' := foldlM_addMember_reorder hfiled hpeers order'.members
  have hentries' : (order.labels.entries names).mapM (fun entry =>
      zoneEntry (order'.claimants entry.1) name peers entry.1 entry.2) = .ok entries := by
    rw [← hentries]
    congr 1
    funext entry
    exact zoneEntry_reorder _ _ _ _ _ _
  obtain ⟨entries', hentries', hperm⟩ := mapM_perm (KeyOrder.entries_perm order'.labels names) hentries'
  have hinj : ∀ a ∈ entries, ∀ b ∈ entries, entryFqdn a = entryFqdn b → a = b := fun a ha b hb =>
    List.inj_on_of_nodup_map
      (List.pairwise_map.mpr (entryFqdn_distinct (entered_foldlM hnames) hentries)) ha hb
  have hrecords : sortBy (·.fqdn) (entries.filterMap Sum.getLeft?)
      = sortBy (·.fqdn) (entries'.filterMap Sum.getLeft?) := by
    refine sortBy_eq_of_perm (hperm.filterMap _) fun record hrecord other hother heq => ?_
    obtain ⟨a, ha, hrecord⟩ := List.mem_filterMap.mp hrecord
    obtain ⟨b, hb, hother⟩ := List.mem_filterMap.mp hother
    obtain rfl := Sum.getLeft?_eq_some_iff.mp hrecord
    obtain rfl := Sum.getLeft?_eq_some_iff.mp hother
    exact Sum.inl.inj (hinj _ ha _ hb heq)
  have hconflicts : sortBy (·.fqdn) (entries.filterMap Sum.getRight?)
      = sortBy (·.fqdn) (entries'.filterMap Sum.getRight?) := by
    refine sortBy_eq_of_perm (hperm.filterMap _) fun conflict hconflict other hother heq => ?_
    obtain ⟨a, ha, hconflict⟩ := List.mem_filterMap.mp hconflict
    obtain ⟨b, hb, hother⟩ := List.mem_filterMap.mp hother
    obtain rfl := Sum.getRight?_eq_some_iff.mp hconflict
    obtain rfl := Sum.getRight?_eq_some_iff.mp hother
    exact Sum.inr.inj (hinj _ ha _ hb heq)
  refine ⟨(), hvalid, (), henabled, name, hname, localPeer, hlocal, transportPeer, htransport, start,
    hstart, membership, rfl, claims', hclaims', names, hnames', configured, hconfigured, peers, hpeers',
    (), checkAddresses_reorder haddresses _, entries', hentries', (), ?_, ?_⟩
  · rw [← (hperm.filterMap _).length_eq]
    exact hcount
  · rw [← hrecords, ← hconflicts]
    rfl

end P2pVpn.Dns
