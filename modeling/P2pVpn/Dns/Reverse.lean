/-
# Reverse records

An address leads back to a name of the peer that has it: the first record set of the peer, or the first
that is more than a fallback.  Every entry of the reverse map is sound (`ReverseSound`).  But when two
peers have one address, the entry is the one that was written last, and that depends on the order of a
hash map.  So the zone is determined by its inputs exactly when no two peers with names of their own
share an address (`zone_determined_iff`).
-/
import P2pVpn.Dns.Ownership
import P2pVpn.Dns.Reorder
import P2pVpn.Net.AddressText

namespace P2pVpn.Dns

open Lib Net P2pVpn.Membership P2pVpn.Checkpoint P2pVpn.Forward

/-! ## Reverse names -/

lemma toList_reverseName_v4 (bits : BitVec 32) :
    (reverseName (.v4 bits)).toList = Nat.toDigits 10 (bits.toNat % 256) ++
      '.' :: (Nat.toDigits 10 (bits.toNat / 256 % 256) ++
        '.' :: (Nat.toDigits 10 (bits.toNat / 65536 % 256) ++
          '.' :: (Nat.toDigits 10 (bits.toNat / 16777216 % 256) ++ ".in-addr.arpa.".toList))) := by
  simp [reverseName, List.range_succ]

lemma toList_reverseName_v6 (bits : BitVec 128) :
    (reverseName (.v6 bits)).toList = ((List.range 32).flatMap fun i =>
      [Nat.digitChar (bits.toNat / 16 ^ i % 16), '.']) ++ "ip6.arpa.".toList := by
  simp only [reverseName, String.toList_append, String.toList_ofList]

/-- Numbers with the same lowest digits. -/
lemma mod_pow_eq_of_digits {a b : ℕ} (n : ℕ) (h : ∀ i < n, a / 16 ^ i % 16 = b / 16 ^ i % 16) :
    a % 16 ^ n = b % 16 ^ n := by
  induction n with
  | zero => simp [Nat.mod_one]
  | succ n ih =>
    rw [Nat.mod_pow_succ, Nat.mod_pow_succ, ih fun i hi => h i (by omega), h n (by omega)]

/-- Blocks of one length are read off the whole. -/
lemma forall_eq_of_flatMap_eq {ι α : Type} {f g : ι → List α} {l : List ι}
    (h : l.flatMap f = l.flatMap g) (hlength : ∀ i, (f i).length = (g i).length) :
    ∀ i ∈ l, f i = g i := by
  induction l with
  | nil => exact fun _ hi => absurd hi List.not_mem_nil
  | cons i l ih =>
    rw [List.flatMap_cons, List.flatMap_cons] at h
    obtain ⟨hfirst, hrest⟩ := List.append_inj h (hlength i)
    exact List.forall_mem_cons.mpr ⟨hfirst, ih hrest⟩

/-- Addresses are told apart by their reverse names. -/
lemma reverseName_injective : Function.Injective reverseName := by
  intro a b h
  have hlist := congrArg String.toList h
  have hnumber : ∀ {n m : ℕ} {rest rest' : List Char}, n < 256 → m < 256 → 
      Nat.toDigits 10 n ++ '.' :: rest = Nat.toDigits 10 m ++ '.' :: rest' → n = m ∧ rest = rest' := by
    intro n m rest rest' hn hm heq
    have hread := congrArg (readNumber 10 3 255 false) heq
    rw [readNumber_octet hn (endsNumber_dot _), readNumber_octet hm (endsNumber_dot _)] at hread
    simpa using hread
  cases a with
  | v4 x =>
    cases b with
    | v4 y =>
      rw [toList_reverseName_v4, toList_reverseName_v4] at hlist
      have hmod : ∀ n, n % 256 < 256 := fun n => Nat.mod_lt n (by decide)
      obtain ⟨h0, hlist⟩ := hnumber (hmod _) (hmod _) hlist
      obtain ⟨h1, hlist⟩ := hnumber (hmod _) (hmod _) hlist
      obtain ⟨h2, hlist⟩ := hnumber (hmod _) (hmod _) hlist
      obtain ⟨h3, -⟩ := hnumber (hmod _) (hmod _) hlist
      have hx := x.isLt
      have hy := y.isLt
      exact congrArg IpAddr.v4 (BitVec.eq_of_toNat_eq (by omega))
    | v6 y =>
      rw [toList_reverseName_v4, toList_reverseName_v6] at hlist
      have hend := congrArg (fun l : List Char => l.reverse.take 7) hlist
      simp at hend
  | v6 x =>
    cases b with
    | v4 y =>
      rw [toList_reverseName_v4, toList_reverseName_v6] at hlist
      have hend := congrArg (fun l : List Char => l.reverse.take 7) hlist
      simp at hend
    | v6 y =>
      rw [toList_reverseName_v6, toList_reverseName_v6] at hlist
      have hdigits := List.append_cancel_right hlist
      have hall : ∀ i < 32, x.toNat / 16 ^ i % 16 = y.toNat / 16 ^ i % 16 := by
        intro i hi
        have hblock := forall_eq_of_flatMap_eq hdigits (fun _ => rfl) i (List.mem_range.mpr hi)
        exact digitChar_inj _ (Nat.mod_lt _ (by decide)) _ (Nat.mod_lt _ (by decide)) (List.cons.inj hblock).1
      have hx := x.isLt
      have hy := y.isLt
      have hmod := mod_pow_eq_of_digits 32 hall
      rw [Nat.mod_eq_of_lt (by omega), Nat.mod_eq_of_lt (by omega)] at hmod
      exact congrArg IpAddr.v6 (BitVec.eq_of_toNat_eq hmod)

/-! ## The record sets that addresses lead back to -/

/-- The table has a record set for every peer, and a fallback only where there is nothing else. -/
structure Preferred (table : HashMap PeerId DnsRecordSet) (read : List DnsRecordSet) : Prop where
  record : ∀ peer record, table.get? peer = some record → record ∈ read ∧ record.peer = peer ∧
    (record.fallback = true → ∀ other ∈ read, other.peer = peer → other.fallback = true)
  complete : ∀ record ∈ read, ∃ other, table.get? record.peer = some other

/-- A record set is taken if it is the first of its peer, or better than a fallback. -/
lemma preferredRecord_cases (table : HashMap PeerId DnsRecordSet) (record : DnsRecordSet) :
    preferredRecord table record = table.insert record.peer record ∧
        (∀ current, table.get? record.peer = some current → record.fallback = false) ∨
      preferredRecord table record = table ∧ ∃ current, table.get? record.peer = some current ∧
        (current.fallback = true → record.fallback = true) := by
  rw [preferredRecord]
  cases hcurrent : table.get? record.peer with
  | none => exact .inl ⟨rfl, nofun⟩
  | some current =>
    dsimp only
    split_ifs with hbetter
    · exact .inl ⟨rfl, fun _ _ => by simpa using hbetter.2⟩
    · exact .inr ⟨rfl, current, rfl, fun hfallback => by simpa [hfallback] using hbetter⟩

lemma Preferred.read {table : HashMap PeerId DnsRecordSet} {read : List DnsRecordSet}
    (h : Preferred table read) (record : DnsRecordSet) :
    Preferred (preferredRecord table record) (read ++ [record]) := by
  rcases preferredRecord_cases table record with ⟨htable, hfriendly⟩ | ⟨htable, current, hcurrent, hfallback⟩
  · rw [htable]
    refine ⟨fun peer found hfound => ?_, fun other hother => ?_⟩
    · rw [HashMap.get?_insert] at hfound
      split_ifs at hfound with hpeer
      · obtain rfl := Option.some.inj hfound
        refine ⟨by simp, hpeer.symm, fun hfallback other hother hsame => ?_⟩
        rcases List.mem_append.mp hother with hother | hother
        · obtain ⟨current, hcurrent⟩ := h.complete other hother
          rw [hsame, hpeer] at hcurrent
          rw [hfriendly current hcurrent] at hfallback
          cases hfallback
        · rwa [List.mem_singleton.mp hother]
      · obtain ⟨hmem, hsame, honly⟩ := h.record peer found hfound
        refine ⟨List.mem_append_left _ hmem, hsame, fun hfallback other hother hother' => ?_⟩
        rcases List.mem_append.mp hother with hother | hother
        · exact honly hfallback other hother hother'
        · rw [List.mem_singleton.mp hother] at hother'
          exact absurd hother'.symm hpeer
    · rw [HashMap.get?_insert]
      split_ifs with hpeer
      · exact ⟨record, rfl⟩
      · rcases List.mem_append.mp hother with hother | hother
        · exact h.complete other hother
        · exact absurd (congrArg DnsRecordSet.peer (List.mem_singleton.mp hother)) hpeer
  · rw [htable]
    refine ⟨fun peer found hfound => ?_, fun other hother => ?_⟩
    · obtain ⟨hmem, hsame, honly⟩ := h.record peer found hfound
      refine ⟨List.mem_append_left _ hmem, hsame, fun hfound' other hother hother' => ?_⟩
      rcases List.mem_append.mp hother with hother | hother
      · exact honly hfound' other hother hother'
      · rw [List.mem_singleton.mp hother] at hother' ⊢
        rw [hother', hfound] at hcurrent
        exact hfallback (Option.some.inj hcurrent ▸ hfound')
    · rcases List.mem_append.mp hother with hother | hother
      · exact h.complete other hother
      · exact ⟨current, by rw [List.mem_singleton.mp hother]; exact hcurrent⟩

lemma preferred_foldl {table : HashMap PeerId DnsRecordSet} {read : List DnsRecordSet}
    (h : Preferred table read) (records : List DnsRecordSet) :
    Preferred (records.foldl preferredRecord table) (read ++ records) := by
  induction records generalizing table read with
  | nil => simpa using h
  | cons record records ih =>
    have hrest := ih (h.read record)
    rwa [List.append_assoc] at hrest

/-- The entries of the reverse map, in the order in which they are written. -/
def reversePairs (order : KeyOrder PeerId) (records : List DnsRecordSet) : List (String × String) :=
  ((order.entries (records.foldl preferredRecord ∅)).map Prod.snd).flatMap fun record =>
    (record.ipv4.map IpAddr.v4 ++ record.ipv6.map IpAddr.v6).map fun address =>
      (reverseName address, record.fqdn)

lemma buildReverseRecords_eq (order : KeyOrder PeerId) (records : List DnsRecordSet) :
    buildReverseRecords order records
      = (reversePairs order records).foldl (fun reverse pair => reverse.insert pair.1 pair.2) ∅ := by
  simp only [buildReverseRecords, reversePairs, List.foldl_flatMap, List.foldl_map]

variable {record : DnsRecordSet} {peer : PeerId} {label : String}

lemma mem_addresses {address : IpAddr} :
    address ∈ record.ipv4.map IpAddr.v4 ++ record.ipv6.map IpAddr.v6 ↔ record.Has address := by
  cases address <;> simp [DnsRecordSet.Has]

variable {records : List DnsRecordSet} {order order' : KeyOrder PeerId}

lemma mem_reversePairs {name target : String} :
    (name, target) ∈ reversePairs order records ↔ ∃ peer record address,
      (records.foldl preferredRecord ∅).get? peer = some record ∧ record.Has address ∧
        name = reverseName address ∧ target = record.fqdn := by
  simp only [reversePairs, List.mem_flatMap, List.mem_map, mem_addresses, Prod.exists]
  constructor
  · rintro ⟨record, ⟨peer, _, hentry, rfl⟩, address, hhas, heq⟩
    obtain ⟨rfl, rfl⟩ := Prod.mk.inj heq
    exact ⟨peer, _, address, KeyOrder.mem_entries.mp hentry, hhas, rfl, rfl⟩
  · rintro ⟨peer, record, address, hget, hhas, rfl, rfl⟩
    exact ⟨record, ⟨peer, record, KeyOrder.mem_entries.mpr hget, rfl⟩, address, hhas, rfl⟩

/-- Where an entry of the reverse map comes from. -/
lemma get?_buildReverseRecords {name target : String}
    (h : (buildReverseRecords order records).get? name = some target) :
    (name, target) ∈ reversePairs order records := by
  rw [buildReverseRecords_eq] at h
  rcases HashMap.get?_foldl_insert (reversePairs order records) ∅ name with ⟨v, hmem, hget⟩ | ⟨-, hget⟩
  · obtain rfl := Option.some.inj (h.symm.trans hget)
    exact hmem
  · rw [hget] at h
    simp at h

/-- No two record sets that addresses lead back to have an address in common. -/
def NoneShared (records : List DnsRecordSet) : Prop :=
  ∀ p q record record' address, (records.foldl preferredRecord ∅).get? p = some record →
    (records.foldl preferredRecord ∅).get? q = some record' → record.Has address → record'.Has address →
    record = record'

/-- Without common addresses, the order in which entries are written does not matter. -/
lemma buildReverseRecords_reorder (h : NoneShared records) (order order' : KeyOrder PeerId) :
    buildReverseRecords order records = buildReverseRecords order' records := by
  have hunique : ∀ name target target' (o o' : KeyOrder PeerId), (name, target) ∈ reversePairs o records →
      (name, target') ∈ reversePairs o' records → target = target' := by
    intro name target target' o o' hmem hmem'
    obtain ⟨p, record, address, hp, hhas, rfl, rfl⟩ := mem_reversePairs.mp hmem
    obtain ⟨q, record', address', hq, hhas', hname, rfl⟩ := mem_reversePairs.mp hmem'
    obtain rfl := reverseName_injective hname
    rw [h p q record record' address hp hq hhas hhas']
  ext1 name
  simp only [buildReverseRecords_eq]
  rcases HashMap.get?_foldl_insert (reversePairs order records) ∅ name with
    ⟨target, hmem, hget⟩ | ⟨hnot, hget⟩
  · rcases HashMap.get?_foldl_insert (reversePairs order' records) ∅ name with
      ⟨target', hmem', hget'⟩ | ⟨hnot', -⟩
    · rw [hget, hget', hunique name target target' _ _ hmem hmem']
    · exact absurd (mem_reversePairs.mpr (mem_reversePairs.mp hmem)) (hnot' target)
  · rcases HashMap.get?_foldl_insert (reversePairs order' records) ∅ name with
      ⟨target', hmem', -⟩ | ⟨-, hget'⟩
    · exact absurd (mem_reversePairs.mpr (mem_reversePairs.mp hmem')) (hnot target')
    · rw [hget, hget']

/-- The peer whose record set comes last has its addresses. -/
lemma get?_buildReverseRecords_comingLast {address : IpAddr}
    (hget : (records.foldl preferredRecord ∅).get? peer = some record) (hhas : record.Has address) :
    (buildReverseRecords (order.comingLast peer) records).get? (reverseName address)
      = some record.fqdn := by
  obtain ⟨before, hentries⟩ := KeyOrder.entries_comingLast (o := order) hget
  rw [buildReverseRecords_eq, reversePairs, hentries, List.map_append, List.flatMap_append,
    List.foldl_append]
  rcases HashMap.get?_foldl_insert _ _ (reverseName address) with ⟨target, hmem, htarget⟩ | ⟨hnot, -⟩
  · rw [htarget]
    simp only [List.map_cons, List.map_nil, List.flatMap_cons, List.flatMap_nil, List.append_nil,
      List.mem_map] at hmem
    obtain ⟨_, -, heq⟩ := hmem
    rw [(Prod.mk.inj heq).2]
  · refine absurd ?_ (hnot record.fqdn)
    simp only [List.map_cons, List.map_nil, List.flatMap_cons, List.flatMap_nil, List.append_nil,
      List.mem_map]
    exact ⟨address, mem_addresses.mpr hhas, rfl⟩

/-! ## Friendly names -/

variable {T K : Type} {env : SigningPlatform T K} {config : Config} {membership : EffectiveMembership T}
  {hostnameRecords : HashMap PeerId String} {localPeer : PeerId} {transportPeer : String}
  {zoneOrder : ZoneOrder} {claims : List EffectivePeerName}

/-- The names that are claimed are those in effect that are more than a fallback. -/
lemma exists_claim_iff_claimsName (hlocal : config.routing.localPeerId env = .ok localPeer)
    (htransport : config.routing.localPeer env = .ok transportPeer)
    (hopen : ¬ Silenced membership localPeer)
    (h : effectivePeerNames env hostnameRecords config membership zoneOrder = .ok claims) :
    (∃ claim ∈ claims, claim.peer = peer ∧ claim.label = label ∧ claim.source ≠ .peerIdFallback) ↔
      ClaimsName env config membership hostnameRecords peer label := by
  obtain ⟨final, hread, hsource, hperm⟩ := effectivePeerNames_eq_ok hlocal htransport hopen h
  have howner : ∀ peer, (∃ text, final.1.get? peer = some text) ↔ Covered env config membership peer :=
    fun peer => (hread.owners peer).trans (exists_described_iff hlocal htransport)
  have hgiven : ∀ peer label, (∃ name ∈ final.2, name.peer = peer ∧ name.label = label) ↔
      ∃ description, Described env config membership description ∧ description.peer = peer ∧
        label ∈ description.names ∧ hostnameRecords.get? peer = none := fun peer label =>
    (hread.names peer label).trans (exists_described_iff hlocal htransport)
  simp only [hperm.mem_iff, List.mem_append, List.mem_flatMap]
  constructor
  · rintro ⟨claim, hclaim | ⟨⟨owner, text⟩, howned, hclaim⟩, rfl, rfl, hne⟩
    · obtain ⟨description, hdescribed, hpeer, hlabel, hnone⟩ := (hgiven _ _).mp ⟨claim, hclaim, rfl, rfl⟩
      rw [← hpeer] at hnone ⊢
      exact .given hdescribed hlabel hnone
    · rcases List.mem_append.mp hclaim with hclaim | hclaim
      · obtain ⟨label, hlabel, rfl⟩ := List.mem_map.mp hclaim
        exact .signed ((howner owner).mp ⟨text, KeyOrder.mem_entries.mp howned⟩)
          (Option.mem_toList.mp hlabel)
      · rw [List.mem_singleton.mp hclaim] at hne
        exact absurd rfl hne
  · intro hclaims
    cases hclaims with
    | given hdescribed hname hnone =>
      obtain ⟨name, hmem, hpeer, hlabel⟩ := (hgiven _ _).mpr ⟨_, hdescribed, rfl, hname, hnone⟩
      exact ⟨name, .inl hmem, hpeer, hlabel, hsource name hmem⟩
    | signed hcovered hrecord =>
      obtain ⟨text, htext⟩ := (howner peer).mpr hcovered
      refine ⟨⟨peer, text, label, .signedHostname⟩,
        .inr ⟨(peer, text), KeyOrder.mem_entries.mpr htext, ?_⟩, rfl, rfl, nofun⟩
      simp [ownerNames, hrecord]

lemma sources_zoneEntry {order : KeyOrder PeerId} {zone : String}
    {peers : HashMap PeerId PeerAddresses} {owners : Owners}
    (h : zoneEntry order zone peers label owners = .ok (.inl record)) :
    record.label = label ∧ ∃ sources, owners.get? record.peer = some sources ∧
      (record.fallback = true ↔ sources = {.peerIdFallback}) := by
  obtain ⟨fqdn, -, h⟩ := bind_eq_ok.mp h
  split at h
  · cases h
  · split at h
    · cases h
    · rename_i peer sources rest hentries
      split at h
      · cases h
      · obtain rfl := Sum.inl.inj (Except.ok.inj h)
        refine ⟨rfl, sources, KeyOrder.mem_entries.mp (hentries ▸ List.mem_cons_self), ?_⟩
        simp [recordSet]

variable (env) in
/-- The label is a name that the peer is called by. -/
def FriendlyName (config : Config) (membership : EffectiveMembership T)
    (hostnameRecords : HashMap PeerId String) (peer : PeerId) (label : String) : Prop :=
  ∃ name, ClaimsName env config membership hostnameRecords peer name ∧
    canonicalDnsLabel name = .ok label

variable {memberRecords : List SignedMembershipRecord} {now : ℕ} {zone : DnsZone}

/-- A record set is more than a fallback if its label is a name that the peer is called by. -/
lemma fallback_eq_true_iff (hlocal : config.routing.localPeerId env = .ok localPeer)
    (hopen : ¬ Silenced membership localPeer)
    (h : DnsZone.fromMembershipSourceAt env config memberRecords hostnameRecords now (.ok membership)
      zoneOrder = .ok zone) (hrecord : record ∈ zone.records) :
    record.fallback = true ↔
      ¬ FriendlyName env config membership hostnameRecords record.peer record.label := by
  obtain ⟨localPeer', transportPeer, claims, names, peers, entries, hlocal', htransport, hclaims, hnames,
    -, hentries, -, hrecords, -⟩ := fromMembershipSourceAt_eq_ok h
  obtain rfl := Except.ok.inj (hlocal'.symm.trans hlocal)
  have hmem : .inl record ∈ entries := by
    rw [hrecords, (perm_sortBy _).mem_iff] at hrecord
    simpa [List.mem_filterMap, Sum.getLeft?_eq_some_iff] using hrecord
  obtain ⟨⟨label, owners⟩, howners, hentry⟩ := exists_of_mem_mapM hentries hmem
  obtain ⟨rfl, sources, hsources, hfallback⟩ := sources_zoneEntry hentry
  have howners := KeyOrder.mem_entries.mp howners
  have hsource : ∀ source, source ∈ sources ↔ ∃ claim ∈ claims, claim.peer = record.peer ∧
      canonicalDnsLabel claim.label = .ok record.label ∧ claim.source = source := by
    intro source
    have hentered : source ∈ sources ↔ EnteredFrom names record.label record.peer source := by
      rw [EnteredFrom, howners]
      simp [hsources]
    rw [hentered, enteredFrom_foldlM hnames, or_iff_right (by simp [EnteredFrom])]
  have hfriendly : FriendlyName env config membership hostnameRecords record.peer record.label ↔
      ∃ source ∈ sources, source ≠ .peerIdFallback := by
    simp only [FriendlyName, ← exists_claim_iff_claimsName hlocal htransport hopen hclaims, hsource]
    constructor
    · rintro ⟨name, ⟨claim, hclaim, hpeer, rfl, hne⟩, hname⟩
      exact ⟨claim.source, ⟨claim, hclaim, hpeer, hname, rfl⟩, hne⟩
    · rintro ⟨source, ⟨claim, hclaim, hpeer, hname, rfl⟩, hne⟩
      exact ⟨claim.label, ⟨claim, hclaim, hpeer, rfl, hne⟩, hname⟩
  have hnonempty := (entered_foldlM hnames _ owners howners).2.2 _ sources hsources
  rw [hfallback, hfriendly, Finset.eq_singleton_iff_nonempty_unique_mem]
  simp [hnonempty]

/-! ## Zones -/

variable (env) in
/-- Every entry of the reverse map leads from an address to a name of a peer that has it, and to a name
that the peer is called by if there is one that belongs to it alone. -/
def ReverseSound (config : Config) (membership : EffectiveMembership T)
    (hostnameRecords : HashMap PeerId String) (zone : DnsZone) : Prop :=
  ∀ name target, zone.reverse.get? name = some target → ∃ address record,
    name = reverseName address ∧ record ∈ zone.records ∧ record.fqdn = target ∧
    AddressOf env config membership record.peer address ∧
    ((∃ label, FriendlyName env config membership hostnameRecords record.peer label ∧
        ∀ other, Owns env config membership hostnameRecords other label → other = record.peer) →
      FriendlyName env config membership hostnameRecords record.peer record.label)

variable (env) in
/-- No two peers with names of their own share an address. -/
def NoAddressShared (config : Config) (membership : EffectiveMembership T)
    (hostnameRecords : HashMap PeerId String) : Prop :=
  ∀ p q address, Named env config membership hostnameRecords p →
    Named env config membership hostnameRecords q → AddressOf env config membership p address →
    AddressOf env config membership q address → p = q

lemma reverse_eq (h : DnsZone.fromMembershipSourceAt env config memberRecords hostnameRecords now
    (.ok membership) zoneOrder = .ok zone) :
    zone.reverse = buildReverseRecords zoneOrder.preferred zone.records := by
  simp only [DnsZone.fromMembershipSourceAt, bind_eq_ok, mapError_eq_ok_iff] at h
  obtain ⟨-, -, -, -, _, -, _, -, _, -, _, -, _, -, _, -, _, -, _, -, _, -, -, -, _, -, -, -, h⟩ := h
  obtain rfl := Except.ok.inj h
  rfl

lemma not_silenced_of_mem_records (hlocal : config.routing.localPeerId env = .ok localPeer)
    (h : DnsZone.fromMembershipSourceAt env config memberRecords hostnameRecords now (.ok membership)
      zoneOrder = .ok zone) (hrecord : record ∈ zone.records) :
    ¬ Silenced membership localPeer := by
  intro hsilenced
  rw [records_of_silenced hlocal hsilenced h] at hrecord
  cases hrecord

lemma reverseSound (h : DnsZone.fromMembershipSourceAt env config memberRecords hostnameRecords now
    (.ok membership) zoneOrder = .ok zone) : ReverseSound env config membership hostnameRecords zone := by
  intro name target hget
  obtain ⟨localPeer, -, -, -, -, -, hlocal, -⟩ := fromMembershipSourceAt_eq_ok h
  rw [reverse_eq h] at hget
  obtain ⟨peer, record, address, hpreferred, hhas, rfl, rfl⟩ :=
    mem_reversePairs.mp (get?_buildReverseRecords hget)
  have hempty : Preferred ∅ [] := ⟨by simp, nofun⟩
  obtain ⟨hrecord, hpeer, hfallback⟩ := (preferred_foldl hempty zone.records).record peer record hpreferred
  have hopen := not_silenced_of_mem_records hlocal h hrecord
  have hserves := serves_of_fromMembershipSourceAt hlocal hopen h
  refine ⟨address, record, rfl, hrecord, rfl, ((hserves.record record hrecord).2.2 address).mp hhas, ?_⟩
  rintro ⟨label, hfriendly, hunique⟩
  have howns : Owns env config membership hostnameRecords record.peer label := .inl hfriendly
  by_contra hnone
  have honly := hfallback ((fallback_eq_true_iff hlocal hopen h hrecord).mpr hnone)
  rcases hserves.complete record.peer label howns with ⟨other, hother, rfl⟩ | ⟨conflict, hconflict, rfl⟩
  · have hsame : record.peer = other.peer := ((hserves.record other hother).2.1 _).mp howns
    refine (fallback_eq_true_iff hlocal hopen h hother).mp
      (honly other hother (hsame.symm.trans hpeer)) ?_
    rwa [← hsame]
  · obtain ⟨-, p, q, hne, hp, hq⟩ := hserves.conflict conflict hconflict
    exact hne ((hunique p hp).trans (hunique q hq).symm)

/-- A peer with a name of its own has a record set that its addresses lead back to. -/
lemma exists_preferred_of_named (hserves : Serves env config membership hostnameRecords zone)
    (hnamed : Named env config membership hostnameRecords peer) :
    ∃ record ∈ zone.records, record.peer = peer ∧
      (zone.records.foldl preferredRecord ∅).get? peer = some record := by
  have hempty : Preferred ∅ [] := ⟨by simp, nofun⟩
  have hpreferred := preferred_foldl hempty zone.records
  obtain ⟨label, hlabel⟩ := hnamed
  rcases hserves.complete peer label ((hlabel peer).mpr rfl) with
    ⟨record, hrecord, rfl⟩ | ⟨conflict, hconflict, rfl⟩
  · obtain rfl : peer = record.peer :=
      ((hserves.record record hrecord).2.1 peer).mp ((hlabel peer).mpr rfl)
    obtain ⟨preferred, hget⟩ := hpreferred.complete record hrecord
    obtain ⟨hmem, hpeer, -⟩ := hpreferred.record _ preferred hget
    exact ⟨preferred, hmem, hpeer, hget⟩
  · obtain ⟨-, p, q, hne, hp, hq⟩ := hserves.conflict conflict hconflict
    exact absurd (((hlabel p).mp hp).trans ((hlabel q).mp hq).symm) hne

/-! ## An address that is shared -/

/-- The zone of `A` when `B` was granted the address of `A`, for a peer that comes last. -/
def sharedZone (membership : EffectiveMembership SamplePeer) (last : SamplePeer) :
    Except DnsZoneError DnsZone :=
  DnsZone.fromMembershipSourceAt sampleSigning unroutedNames unroutedHistory ∅ 20 (.ok membership)
    { sampleZoneOrder with preferred := KeyOrder.sorted.comingLast (sampleOverlay last) }

lemma exists_sharedZones :
    ∃ membership zone zone',
      effectiveMembershipAt samplePlatform .sorted unroutedHistory "lab" 20 = .ok membership ∧
      sharedZone membership .A = .ok zone ∧ sharedZone membership .B = .ok zone' ∧
      zone.reverse ≠ zone'.reverse := by
  obtain ⟨membership, hmembership, hzones⟩ := exists_ok_of_any
    (p := fun membership => (sharedZone membership .A).toOption.any fun zone =>
      (sharedZone membership .B).toOption.any fun zone' =>
        zone.reverse.get? "1.0.0.10.in-addr.arpa." != zone'.reverse.get? "1.0.0.10.in-addr.arpa.")
    (x := effectiveMembershipAt samplePlatform .sorted unroutedHistory "lab" 20) (by decide +kernel)
  obtain ⟨zone, hzone, hzone'⟩ := exists_ok_of_any hzones
  obtain ⟨zone', hzone', hne⟩ := exists_ok_of_any hzone'
  refine ⟨membership, zone, zone', hmembership, hzone, hzone', fun heq => ?_⟩
  rw [heq] at hne
  simp at hne

/-- **The zone is a function of its inputs** exactly when no two peers with names of their own share an
address, or the local peer is silenced.  Record sets, conflicts and the soundness of the reverse map
never depend on the order of the hash maps; the entry of a shared address does. -/
theorem zone_determined_iff (hfiled : WellFiled membership)
    (h : DnsZone.fromMembershipSourceAt env config memberRecords hostnameRecords now (.ok membership)
      zoneOrder = .ok zone) :
    (∀ order, ∃ zone', DnsZone.fromMembershipSourceAt env config memberRecords hostnameRecords now
        (.ok membership) order = .ok zone' ∧ zone'.records = zone.records ∧
      zone'.conflicts = zone.conflicts ∧ zone'.reverse = zone.reverse ∧
      ReverseSound env config membership hostnameRecords zone') ↔
    ((∃ localPeer, config.routing.localPeerId env = .ok localPeer ∧ Silenced membership localPeer) ∨
      NoAddressShared env config membership hostnameRecords) := by
  obtain ⟨localPeer, -, -, -, -, -, hlocal, -⟩ := fromMembershipSourceAt_eq_ok h
  have hreorder := fromMembershipSourceAt_reorder hfiled h
  have hempty : Preferred ∅ [] := ⟨by simp, nofun⟩
  have hpreferred := preferred_foldl hempty zone.records
  constructor
  · intro hsame
    refine or_iff_not_imp_left.mpr fun hopen p q address hp hq haddressP haddressQ => ?_
    have hopen : ¬ Silenced membership localPeer := fun hsilenced => hopen ⟨localPeer, hlocal, hsilenced⟩
    have hserves := serves_of_fromMembershipSourceAt hlocal hopen h
    obtain ⟨recordP, hrecordP, rfl, hgetP⟩ := exists_preferred_of_named hserves hp
    obtain ⟨recordQ, hrecordQ, rfl, hgetQ⟩ := exists_preferred_of_named hserves hq
    -- each of the two peers may come last
    have hlast : ∀ record ∈ zone.records,
        (zone.records.foldl preferredRecord ∅).get? record.peer = some record →
        AddressOf env config membership record.peer address →
        zone.reverse.get? (reverseName address) = some record.fqdn := by
      intro record hrecord hget haddress
      obtain ⟨zone', hzone', -, -, hreverse, -⟩ :=
        hsame { zoneOrder with preferred := zoneOrder.preferred.comingLast record.peer }
      obtain rfl := Except.ok.inj ((hreorder _).symm.trans hzone')
      rw [← hreverse]
      exact get?_buildReverseRecords_comingLast hget
        (((hserves.record record hrecord).2.2 address).mpr haddress)
    have hfqdn : recordP.fqdn = recordQ.fqdn := Option.some.inj
      ((hlast recordP hrecordP hgetP haddressP).symm.trans (hlast recordQ hrecordQ hgetQ haddressQ))
    have hdistinct : (zone.records.map (·.fqdn)).Nodup :=
      List.pairwise_map.mpr (hserves.sortedRecords.imp fun hlt => hlt.ne)
    rw [List.inj_on_of_nodup_map hdistinct hrecordP hrecordQ hfqdn]
  · intro hcondition order
    refine ⟨_, hreorder order, rfl, rfl, ?_, reverseSound (hreorder order)⟩
    rw [reverse_eq h]
    refine buildReverseRecords_reorder ?_ _ _
    intro p q record record' address hp hq hhas hhas'
    obtain ⟨hrecord, rfl, -⟩ := hpreferred.record p record hp
    obtain ⟨hrecord', rfl, -⟩ := hpreferred.record q record' hq
    have hopen := not_silenced_of_mem_records hlocal h hrecord
    have hserves := serves_of_fromMembershipSourceAt hlocal hopen h
    have hnamed : ∀ record ∈ zone.records,
        Named env config membership hostnameRecords record.peer := fun record hrecord =>
      ⟨record.label, (hserves.record record hrecord).2.1⟩
    have hshared : NoAddressShared env config membership hostnameRecords := by
      refine hcondition.resolve_left ?_
      rintro ⟨localPeer', hlocal', hsilenced⟩
      obtain rfl := Except.ok.inj (hlocal'.symm.trans hlocal)
      exact hopen hsilenced
    have hpeer := hshared _ _ address (hnamed record hrecord) (hnamed record' hrecord')
      (((hserves.record record hrecord).2.2 address).mp hhas)
      (((hserves.record record' hrecord').2.2 address).mp hhas')
    rw [hpeer, hq] at hp
    exact (Option.some.inj hp).symm

/-- The addresses of a description. -/
def Description.addresses (description : Description) : List IpAddr :=
  builtinIpv4 description.peer :: builtinIpv6 description.peer ::
    ((description.vpnIp.toList.filterMap fun input => (parseExplicitIp input).toOption) ++
      description.routes.filterMap fun route =>
        (route.cidr.toOption.filter isHostRoute).map (·.address))

lemma Description.mem_addresses {description : Description} {address : IpAddr}
    (h : description.HasAddress address) : address ∈ description.addresses := by
  cases h with
  | builtinIpv4 => exact List.mem_cons_self
  | builtinIpv6 => exact List.mem_cons_of_mem _ List.mem_cons_self
  | explicit hinput hparse =>
    refine List.mem_cons_of_mem _ (List.mem_cons_of_mem _ (List.mem_append_left _ ?_))
    exact List.mem_filterMap.mpr ⟨_, Option.mem_toList.mpr hinput, by rw [hparse]; rfl⟩
  | host hroute hcidr hhost =>
    refine List.mem_cons_of_mem _ (List.mem_cons_of_mem _ (List.mem_append_right _ ?_))
    exact List.mem_filterMap.mpr ⟨_, hroute, by rw [hcidr]; simp [Except.toOption, hhost]⟩

/-- Without records the zone of `A` is determined.  When `B` was granted the address of `A`, the two
share it. -/
theorem sample_zone_determined :
    (∃ zone, DnsZone.fromMembershipSourceAt sampleSigning sampleNames [] ∅ 20 (.ok unsignedMembership)
        sampleZoneOrder = .ok zone ∧
      ∀ order, ∃ zone', DnsZone.fromMembershipSourceAt sampleSigning sampleNames [] ∅ 20
        (.ok unsignedMembership) order = .ok zone' ∧ zone'.reverse = zone.reverse) ∧
    ∃ membership zone,
      effectiveMembershipAt samplePlatform .sorted unroutedHistory "lab" 20 = .ok membership ∧
      sharedZone membership .A = .ok zone ∧
      ¬ NoAddressShared sampleSigning unroutedNames membership ∅ := by
  constructor
  · obtain ⟨zone, hzone⟩ := exists_sampleZone
    have hmembership : effectiveMembershipAt samplePlatform .sorted [] "lab" 20
      = .ok unsignedMembership := by decide +kernel
    have hdistinct : ∀ description ∈ sampleDescriptions, ∀ other ∈ sampleDescriptions,
        ∀ address ∈ description.addresses, address ∈ other.addresses →
          description.peer = other.peer := by decide +kernel
    have hnone : NoAddressShared sampleSigning sampleNames unsignedMembership ∅ := by
      rintro _ _ address - - ⟨description, hdescribed, rfl, haddress⟩ ⟨other, hother, rfl, haddress'⟩
      exact hdistinct _ (mem_sampleDescriptions.mpr hdescribed) _ (mem_sampleDescriptions.mpr hother)
        address (Description.mem_addresses haddress) (Description.mem_addresses haddress')
    refine ⟨zone, hzone, fun order => ?_⟩
    obtain ⟨zone', hzone', -, -, hreverse, -⟩ :=
      (zone_determined_iff (addressed_effectiveMembershipAt hmembership).wellFiled hzone).mpr (.inr hnone) order
    exact ⟨zone', hzone', hreverse⟩
  · obtain ⟨membership, zone, zone', hmembership, hzone, hzone', hne⟩ := exists_sharedZones
    refine ⟨membership, zone, hmembership, hzone, fun hnone => hne ?_⟩
    obtain ⟨other, hother, -, -, hreverse, -⟩ :=
      (zone_determined_iff (addressed_effectiveMembershipAt hmembership).wellFiled hzone).mpr (.inr hnone)
        { sampleZoneOrder with preferred := KeyOrder.sorted.comingLast (sampleOverlay .B) }
    obtain rfl := Except.ok.inj (hother.symm.trans hzone')
    exact hreverse.symm

/-- **The reverse map depends on the order of a hash map.**  `A` has the address 10.0.0.1, and `B` was
granted it.  Both orders build a zone, and the address leads back to `A` in one and to `B` in the
other. -/
theorem reverse_of_shared_address_differs :
    ∃ membership zone zone' order order',
      effectiveMembershipAt samplePlatform .sorted unroutedHistory "lab" 20 = .ok membership ∧
      DnsZone.fromMembershipSourceAt sampleSigning unroutedNames unroutedHistory ∅ 20 (.ok membership)
        order = .ok zone ∧
      DnsZone.fromMembershipSourceAt sampleSigning unroutedNames unroutedHistory ∅ 20 (.ok membership)
        order' = .ok zone' ∧
      zone.reverse ≠ zone'.reverse := by
  obtain ⟨membership, zone, zone', hmembership, hzone, hzone', hne⟩ := exists_sharedZones
  exact ⟨membership, zone, zone', _, _, hmembership, hzone, hzone', hne⟩

end P2pVpn.Dns
