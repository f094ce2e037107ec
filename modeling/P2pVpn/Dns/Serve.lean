/-
# What a zone serves

A label belongs to the peers that claim a name with it, and to the peer whose fallback it is
(`Owns`).  A zone has a record set for every label of one peer, with the addresses of that peer, and
a conflict for every label of several, and both are found under their full name
(`serves_of_fromMembershipSourceAt`).
-/
import P2pVpn.Dns.Describe

namespace P2pVpn.Dns

open Lib Net P2pVpn.Membership P2pVpn.Checkpoint P2pVpn.Forward

/-! ## Fallback labels -/

variable {peer : PeerId} {label : String} {names : HashMap String Owners}
  {claims : List EffectivePeerName}

section Fallback

variable {T K : Type} (env : SigningPlatform T K)

/-- The characters that spell a peer. -/
def fallbackLetters (peer : PeerId) : List Char :=
  (env.crockford.encode (toBeBytes 32 peer.val)).map Char.toLower

lemma length_fallbackLetters (peer : PeerId) : (fallbackLetters env peer).length = 52 := by
  simp [fallbackLetters, env.crockford.length]

lemma toList_peerFallbackLabel (peer : PeerId) :
    (peerFallbackLabel env peer).toList = ['p', 'e', 'e', 'r', '-'] ++ fallbackLetters env peer := by
  simp only [peerFallbackLabel, String.toList_append, String.toList_ofList]
  rfl

variable {env}

/-- Peers are told apart by their fallback labels. -/
lemma peerFallbackLabel_inj {p q : PeerId} (h : peerFallbackLabel env p = peerFallbackLabel env q) :
    p = q := by
  have hletters := congrArg String.toList h
  rw [toList_peerFallbackLabel, toList_peerFallbackLabel] at hletters
  have hbytes := env.crockford.injective _ _ (by simp) (List.append_cancel_left hletters)
  exact Fin.ext (toBeBytes_inj p.isLt q.isLt hbytes)

lemma isLabelChar_of_isAlphanum {c : Char} (h : c.isAlphanum = true) : isLabelChar c = true ∧ c ≠ '-' := by
  refine ⟨?_, ?_⟩
  · simp only [isLabelChar, isAsciiAlphanumeric, Bool.or_eq_true, decide_eq_true_eq]
    have hbetween : ∀ {p q : Prop} [Decidable p] [Decidable q], (decide p && decide q) = true → p ∧ q :=
      fun h => by simpa using h
    rcases (Bool.or_eq_true _ _).mp h with hletter | hdigit
    · rcases (Bool.or_eq_true _ _).mp hletter with hupper | hlower
      · exact .inl (.inr (.inr (of_decide_eq_true hupper)))
      · exact .inl (.inr (.inl (hbetween hlower)))
    · exact .inl (.inl (hbetween hdigit))
  · rintro rfl
    cases h

lemma fallbackLetters_facts {c : Char} (h : c ∈ fallbackLetters env peer) :
    isLabelChar c = true ∧ c.toLower = c ∧ c ≠ '-' := by
  obtain ⟨letter, hletter, rfl⟩ := List.mem_map.mp h
  obtain ⟨hchar, hdash⟩ := isLabelChar_of_isAlphanum (env.crockford.alphanumeric _ letter hletter)
  have hlower := toLower_of_isLabelChar hchar
  exact ⟨hlower.1, hlower.2.1, fun heq => hdash (hlower.2.2.1.mp heq)⟩

/-- The characters of a fallback label. -/
lemma isLabelChar_of_mem_peerFallbackLabel {c : Char} (h : c ∈ (peerFallbackLabel env peer).toList) :
    isLabelChar c = true ∧ c.toLower = c := by
  rw [toList_peerFallbackLabel, List.mem_append] at h
  rcases h with h | h
  · have : ∀ c ∈ ['p', 'e', 'e', 'r', '-'], isLabelChar c = true ∧ c.toLower = c := by
      simp only [List.forall_mem_cons]
      exact ⟨by decide, by decide, by decide, by decide, by decide, nofun⟩
    exact this c h
  · have hfacts := fallbackLetters_facts h
    exact ⟨hfacts.1, hfacts.2.1⟩

/-- A fallback label is canonical. -/
lemma canonicalDnsLabel_peerFallbackLabel (env : SigningPlatform T K) (peer : PeerId) :
    canonicalDnsLabel (peerFallbackLabel env peer) = .ok (peerFallbackLabel env peer) := by
  have hchars : ∀ c ∈ (peerFallbackLabel env peer).toList, isLabelChar c = true ∧ c.toLower = c :=
    fun c => isLabelChar_of_mem_peerFallbackLabel
  have hlength : (peerFallbackLabel env peer).toList.length = 57 := by
    simp [toList_peerFallbackLabel, length_fallbackLetters]
  refine canonicalDnsLabel_eq_ok.mpr ⟨?_, ?_, ?_, ?_, fun c hc => (hchars c hc).1, ?_⟩
  · intro hnil
    simp [hnil] at hlength
  · have hsizes : (peerFallbackLabel env peer).toList.map Char.utf8Size
        = (peerFallbackLabel env peer).toList.map fun _ => 1 :=
      List.map_congr_left fun c hc => (toLower_of_isLabelChar (hchars c hc).1).2.2.2.1
    rw [← String.ofList_toList (s := peerFallbackLabel env peer), utf8ByteSize_ofList, hsizes]
    simp [hlength]
  · simp [toList_peerFallbackLabel]
  · have hne : fallbackLetters env peer ≠ [] := by
      intro hnil
      simpa [length_fallbackLetters] using congrArg List.length hnil
    rw [toList_peerFallbackLabel, List.getLast?_append_of_ne_nil _ hne]
    intro hlast
    exact (fallbackLetters_facts (List.mem_of_getLast? hlast)).2.2 rfl
  · have hsame : (peerFallbackLabel env peer).toList.map Char.toLower = (peerFallbackLabel env peer).toList := by
      conv_rhs => rw [← List.map_id (peerFallbackLabel env peer).toList]
      exact List.map_congr_left fun c hc => (hchars c hc).2
    rw [hsame, String.ofList_toList]

end Fallback

/-! ## The owners of labels -/

/-- The label is entered for the peer, from a source. -/
def EnteredFrom (names : HashMap String Owners) (label : String) (peer : PeerId)
    (source : DnsNameSource) : Prop :=
  ∃ owners, names.get? label = some owners ∧ ∃ sources, owners.get? peer = some sources ∧
    source ∈ sources

lemma enteredFrom_insertName {after : HashMap String Owners} {claim : EffectivePeerName}
    (h : insertName names claim = .ok after) {source : DnsNameSource} :
    EnteredFrom after label peer source ↔ EnteredFrom names label peer source ∨
      claim.peer = peer ∧ canonicalDnsLabel claim.label = .ok label ∧ claim.source = source := by
  obtain ⟨canonical, hcanonical, h⟩ := bind_eq_ok.mp h
  obtain rfl := Except.ok.inj h
  have hcanonical := mapError_eq_ok_iff.mp hcanonical
  simp only [EnteredFrom, HashMap.get?_insert, hcanonical, Except.ok.injEq]
  by_cases hlabel : label = canonical
  · subst hlabel
    simp only [if_true, Option.some.injEq, exists_eq_left', HashMap.get?_insert, true_and]
    by_cases hpeer : peer = claim.peer
    · subst hpeer
      simp only [if_true, Option.some.injEq, exists_eq_left', Finset.mem_insert, true_and]
      cases names.get? label with
      | none => simp [eq_comm]
      | some owners =>
        cases hsources : owners.get? claim.peer with
        | none => simp [hsources, eq_comm]
        | some sources => simp [hsources, eq_comm, or_comm]
    · rw [if_neg hpeer]
      cases names.get? label with
      | none => simp [Ne.symm hpeer]
      | some owners => simp [Ne.symm hpeer]
  · simp [hlabel, Ne.symm hlabel]

lemma enteredFrom_foldlM {after : HashMap String Owners}
    (h : claims.foldlM insertName names = .ok after) {source : DnsNameSource} :
    EnteredFrom after label peer source ↔ EnteredFrom names label peer source ∨
      ∃ claim ∈ claims, claim.peer = peer ∧ canonicalDnsLabel claim.label = .ok label ∧
        claim.source = source := by
  induction claims generalizing names with
  | nil =>
    obtain rfl := Except.ok.inj h
    simp
  | cons claim claims ih =>
    obtain ⟨next, hnext, h⟩ := foldlM_cons_eq_ok.mp h
    rw [ih h, enteredFrom_insertName hnext]
    simp only [List.mem_cons, or_and_right, exists_or, exists_eq_left, or_assoc]

/-- Entered labels are canonical and have an owner, and every owner has a source. -/
def Entered (names : HashMap String Owners) : Prop :=
  ∀ label owners, names.get? label = some owners → canonicalDnsLabel label = .ok label ∧
    owners.keys.Nonempty ∧ ∀ peer sources, owners.get? peer = some sources → sources.Nonempty

lemma entered_foldlM (h : claims.foldlM insertName ∅ = .ok names) : Entered names := by
  refine foldlM_invariant (P := Entered) (fun claim _ before after hbefore hstep => ?_) ?_ h
  · obtain ⟨canonical, hcanonical, hstep⟩ := bind_eq_ok.mp hstep
    obtain rfl := Except.ok.inj hstep
    intro label owners howners
    rw [HashMap.get?_insert] at howners
    split at howners
    · rename_i hlabel
      obtain rfl := Option.some.inj howners
      rw [hlabel]
      refine ⟨canonicalDnsLabel_canonical (mapError_eq_ok_iff.mp hcanonical), ⟨claim.peer,
        HashMap.mem_keys.mpr ⟨_, HashMap.get?_insert_self _ _ _⟩⟩, fun peer sources hsources => ?_⟩
      rw [HashMap.get?_insert] at hsources
      split at hsources
      · exact Option.some.inj hsources ▸ Finset.insert_nonempty _ _
      · cases hget : before.get? canonical with
        | none => simp [hget] at hsources
        | some owners =>
          rw [hget, Option.getD_some] at hsources
          exact (hbefore canonical owners hget).2.2 peer sources hsources
    · exact hbefore label owners howners
  · simp [Entered]

/-! ## Entries of the zone -/

/-- The addresses of a record set. -/
def DnsRecordSet.Has (record : DnsRecordSet) : IpAddr → Prop
  | .v4 bits => bits ∈ record.ipv4
  | .v6 bits => bits ∈ record.ipv6

lemma has_recordSet {fqdn : String} {addresses : PeerAddresses} {sources : Finset DnsNameSource}
    {address : IpAddr} :
    (recordSet label fqdn peer addresses sources).Has address ↔ addresses.Has address := by
  cases address with
  | v4 bits => simp only [DnsRecordSet.Has, recordSet, KeyOrder.mem_iff, PeerAddresses.Has]
  | v6 bits => simp only [DnsRecordSet.Has, recordSet, KeyOrder.mem_iff, PeerAddresses.Has]

/-- A name with one owner has a record set, a name with several is a conflict. -/
lemma zoneEntry_eq_ok {order : KeyOrder PeerId} {zone : String}
    {peers : HashMap PeerId PeerAddresses} {owners : Owners}
    {entry : DnsRecordSet ⊕ DnsNameConflict} (hlabel : canonicalDnsLabel label = .ok label)
    (howners : owners.keys.Nonempty) (h : zoneEntry order zone peers label owners = .ok entry) :
    (∃ peer sources addresses, owners.keys = {peer} ∧ peers.get? peer = some addresses ∧
      entry = .inl (recordSet label (label ++ "." ++ zone) peer addresses sources)) ∨
    ∃ conflicting, 1 < owners.keys.card ∧ entry = .inr ⟨label, label ++ "." ++ zone, conflicting⟩ := by
  obtain ⟨fqdn, hfqdn, h⟩ := bind_eq_ok.mp h
  rw [mapError_eq_ok_iff, fullyQualifiedName, hlabel] at hfqdn
  obtain rfl := Except.ok.inj hfqdn
  split at h
  · rename_i hmany
    exact Or.inr ⟨_, hmany, (Except.ok.inj h).symm⟩
  · rename_i hone
    have hcard : owners.keys.card = 1 := by
      have := howners.card_pos
      omega
    obtain ⟨only, honly⟩ := Finset.card_eq_one.mp hcard
    split at h
    · cases h
    · rename_i peer sources rest hentries
      have hpeer : peer ∈ owners.keys := HashMap.mem_keys.mpr
        ⟨sources, KeyOrder.mem_entries.mp (hentries ▸ List.mem_cons_self)⟩
      obtain rfl : peer = only := Finset.mem_singleton.mp (honly ▸ hpeer)
      split at h
      · cases h
      · rename_i addresses haddresses
        exact Or.inl ⟨peer, sources, addresses, honly, haddresses, (Except.ok.inj h).symm⟩

/-! ## Zones -/

variable {T K : Type} (env : SigningPlatform T K)

/-- The label belongs to the peer. -/
def Owns (config : Config) (membership : EffectiveMembership T)
    (hostnameRecords : HashMap PeerId String) (peer : PeerId) (label : String) : Prop :=
  (∃ name, ClaimsName env config membership hostnameRecords peer name ∧
    canonicalDnsLabel name = .ok label) ∨
  Covered env config membership peer ∧ label = peerFallbackLabel env peer

/-- The names, addresses and conflicts of a zone. -/
structure Serves (config : Config) (membership : EffectiveMembership T)
    (hostnameRecords : HashMap PeerId String) (zone : DnsZone) : Prop where
  record : ∀ record ∈ zone.records, record.fqdn = record.label ++ "." ++ zone.zone ∧
    (∀ peer, Owns env config membership hostnameRecords peer record.label ↔ peer = record.peer) ∧
    ∀ address, record.Has address ↔ AddressOf env config membership record.peer address
  conflict : ∀ conflict ∈ zone.conflicts, conflict.fqdn = conflict.label ++ "." ++ zone.zone ∧
    ∃ p q, p ≠ q ∧ Owns env config membership hostnameRecords p conflict.label ∧
      Owns env config membership hostnameRecords q conflict.label
  complete : ∀ peer label, Owns env config membership hostnameRecords peer label →
    (∃ record ∈ zone.records, record.label = label) ∨ ∃ conflict ∈ zone.conflicts,
      conflict.label = label
  sortedRecords : Sorted (·.fqdn) zone.records
  sortedConflicts : Sorted (·.fqdn) zone.conflicts

variable {env} {config : Config} {membership : EffectiveMembership T} {localPeer : PeerId}
  {memberRecords : List SignedMembershipRecord} {hostnameRecords : HashMap PeerId String} {now : ℕ}
  {order : ZoneOrder} {zone : DnsZone}

/-- How a zone came about. -/
lemma fromMembershipSourceAt_eq_ok
    (h : DnsZone.fromMembershipSourceAt env config memberRecords hostnameRecords now (.ok membership)
      order = .ok zone) :
    ∃ localPeer transportPeer claims names peers entries,
      config.routing.localPeerId env = .ok localPeer ∧
      config.routing.localPeer env = .ok transportPeer ∧
      effectivePeerNames env hostnameRecords config membership order = .ok claims ∧
      claims.foldlM insertName ∅ = .ok names ∧
      Collected peers (descriptions env config membership localPeer transportPeer order.members) ∧
      (order.labels.entries names).mapM
        (fun entry => zoneEntry (order.claimants entry.1) zone.zone peers entry.1 entry.2) = .ok entries ∧
      zoneName config.network.name = .ok zone.zone ∧
      zone.records = sortBy (·.fqdn) (entries.filterMap Sum.getLeft?) ∧
      zone.conflicts = sortBy (·.fqdn) (entries.filterMap Sum.getRight?) := by
  simp only [DnsZone.fromMembershipSourceAt, bind_eq_ok, mapError_eq_ok_iff] at h
  obtain ⟨-, -, -, -, name, hname, localPeer, hlocal, transportPeer, htransport, start, hstart,
    effective, heffective, claims, hclaims, names, hnames, configured, hconfigured, peers, hpeers,
    -, -, entries, hentries, -, -, h⟩ := h
  obtain rfl := Except.ok.inj heffective
  obtain rfl := Except.ok.inj h
  exact ⟨localPeer, transportPeer, claims, names, peers, entries, hlocal, htransport, hclaims, hnames,
    collected_descriptions hstart hconfigured hpeers, hentries, hname, rfl, rfl⟩

/-- A zone of a silenced peer is empty. -/
lemma records_of_silenced (hlocal : config.routing.localPeerId env = .ok localPeer)
    (hsilenced : Silenced membership localPeer)
    (h : DnsZone.fromMembershipSourceAt env config memberRecords hostnameRecords now (.ok membership)
      order = .ok zone) : zone.records = [] := by
  obtain ⟨localPeer', transportPeer, claims, names, peers, entries, hlocal', htransport, hclaims, hnames,
    -, hentries, -, hrecords, -⟩ := fromMembershipSourceAt_eq_ok h
  obtain rfl := Except.ok.inj (hlocal'.symm.trans hlocal)
  have hnone : claims = [] := by
    refine List.eq_nil_iff_forall_not_mem.mpr fun claim hclaim => ?_
    exact ((mem_effectivePeerNames hlocal htransport hclaims).mp ⟨claim, hclaim, rfl, rfl⟩).1 hsilenced
  subst hnone
  obtain rfl := Except.ok.inj hnames
  have hempty : order.labels.entries (∅ : HashMap String Owners) = [] := by
    refine List.eq_nil_iff_forall_not_mem.mpr fun ⟨label, owners⟩ hentry => ?_
    simpa using KeyOrder.mem_entries.mp hentry
  rw [hempty] at hentries
  obtain rfl := Except.ok.inj hentries
  exact hrecords

/-- Entries with distinct full names make a table. -/
lemma sorted_sortBy_fqdn {α : Type} {fqdn : α → String} {l : List α}
    (h : l.Pairwise fun a b => fqdn a ≠ fqdn b) : Sorted fqdn (sortBy fqdn l) := by
  have hdistinct : (sortBy fqdn l).Pairwise fun a b => fqdn a ≠ fqdn b :=
    ((perm_sortBy l).pairwise_iff fun hne => hne.symm).mpr h
  exact ((pairwise_sortBy l).and hdistinct).imp fun h => lt_of_le_of_ne h.1 h.2

/-- The full name of an entry. -/
def entryFqdn : DnsRecordSet ⊕ DnsNameConflict → String := Sum.elim (·.fqdn) (·.fqdn)

section Entries

variable {names : HashMap String Owners} {peers : HashMap PeerId PeerAddresses} {labels : KeyOrder String}
  {claimants : String → KeyOrder PeerId} {name : String} {entries : List (DnsRecordSet ⊕ DnsNameConflict)}
  (hentered : Entered names) (h : (labels.entries names).mapM (fun entry =>
    zoneEntry (claimants entry.1) name peers entry.1 entry.2) = .ok entries)

include hentered h

/-- Where an entry comes from. -/
lemma exists_label_of_mem_entries {entry : DnsRecordSet ⊕ DnsNameConflict} (hentry : entry ∈ entries) :
    ∃ label owners, names.get? label = some owners ∧
      ((∃ peer sources addresses, owners.keys = {peer} ∧ peers.get? peer = some addresses ∧
        entry = .inl (recordSet label (label ++ "." ++ name) peer addresses sources)) ∨
      ∃ conflicting, 1 < owners.keys.card ∧
        entry = .inr ⟨label, label ++ "." ++ name, conflicting⟩) := by
  obtain ⟨⟨label, owners⟩, hmem, hzone⟩ := exists_of_mem_mapM h hentry
  have howners := KeyOrder.mem_entries.mp hmem
  obtain ⟨hlabel, hnonempty, -⟩ := hentered label owners howners
  exact ⟨label, owners, howners, zoneEntry_eq_ok hlabel hnonempty hzone⟩

/-- Every label has an entry. -/
lemma exists_entry_of_get? {owners : Owners} (howners : names.get? label = some owners) :
    (∃ record, .inl record ∈ entries ∧ record.label = label) ∨
      ∃ conflict, .inr conflict ∈ entries ∧ conflict.label = label := by
  obtain ⟨entry, hentry, hzone⟩ := exists_mem_of_mapM h (KeyOrder.mem_entries.mpr howners)
  obtain ⟨hlabel, hnonempty, -⟩ := hentered label owners howners
  rcases zoneEntry_eq_ok hlabel hnonempty hzone with ⟨_, _, _, -, -, rfl⟩ | ⟨_, -, rfl⟩
  · exact Or.inl ⟨_, hentry, rfl⟩
  · exact Or.inr ⟨_, hentry, rfl⟩

/-- No two entries have one full name. -/
lemma entryFqdn_distinct : entries.Pairwise fun a b => entryFqdn a ≠ entryFqdn b := by
  have hfqdn : entries.map entryFqdn = (labels.entries names).map fun e => e.1 ++ "." ++ name := by
    refine map_eq_of_mapM h fun ⟨label, owners⟩ hmem entry hzone => ?_
    obtain ⟨hlabel, hnonempty, -⟩ := hentered label owners (KeyOrder.mem_entries.mp hmem)
    rcases zoneEntry_eq_ok hlabel hnonempty hzone with ⟨_, _, _, -, -, rfl⟩ | ⟨_, -, rfl⟩
    · rfl
    · rfl
  refine List.pairwise_map.mp (hfqdn ▸ List.pairwise_map.mpr ?_)
  refine (KeyOrder.entries_pairwise names).imp fun {a b} hne heq => hne ?_
  exact (String.append_left_inj _).mp ((String.append_left_inj _).mp heq)

end Entries

/-- The labels that are entered are those that belong to somebody. -/
lemma enteredFrom_iff_owns {transportPeer : String}
    (hlocal : config.routing.localPeerId env = .ok localPeer)
    (htransport : config.routing.localPeer env = .ok transportPeer)
    (hopen : ¬ Silenced membership localPeer)
    (hclaims : effectivePeerNames env hostnameRecords config membership order = .ok claims)
    (hnames : claims.foldlM insertName ∅ = .ok names) :
    (∃ source, EnteredFrom names label peer source) ↔
      Owns env config membership hostnameRecords peer label := by
  have hclaimed : ∀ name, (∃ claim ∈ claims, claim.peer = peer ∧ claim.label = name) ↔
      ClaimsName env config membership hostnameRecords peer name ∨
        Covered env config membership peer ∧ name = peerFallbackLabel env peer := by
    intro name
    rw [mem_effectivePeerNames hlocal htransport hclaims, and_iff_right hopen]
  simp only [enteredFrom_foldlM hnames]
  constructor
  · rintro ⟨source, ⟨owners, howners, -⟩ | ⟨claim, hclaim, rfl, hlabel, -⟩⟩
    · simp at howners
    · rcases (hclaimed claim.label).mp ⟨claim, hclaim, rfl, rfl⟩ with hname | ⟨hcovered, hname⟩
      · exact Or.inl ⟨claim.label, hname, hlabel⟩
      · rw [hname, canonicalDnsLabel_peerFallbackLabel] at hlabel
        exact Or.inr ⟨hcovered, (Except.ok.inj hlabel).symm⟩
  · rintro (⟨name, hname, hlabel⟩ | ⟨hcovered, rfl⟩)
    · obtain ⟨claim, hclaim, hpeer, rfl⟩ := (hclaimed name).mpr (Or.inl hname)
      exact ⟨_, Or.inr ⟨claim, hclaim, hpeer, hlabel, rfl⟩⟩
    · obtain ⟨claim, hclaim, hpeer, hlabel⟩ := (hclaimed _).mpr (Or.inr ⟨hcovered, rfl⟩)
      exact ⟨_, Or.inr ⟨claim, hclaim, hpeer, by rw [hlabel, canonicalDnsLabel_peerFallbackLabel], rfl⟩⟩

/-- **What a zone serves.**  Unless the local peer is silenced, the zone has a record set for every
label of one peer and a conflict for every label of several. -/
lemma serves_of_fromMembershipSourceAt (hlocal : config.routing.localPeerId env = .ok localPeer)
    (hopen : ¬ Silenced membership localPeer)
    (h : DnsZone.fromMembershipSourceAt env config memberRecords hostnameRecords now (.ok membership)
      order = .ok zone) : Serves env config membership hostnameRecords zone := by
  obtain ⟨localPeer', transportPeer, claims, names, peers, entries, hlocal', htransport, hclaims, hnames,
    hpeers, hentries, -, hrecords, hconflicts⟩ := fromMembershipSourceAt_eq_ok h
  obtain rfl := Except.ok.inj (hlocal'.symm.trans hlocal)
  have hentered := entered_foldlM hnames
  have hdistinct := entryFqdn_distinct hentered hentries
  have howns : ∀ {label owners peer}, names.get? label = some owners →
      (Owns env config membership hostnameRecords peer label ↔ peer ∈ owners.keys) := by
    intro label owners peer howners
    rw [← enteredFrom_iff_owns hlocal htransport hopen hclaims hnames, HashMap.mem_keys]
    constructor
    · rintro ⟨source, owners', howners', sources, hsources, -⟩
      obtain rfl := Option.some.inj (howners.symm.trans howners')
      exact ⟨sources, hsources⟩
    · rintro ⟨sources, hsources⟩
      obtain ⟨source, hsource⟩ := (hentered label owners howners).2.2 peer sources hsources
      exact ⟨source, owners, howners, sources, hsources, hsource⟩
  have hmemRecord : ∀ {record}, record ∈ zone.records ↔ .inl record ∈ entries := by
    intro record
    rw [hrecords, (perm_sortBy _).mem_iff]
    simp [List.mem_filterMap, Sum.getLeft?_eq_some_iff]
  have hmemConflict : ∀ {conflict}, conflict ∈ zone.conflicts ↔ .inr conflict ∈ entries := by
    intro conflict
    rw [hconflicts, (perm_sortBy _).mem_iff]
    simp [List.mem_filterMap, Sum.getRight?_eq_some_iff]
  refine ⟨fun record hrecord => ?_, fun conflict hconflict => ?_, fun peer label howned => ?_, ?_, ?_⟩
  · obtain ⟨label, owners, howners, ⟨peer, sources, addresses, hkeys, haddresses, heq⟩ | ⟨_, _, heq⟩⟩ :=
      exists_label_of_mem_entries hentered hentries (hmemRecord.mp hrecord)
    · obtain rfl := Sum.inl.inj heq
      refine ⟨rfl, fun other => ?_, fun address => ?_⟩
      · rw [recordSet, howns howners, hkeys, Finset.mem_singleton]
      · rw [has_recordSet, hpeers.addresses peer addresses address haddresses]
        exact exists_described_iff hlocal htransport
    · cases heq
  · obtain ⟨label, owners, howners, ⟨_, _, _, _, _, heq⟩ | ⟨conflicting, hcard, heq⟩⟩ :=
      exists_label_of_mem_entries hentered hentries (hmemConflict.mp hconflict)
    · cases heq
    · obtain rfl := Sum.inr.inj heq
      obtain ⟨p, hp, q, hq, hne⟩ := Finset.one_lt_card.mp hcard
      exact ⟨rfl, p, q, hne, (howns howners).mpr hp, (howns howners).mpr hq⟩
  · obtain ⟨_, owners, howners, -⟩ :=
      (enteredFrom_iff_owns hlocal htransport hopen hclaims hnames).mpr howned
    rcases exists_entry_of_get? hentered hentries howners with ⟨record, hrecord, hlabel⟩ |
      ⟨conflict, hconflict, hlabel⟩
    · exact Or.inl ⟨record, hmemRecord.mpr hrecord, hlabel⟩
    · exact Or.inr ⟨conflict, hmemConflict.mpr hconflict, hlabel⟩
  · rw [hrecords]
    refine sorted_sortBy_fqdn (List.Pairwise.filterMap _ ?_ hdistinct)
    intro a b hne record ha record' hb
    rw [Sum.getLeft?_eq_some_iff.mp ha, Sum.getLeft?_eq_some_iff.mp hb] at hne
    exact hne
  · rw [hconflicts]
    refine sorted_sortBy_fqdn (List.Pairwise.filterMap _ ?_ hdistinct)
    intro a b hne conflict ha conflict' hb
    rw [Sum.getRight?_eq_some_iff.mp ha, Sum.getRight?_eq_some_iff.mp hb] at hne
    exact hne

end P2pVpn.Dns
