/-
# Fallback names

Every peer of a network has a name that spells its overlay address.  Nothing keeps another peer from
claiming that name, as a hostname or as a friendly name; it is then a conflict, and nobody has it.
The fallback name of a peer is served with the peer's addresses exactly when no other peer claims it
and the local peer is not silenced (`fallback_served_iff`).
-/
import P2pVpn.Checkpoint.Sample
import P2pVpn.Dns.Serve

namespace P2pVpn.Dns

open Lib Net P2pVpn.Membership P2pVpn.Checkpoint P2pVpn.Forward

/-! ## Full names -/

lemma map_toLower_of_canonical {label : String} (h : canonicalDnsLabel label = .ok label) :
    label.toList.map Char.toLower = label.toList := by
  obtain ⟨-, -, -, -, -, hlabel⟩ := canonicalDnsLabel_eq_ok.mp h
  conv_rhs => rw [hlabel, String.toList_ofList]

/-- The full name of a canonical label is canonical. -/
lemma canonicalFqdn_eq {label networkName zone : String} (hlabel : canonicalDnsLabel label = .ok label)
    (hzone : zoneName networkName = .ok zone) :
    DnsZone.canonicalFqdn (label ++ "." ++ zone) = label ++ "." ++ zone := by
  obtain ⟨network, hnetwork, hzone⟩ := bind_eq_ok.mp hzone
  obtain rfl := Except.ok.inj hzone
  have hlower : (label ++ "." ++ (network ++ "." ++ dnsPrivateSuffix ++ ".")).toList.map Char.toLower
      = (label ++ "." ++ (network ++ "." ++ dnsPrivateSuffix ++ ".")).toList := by
    simp only [String.toList_append, List.map_append, map_toLower_of_canonical hlabel,
      map_toLower_of_canonical (canonicalDnsLabel_canonical hnetwork)]
    rfl
  have hlast : (label ++ "." ++ (network ++ "." ++ dnsPrivateSuffix ++ ".")).toList.getLast?
      = some '.' := by
    rw [String.toList_append, String.toList_append (s := network ++ "." ++ dnsPrivateSuffix),
      ← List.append_assoc]
    exact List.getLast?_concat
  rw [DnsZone.canonicalFqdn, hlower, if_pos hlast, String.ofList_toList]

variable {T K : Type} {env : SigningPlatform T K} {config : Config}
  {membership : EffectiveMembership T} {localPeer : PeerId}
  {memberRecords : List SignedMembershipRecord} {hostnameRecords : HashMap PeerId String} {now : ℕ}
  {order : ZoneOrder} {zone : DnsZone}

namespace Serves

variable (h : Serves env config membership hostnameRecords zone) {networkName label : String}

include h

/-- The record set that is found under a full name. -/
lemma record_eq_some_iff (hzone : zoneName networkName = .ok zone.zone)
    (hlabel : canonicalDnsLabel label = .ok label) {record : DnsRecordSet} :
    zone.record (label ++ "." ++ zone.zone) = some record ↔
      record ∈ zone.records ∧ record.label = label := by
  rw [DnsZone.record, canonicalFqdn_eq hlabel hzone, lookup_eq_some_iff h.sortedRecords]
  refine and_congr_right fun hrecord => ?_
  rw [(h.record record hrecord).1, String.append_left_inj, String.append_left_inj]

/-- The conflict that is found under a full name. -/
lemma conflict_eq_some_iff (hzone : zoneName networkName = .ok zone.zone)
    (hlabel : canonicalDnsLabel label = .ok label) {conflict : DnsNameConflict} :
    zone.conflict (label ++ "." ++ zone.zone) = some conflict ↔
      conflict ∈ zone.conflicts ∧ conflict.label = label := by
  rw [DnsZone.conflict, canonicalFqdn_eq hlabel hzone, lookup_eq_some_iff h.sortedConflicts]
  refine and_congr_right fun hconflict => ?_
  rw [(h.conflict conflict hconflict).1, String.append_left_inj, String.append_left_inj]

/-- A label of one peer only is served with the addresses of the peer. -/
lemma record_of_owns (hzone : zoneName networkName = .ok zone.zone)
    (hlabel : canonicalDnsLabel label = .ok label) {peer : PeerId}
    (howns : Owns env config membership hostnameRecords peer label)
    (honly : ∀ other, Owns env config membership hostnameRecords other label → other = peer) :
    (∃ record, zone.record (label ++ "." ++ zone.zone) = some record ∧ record.peer = peer ∧
      ∀ address, record.Has address ↔ AddressOf env config membership peer address) ∧
    zone.conflict (label ++ "." ++ zone.zone) = none := by
  have hfree : ∀ conflict ∈ zone.conflicts, conflict.label ≠ label := by
    rintro conflict hconflict rfl
    obtain ⟨-, p, q, hne, hp, hq⟩ := h.conflict conflict hconflict
    exact hne ((honly p hp).trans (honly q hq).symm)
  constructor
  · rcases h.complete peer label howns with ⟨record, hrecord, hname⟩ | ⟨conflict, hconflict, hname⟩
    · obtain ⟨-, howner, haddresses⟩ := h.record record hrecord
      obtain rfl : peer = record.peer := (howner peer).mp (hname ▸ howns)
      exact ⟨record, (h.record_eq_some_iff hzone hlabel).mpr ⟨hrecord, hname⟩, rfl, haddresses⟩
    · exact absurd hname (hfree conflict hconflict)
  · refine Option.eq_none_iff_forall_ne_some.mpr fun conflict hconflict => ?_
    obtain ⟨hconflict, hname⟩ := (h.conflict_eq_some_iff hzone hlabel).mp hconflict
    exact hfree conflict hconflict hname

end Serves

/-! ## The fallback name of a peer -/

variable (env) in
/-- The zone has a record set under the fallback name of the peer, with exactly the addresses of the
peer, and the name is no conflict. -/
def ServesFallback (config : Config) (membership : EffectiveMembership T) (zone : DnsZone)
    (peer : PeerId) : Prop :=
  (∃ record, zone.record (peerFallbackLabel env peer ++ "." ++ zone.zone) = some record ∧
    record.peer = peer ∧
    ∀ address, record.Has address ↔ AddressOf env config membership peer address) ∧
  zone.conflict (peerFallbackLabel env peer ++ "." ++ zone.zone) = none

/-- **Fallback names.**  A peer that a zone covers is served under its fallback name exactly when no
other peer claims that name, and the local peer is authorized where a checkpoint seals the
network. -/
theorem fallback_served_iff (hlocal : config.routing.localPeerId env = .ok localPeer)
    (h : DnsZone.fromMembershipSourceAt env config memberRecords hostnameRecords now (.ok membership)
      order = .ok zone) {peer : PeerId} (hcovered : Covered env config membership peer) :
    ServesFallback env config membership zone peer ↔
      ¬ Silenced membership localPeer ∧
        ∀ other name, other ≠ peer → ClaimsName env config membership hostnameRecords other name →
          canonicalDnsLabel name ≠ .ok (peerFallbackLabel env peer) := by
  obtain ⟨_, _, _, _, _, _, _, _, _, _, _, _, hzone, -, -⟩ := fromMembershipSourceAt_eq_ok h
  have hlabel := canonicalDnsLabel_peerFallbackLabel env peer
  have howns : Owns env config membership hostnameRecords peer (peerFallbackLabel env peer) :=
    Or.inr ⟨hcovered, rfl⟩
  constructor
  · rintro ⟨⟨record, hrecord, hpeer, -⟩, -⟩
    have hopen : ¬ Silenced membership localPeer := by
      intro hsilenced
      rw [DnsZone.record, records_of_silenced hlocal hsilenced h] at hrecord
      cases hrecord
    refine ⟨hopen, fun other name hne hclaims hname => hne ?_⟩
    have hserves := serves_of_fromMembershipSourceAt hlocal hopen h
    obtain ⟨hrecord, hname'⟩ := (hserves.record_eq_some_iff hzone hlabel).mp hrecord
    rw [← hpeer]
    exact ((hserves.record record hrecord).2.1 other).mp (Or.inl ⟨name, hclaims, hname' ▸ hname⟩)
  · rintro ⟨hopen, hfree⟩
    have hserves := serves_of_fromMembershipSourceAt hlocal hopen h
    refine hserves.record_of_owns hzone hlabel howns fun other hother => ?_
    rcases hother with ⟨name, hclaims, hname⟩ | ⟨-, hfallback⟩
    · by_contra hne
      exact hfree other name hne hclaims hname
    · exact (peerFallbackLabel_inj hfallback).symm

/-! ## A network of two -/

/-- The platform of the three peers, for their hostname records. -/
def sampleHostnames : HostnamePlatform SamplePeer SamplePeer where
  toSigningPlatform := sampleSigning
  hostnameRecordPayloadJson payload := [payload.sequence.toUInt8]
  hostnameRecordJsonLen _ := 300

/-- The node of `A`, with `B` as its peer, serves names. -/
def sampleNames : Config where
  network :=
    { name := "lab"
      localPeer := SamplePeer.text .A
      privateKey := none
      memberRecords := []
      vpnIp := some "10.0.0.1/24"
      routes := []
      dns := ⟨true, some "nas", .v4 0x7f000001 0, 30⟩ }
  peers := [⟨⟨SamplePeer.text .B, none, []⟩, some "laptop"⟩]

/-- Nothing is signed in the network. -/
def unsignedMembership : EffectiveMembership SamplePeer := ⟨∅, ∅, false⟩

def sampleZoneOrder : ZoneOrder := ⟨.sorted, .sorted, .sorted, .sorted, fun _ => .sorted, .sorted⟩

/-- The overlay address of a peer of the sample. -/
def sampleOverlay (peer : SamplePeer) : PeerId := fromLibp2p sampleSigning.toPlatform peer

/-- The descriptions that the node of `A` goes by. -/
def sampleDescriptions : List Description :=
  descriptions sampleSigning sampleNames unsignedMembership (sampleOverlay .A) (SamplePeer.text .A)
    .sorted

lemma mem_sampleDescriptions {description : Description} :
    description ∈ sampleDescriptions ↔
      Described sampleSigning sampleNames unsignedMembership description :=
  mem_descriptions (by decide +kernel) (by decide +kernel)

lemma covered_sample : Covered sampleSigning sampleNames unsignedMembership (sampleOverlay .A) := by
  have hmem : sampleDescriptions.any (·.peer == sampleOverlay .A) = true := by decide +kernel
  obtain ⟨description, hdescription, hpeer⟩ := List.any_eq_true.mp hmem
  exact ⟨description, mem_sampleDescriptions.mp hdescription, by simpa using hpeer⟩

lemma exists_sampleZone :
    ∃ zone, DnsZone.fromMembershipSourceAt sampleSigning sampleNames [] ∅ 20 (.ok unsignedMembership)
      sampleZoneOrder = .ok zone := by
  obtain ⟨zone, hzone, -⟩ := exists_ok_of_any (p := fun _ => true)
    (x := DnsZone.fromMembershipSourceAt sampleSigning sampleNames [] ∅ 20 (.ok unsignedMembership)
      sampleZoneOrder) (by decide +kernel)
  exact ⟨zone, hzone⟩

/-- `A` is served under its fallback name. -/
theorem sample_fallback_served :
    ∃ zone, DnsZone.fromMembershipSourceAt sampleSigning sampleNames [] ∅ 20 (.ok unsignedMembership)
        sampleZoneOrder = .ok zone ∧
      ServesFallback sampleSigning sampleNames unsignedMembership zone (sampleOverlay .A) := by
  obtain ⟨zone, hzone⟩ := exists_sampleZone
  have hnames : ∀ description ∈ sampleDescriptions, ∀ name ∈ description.names,
      canonicalDnsLabel name ≠ .ok (peerFallbackLabel sampleSigning (sampleOverlay .A)) := by decide +kernel
  have hlocal : sampleNames.routing.localPeerId sampleSigning = .ok (sampleOverlay .A) := by
    decide +kernel
  refine ⟨zone, hzone, (fallback_served_iff hlocal hzone covered_sample).mpr
    ⟨fun hsilenced => absurd hsilenced.1 (by decide), fun other name _ hclaims => ?_⟩⟩
  cases hclaims with
  | given hdescribed hname _ => exact hnames _ (mem_sampleDescriptions.mpr hdescribed) _ hname
  | signed _ hrecord => simp at hrecord

/-- `B` calls itself by the fallback name of `A`. -/
def squattingRecord : SignedHostnameRecord where
  payload :=
    { version := 1
      networkName := "lab"
      peer := SamplePeer.text .B
      publicKey := SamplePeer.publicKey .B
      sequence := 1
      hostname := peerFallbackLabel sampleSigning (sampleOverlay .A)
      issuedAtUnixSeconds := 10 }
  signature := "B1"

/-- **A fallback name can be taken away.**  The hostname record of `B` is valid.  With it, the fallback
name of `A` is a conflict. -/
theorem fallback_name_squatted :
    effectiveMembershipAt samplePlatform .sorted [] "lab" 20 = .ok unsignedMembership ∧
    ∃ hostnameRecords zone,
      effectiveHostnameRecords sampleHostnames .sorted [squattingRecord] "lab" = .ok hostnameRecords ∧
      DnsZone.fromMembershipSourceAt sampleSigning sampleNames [] hostnameRecords 20
        (.ok unsignedMembership) sampleZoneOrder = .ok zone ∧
      Covered sampleSigning sampleNames unsignedMembership (sampleOverlay .A) ∧
      ¬ ServesFallback sampleSigning sampleNames unsignedMembership zone (sampleOverlay .A) := by
  refine ⟨by decide +kernel, ?_⟩
  obtain ⟨hostnameRecords, hrecords, hzone⟩ := exists_ok_of_any
    (p := fun hostnameRecords => (DnsZone.fromMembershipSourceAt sampleSigning sampleNames []
      hostnameRecords 20 (.ok unsignedMembership) sampleZoneOrder).toOption.any fun zone =>
        (zone.conflict (peerFallbackLabel sampleSigning (sampleOverlay .A) ++ "." ++ zone.zone)).isSome)
    (x := effectiveHostnameRecords sampleHostnames .sorted [squattingRecord] "lab") (by decide +kernel)
  obtain ⟨zone, hzone, hconflict⟩ := exists_ok_of_any hzone
  refine ⟨hostnameRecords, zone, hrecords, hzone, covered_sample, fun hserves => ?_⟩
  rw [hserves.2] at hconflict
  cases hconflict

end P2pVpn.Dns
