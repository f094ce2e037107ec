/-
# Packets through the forwarder

A packet from the tunnel goes to the peer that owns its destination, if the node itself owns its
source.  It may wait in a queue, and it is checked again when it is put into a frame.  A frame that
arrives from an authorized peer is taken if the peer owns the source of its packet and the node itself
the destination.

However the authority of the forwarder came about, a packet that is taken comes from the one peer that
its source stands for, and what answers it goes back to this peer (`inbound_packet_isolated`).  A queued
packet is framed exactly when it would be prepared for the same peer again (`queued_packet_revalidated`).
-/
import P2pVpn.Forward.Coherence
import P2pVpn.Forward.Outbound
import P2pVpn.Forward.ReplayTable
import P2pVpn.Forward.RouteOwnership
import P2pVpn.Forward.Sanitized
import P2pVpn.Queue.Packet
import P2pVpn.Wire.Frame

namespace P2pVpn.Forward

open Lib Net Wire P2pVpn.Membership P2pVpn.Checkpoint

/-! ## The program -/

/-- What a packet is refused with. -/
inductive PacketError (T : Type) where
  | route (error : UnauthorizedSource)
  | frame (error : FrameError)
  | noRoute (destination : IpAddr)
  | noTransportPeer (peer : PeerId)
  | packetTooLarge (actual max : ℕ)
  | unauthorizedLocalSource (source : IpAddr)
  | unauthorizedLocalDestination (destination : IpAddr)
  | truncatedIpPacket (actual expected : ℕ)
  | unsupportedIpVersion (version : UInt8)
  | unauthorizedPeer (peer : T)
  | unexpectedPayload (payloadType : PayloadType)
  | payloadLengthMismatch (header : UInt16) (actual : ℕ)
  | sequence (error : SequenceError)

section Addresses

variable {T : Type} (packet : List UInt8)

def ipVersion : Except (PacketError T) UInt8 :=
  match packet.head? with
  | none => .error (.truncatedIpPacket 0 1)
  | some byte => .ok (byte >>> 4)

/-- The bytes of an address, at a place of the packet. -/
def endpointBytes (offset count : ℕ) : Except (PacketError T) (List UInt8) := do
  refuseIf (packet.length < offset + count) (.truncatedIpPacket packet.length (offset + count))
  pure (slice offset (offset + count) packet)

def ipv4Endpoint (offset : ℕ) : Except (PacketError T) IpAddr := do
  let bytes ← endpointBytes packet offset 4
  pure (.v4 (ofBytes 32 bytes))

def ipv6Endpoint (offset : ℕ) : Except (PacketError T) IpAddr := do
  let bytes ← endpointBytes packet offset 16
  pure (.v6 (ofBytes 128 bytes))

/-- The address at the place that it has in packets of the version. -/
def packetEndpoint (ipv4Offset ipv6Offset : ℕ) : Except (PacketError T) IpAddr := do
  let version ← ipVersion packet
  if version = 4 then ipv4Endpoint packet ipv4Offset
  else if version = 6 then ipv6Endpoint packet ipv6Offset
  else .error (.unsupportedIpVersion version)

def packetSource : Except (PacketError T) IpAddr := packetEndpoint packet 12 8

def packetDestination : Except (PacketError T) IpAddr := packetEndpoint packet 16 24

end Addresses

/-- The forwarder with the fields that packets need. -/
structure PacketForwarder (T : Type) extends Forwarder T where
  replay : ReplayTable
  outbound : OutboundSequence
  mtu : ℕ

variable {T K : Type}

namespace PacketForwarder

variable [DecidableEq T] (node : PacketForwarder T)

def transportPeerForOverlay (peer : PeerId) : Option T := node.authorization.peers.get? peer

def authorizeLocalSource (source : IpAddr) : Except (PacketError T) Unit :=
  (node.authorization.routes.authorizeSource node.localPeer source).mapError fun _ =>
    .unauthorizedLocalSource source

def authorizeLocalDestination (destination : IpAddr) : Except (PacketError T) Unit :=
  (node.authorization.routes.authorizeSource node.localPeer destination).mapError fun _ =>
    .unauthorizedLocalDestination destination

/-- The route to a destination. -/
def routeTo (destination : IpAddr) : Except (PacketError T) Route :=
  match node.authorization.routes.resolve destination with
  | none => .error (.noRoute destination)
  | some route => .ok route

def prepareTunPacket (bytes : List UInt8) (now : ℕ) :
    Except (PacketError T) (Queue.Packet PeerId × PacketForwarder T) := do
  refuseIf (bytes.length > node.mtu) (.packetTooLarge bytes.length node.mtu)
  let source ← packetSource bytes
  node.authorizeLocalSource source
  let destination ← packetDestination bytes
  let route ← node.routeTo destination
  refuseIf (node.authorization.peers.get? route.owner = none) (.noTransportPeer route.owner)
  let taken := node.outbound.takeOutboundSequence
  pure (⟨route.owner, some taken.1.1.toNat, taken.1.2.toNat, bytes, now⟩,
    { node with outbound := taken.2 })

def packetFrame (packet : Queue.Packet PeerId) : Except (PacketError T) Frame :=
  (Frame.packet ((packet.sessionId.map UInt32.ofNat).getD node.outbound.sessionId)
    (UInt64.ofNat packet.sequence) packet.bytes).mapError .frame

def queuedPacketFrameWithMtu (packet : Queue.Packet PeerId) (peerMtu : UInt16) :
    Except (PacketError T) Frame := do
  refuseIf (node.authorization.peers.get? packet.peer = none) (.noTransportPeer packet.peer)
  refuseIf (packet.bytes.length > min node.mtu peerMtu.toNat)
    (.packetTooLarge packet.bytes.length (min node.mtu peerMtu.toNat))
  let source ← packetSource packet.bytes
  node.authorizeLocalSource source
  let destination ← packetDestination packet.bytes
  let route ← node.routeTo destination
  refuseIf (route.owner ≠ packet.peer) (.noRoute destination)
  node.packetFrame packet

def validateInboundFrameMetadata (peer : T) (frame : Frame) (expected : PayloadType) :
    Except (PacketError T) Unit := do
  refuseIf (peer ∉ node.authorization.authorizedPeers) (.unauthorizedPeer peer)
  refuseIf (frame.header.payloadType ≠ expected) (.unexpectedPayload frame.header.payloadType)
  refuseIf (frame.header.payloadLen.toNat ≠ frame.payload.length)
    (.payloadLengthMismatch frame.header.payloadLen frame.payload.length)
  refuseIf (frame.payload.length > node.mtu) (.packetTooLarge frame.payload.length node.mtu)

variable (env : SigningPlatform T K)

def acceptInboundStreamPacket (peer : T) (frame : Frame) : Except (PacketError T) (List UInt8) := do
  node.validateInboundFrameMetadata peer frame .ipPacket
  let source ← packetSource frame.payload
  (node.authorization.routes.authorizeSource (fromLibp2p env.toPlatform peer) source).mapError .route
  let destination ← packetDestination frame.payload
  node.authorizeLocalDestination destination
  pure frame.payload

/-- `accept_sequence`, which changes the table also when it refuses the number. -/
def acceptSequence (peer : T) (frame : Frame) (now : ℕ) (order : KeyOrder SessionKey) :
    Except (PacketError T) Unit × PacketForwarder T :=
  let outcome := node.replay.acceptSequenceAt (fromLibp2p env.toPlatform peer, frame.header.sessionId)
    frame.header.sequence now order
  (outcome.1.mapError .sequence, { node with replay := outcome.2 })

/-- `accept_inbound_packet`: the checks for streams, and the sequence number. -/
def acceptInboundPacket (peer : T) (frame : Frame) (now : ℕ) (order : KeyOrder SessionKey) :
    Except (PacketError T) (List UInt8) × PacketForwarder T :=
  match node.acceptInboundStreamPacket env peer frame with
  | .error error => (.error error, node)
  | .ok payload =>
      let outcome := node.acceptSequence env peer frame now order
      (outcome.1.map fun _ => payload, outcome.2)

end PacketForwarder

/-! ## Two sample nodes -/

/-- A node with a block of addresses, and one peer with another. -/
def labConfig (own other : SamplePeer) (block otherBlock : String) : Config where
  network := ⟨"lab", own.text, none, [], none, [⟨block, 5⟩]⟩
  peers := [⟨other.text, none, [⟨otherBlock, 5⟩]⟩]

def labNode (forwarder : Forwarder SamplePeer) (sessionId : UInt32) : PacketForwarder SamplePeer :=
  { forwarder with replay := ⟨∅, 100, 4⟩, outbound := ⟨sessionId, 0⟩, mtu := 1280 }

def labA : PacketForwarder SamplePeer :=
  labNode ((Forwarder.fromConfig sampleSigning (labConfig .A .B "10.1.0.0/16" "10.2.0.0/16") 20
    sampleOrder).toOption.get (by decide +kernel)) 7

def labB : PacketForwarder SamplePeer :=
  labNode ((Forwarder.fromConfig sampleSigning (labConfig .B .A "10.2.0.0/16" "10.1.0.0/16") 20
    sampleOrder).toOption.get (by decide +kernel)) 8

/-- From `10.1.0.1` to `10.2.0.1`. -/
def labPacket : List UInt8 := [0x45] ++ List.replicate 11 0 ++ [10, 1, 0, 1, 10, 2, 0, 1]

def labFrame : Frame := ⟨⟨wireVersion, 0, .ipPacket, 7, 0, 20⟩, labPacket⟩

def labSessions : KeyOrder SessionKey :=
  .sortedBy (fun key => key.1.val * 2 ^ 32 + key.2.toNat) fun a b h => by
    have ha := a.2.toNat_lt
    have hb := b.2.toNat_lt
    dsimp only at h
    exact Prod.ext (Fin.ext (by omega)) (UInt32.toNat.inj (by omega))

lemma reachable_lab :
    Reachable sampleSigning labA.toForwarder ∧ Reachable sampleSigning labB.toForwarder :=
  ⟨.fromConfig (toOption_eq_some_iff.mp (Option.some_get _).symm),
    .fromConfig (toOption_eq_some_iff.mp (Option.some_get _).symm)⟩

/-! ## Outgoing packets -/

namespace PacketForwarder

variable {node : PacketForwarder T} {frame : Frame} {bytes : List UInt8} {now : ℕ}

lemma routeTo_eq_ok {destination : IpAddr} {route : Route} :
    node.routeTo destination = .ok route ↔ node.authorization.routes.resolve destination = some route := by
  unfold routeTo
  cases node.authorization.routes.resolve destination <;> simp

/-- The addresses of a packet from the tunnel, and where it goes. -/
def Sendable (node : PacketForwarder T) (bytes : List UInt8) (owner : PeerId) : Prop :=
  (∃ source, packetSource (T := T) bytes = .ok source ∧
    node.authorization.routes.authorizeSource node.localPeer source = .ok ()) ∧
  (∃ destination route, packetDestination (T := T) bytes = .ok destination ∧
    node.authorization.routes.resolve destination = some route ∧ route.owner = owner) ∧
  node.authorization.peers.get? owner ≠ none

lemma prepareTunPacket_eq_ok {packet : Queue.Packet PeerId} {after : PacketForwarder T} :
    node.prepareTunPacket bytes now = .ok (packet, after) ↔
      ∃ owner, bytes.length ≤ node.mtu ∧ node.Sendable bytes owner ∧
        packet = ⟨owner, some node.outbound.takeOutboundSequence.1.1.toNat,
          node.outbound.takeOutboundSequence.1.2.toNat, bytes, now⟩ ∧
        after = { node with outbound := node.outbound.takeOutboundSequence.2 } := by
  simp only [prepareTunPacket, authorizeLocalSource, bind_eq_ok, refuseIf_eq_ok, mapError_eq_ok_iff,
    routeTo_eq_ok, pure_eq_ok, Prod.mk.injEq, not_lt, gt_iff_lt, exists_const]
  constructor
  · rintro ⟨hlength, source, hsource, _, hown, destination, hdestination, route, hroute, hpeer, rfl, rfl⟩
    exact ⟨route.owner, hlength, ⟨⟨source, hsource, hown⟩,
      ⟨destination, route, hdestination, hroute, rfl⟩, hpeer⟩, rfl, rfl⟩
  · rintro ⟨_, hlength, ⟨⟨source, hsource, hown⟩, ⟨destination, route, hdestination, hroute, rfl⟩, hpeer⟩,
      rfl, rfl⟩
    exact ⟨hlength, source, hsource, (), hown, destination, hdestination, route, hroute, hpeer, rfl, rfl⟩

lemma queuedPacketFrame_eq_ok {packet : Queue.Packet PeerId} {peerMtu : UInt16} :
    node.queuedPacketFrameWithMtu packet peerMtu = .ok frame ↔
      packet.bytes.length ≤ min node.mtu peerMtu.toNat ∧ node.Sendable packet.bytes packet.peer ∧
      frame = ⟨⟨wireVersion, 0, .ipPacket, (packet.sessionId.map UInt32.ofNat).getD
        node.outbound.sessionId, UInt64.ofNat packet.sequence, UInt16.ofNat packet.bytes.length⟩,
        packet.bytes⟩ := by
  have hfits : packet.bytes.length ≤ min node.mtu peerMtu.toNat →
      ¬ packet.bytes.length > maxPayloadLen := by
    have hmax : maxPayloadLen = 65535 := rfl
    have hlt := peerMtu.toNat_lt
    omega
  simp only [queuedPacketFrameWithMtu, packetFrame, Frame.packet, Frame.new, authorizeLocalSource,
    bind_eq_ok, refuseIf_eq_ok, mapError_eq_ok_iff, routeTo_eq_ok, pure_eq_ok,
    exists_const, not_not, not_lt, gt_iff_lt]
  constructor
  · rintro ⟨hpeer, hlength, source, hsource, _, hown, destination, hdestination, route, hroute, howner, -,
      rfl⟩
    exact ⟨hlength, ⟨⟨source, hsource, hown⟩, ⟨destination, route, hdestination, hroute, howner⟩, hpeer⟩,
      rfl⟩
  · rintro ⟨hlength, ⟨⟨source, hsource, hown⟩, ⟨destination, route, hdestination, hroute, howner⟩, hpeer⟩,
      rfl⟩
    exact ⟨hpeer, hlength, source, hsource, (), hown, destination, hdestination, route, hroute, howner,
      not_lt.mp (hfits hlength), rfl⟩

/-- **Queued packets.** A packet was prepared at some time.  Whatever happened since, the forwarder
frames it exactly when it fits the path to the peer and would be prepared now for the same peer; the
frame then has the bytes of the packet and the numbers that it got when it was prepared. -/
theorem queued_packet_revalidated {earlier after : PacketForwarder T} {packet : Queue.Packet PeerId}
    (hprepared : earlier.prepareTunPacket bytes now = .ok (packet, after)) (node : PacketForwarder T)
    (peerMtu : UInt16) (now' : ℕ) (frame : Frame) :
    node.queuedPacketFrameWithMtu packet peerMtu = .ok frame ↔
      bytes.length ≤ peerMtu.toNat ∧
      (∃ again after', node.prepareTunPacket bytes now' = .ok (again, after') ∧
        again.peer = packet.peer) ∧
      frame = ⟨⟨wireVersion, 0, .ipPacket, earlier.outbound.sessionId, earlier.outbound.nextSequence,
        UInt16.ofNat bytes.length⟩, bytes⟩ := by
  obtain ⟨owner, -, -, rfl, -⟩ := prepareTunPacket_eq_ok.mp hprepared
  rw [queuedPacketFrame_eq_ok]
  simp only [le_min_iff, Option.map_some, Option.getD_some, UInt32.ofNat_toNat, UInt64.ofNat_toNat,
    OutboundSequence.takeOutboundSequence]
  constructor
  · rintro ⟨⟨hmtu, hpeerMtu⟩, hsendable, rfl⟩
    exact ⟨hpeerMtu, ⟨_, _, prepareTunPacket_eq_ok.mpr ⟨owner, hmtu, hsendable, rfl, rfl⟩, rfl⟩, rfl⟩
  · rintro ⟨hpeerMtu, ⟨again, after', hagain, hsame⟩, rfl⟩
    obtain ⟨_, hmtu, hsendable, rfl, -⟩ := prepareTunPacket_eq_ok.mp hagain
    exact ⟨⟨hmtu, hpeerMtu⟩, hsame ▸ hsendable, rfl⟩

/-- A packet of `A`, framed at once. -/
theorem lab_packet_revalidated :
    ∃ packet after, labA.prepareTunPacket labPacket 0 = .ok (packet, after) ∧
      labA.queuedPacketFrameWithMtu packet 1280 = .ok labFrame := by
  obtain ⟨⟨packet, after⟩, hprepared, -⟩ := exists_ok_of_any (p := fun _ => true)
    (x := labA.prepareTunPacket labPacket 0) (by decide +kernel)
  exact ⟨packet, after, hprepared, (queued_packet_revalidated hprepared labA 1280 0 labFrame).mpr
    ⟨by decide, ⟨packet, after, hprepared, rfl⟩, rfl⟩⟩

end PacketForwarder

/-! ## Derived authorities -/

variable {env : SigningPlatform T K} [DecidableEq T] {forwarder : Forwarder T}

/-- An authority in which every address has one owner, and every transport peer is filed under its
address. -/
structure WellDerived (env : SigningPlatform T K) (authorization : ForwardingAuthorization T) : Prop where
  conflictFree : ConflictFree authorization.routes.routes
  authorized : authorization.authorizedPeers = authorizedPeersFromTransportPeers authorization.peers
  filed : ∀ peer transportPeer, authorization.peers.get? peer = some transportPeer →
    fromLibp2p env.toPlatform transportPeer = peer

/-- **However a forwarder came about**, its authority is such. -/
lemma wellDerived_of_reachable (h : Reachable env forwarder) :
    WellDerived env forwarder.authorization := by
  have hcoherent : Holds env forwarder := coherent_of_reachable h
  cases hcheckpoint : forwarder.checkpoint with
  | none =>
    obtain ⟨now, order, -, hderived⟩ := hcoherent.ofNone hcheckpoint
    obtain ⟨membership, routes, peers, hmembership, hroutes, hpeers, hassembled⟩ :=
      fromRecords_eq_ok.mp hderived
    obtain ⟨_, hfree, -⟩ := sorted_of_compileRoutes hroutes
    rw [(Prod.mk.inj hassembled).1]
    exact ⟨hfree, rfl, fun _ _ => fromLibp2p_of_transportPeers
      (addressed_effectiveMembershipAt hmembership) hpeers⟩
  | some projection =>
    obtain ⟨now, order, -, -, -, -, hderived⟩ := hcoherent.ofSome hcheckpoint
    obtain ⟨localPeer, routes, peers, -, hroutes, hpeers, hassembled⟩ := fromCheckpoint_eq_ok.mp hderived
    have haddressed := addressed_membershipAt (hcoherent.addressed hcheckpoint) forwarder.localPeer now
    rw [hassembled]
    refine ⟨?_, rfl, fun _ _ => fromLibp2p_of_transportPeers haddressed hpeers⟩
    -- a node that is not a member has no routes
    split at hroutes
    · obtain ⟨_, hfree, -⟩ := sorted_of_compileRoutes hroutes
      exact hfree
    · obtain rfl := Except.ok.inj hroutes
      exact fun a ha => by cases ha

/-! ## Incoming packets -/

namespace PacketForwarder

variable {node : PacketForwarder T} {peer : T} {frame : Frame} {payload : List UInt8} {now : ℕ}

lemma acceptInboundStreamPacket_eq_ok :
    node.acceptInboundStreamPacket env peer frame = .ok payload ↔
      (peer ∈ node.authorization.authorizedPeers ∧ frame.header.payloadType = .ipPacket ∧
        frame.header.payloadLen.toNat = frame.payload.length ∧ frame.payload.length ≤ node.mtu) ∧
      (∃ source, packetSource (T := T) frame.payload = .ok source ∧
        node.authorization.routes.authorizeSource (fromLibp2p env.toPlatform peer) source = .ok ()) ∧
      (∃ destination, packetDestination (T := T) frame.payload = .ok destination ∧
        node.authorization.routes.authorizeSource node.localPeer destination = .ok ()) ∧
      payload = frame.payload := by
  simp only [acceptInboundStreamPacket, validateInboundFrameMetadata, authorizeLocalDestination,
    bind_eq_ok, refuseIf_eq_ok, mapError_eq_ok_iff, pure_eq_ok, exists_const, not_not, not_lt, gt_iff_lt]
  constructor
  · rintro ⟨hmetadata, source, hsource, _, howner, destination, hdestination, _, hlocal, rfl⟩
    exact ⟨hmetadata, ⟨source, hsource, howner⟩, ⟨destination, hdestination, hlocal⟩, rfl⟩
  · rintro ⟨hmetadata, ⟨source, hsource, howner⟩, ⟨destination, hdestination, hlocal⟩, rfl⟩
    exact ⟨hmetadata, source, hsource, (), howner, destination, hdestination, (), hlocal, rfl⟩

/-- The transport peer of an authorized sender is the one that its address stands for. -/
lemma transportPeer_of_authorized (h : WellDerived env node.authorization)
    (hpeer : peer ∈ node.authorization.authorizedPeers) :
    node.transportPeerForOverlay (fromLibp2p env.toPlatform peer) = some peer := by
  rw [h.authorized] at hpeer
  obtain ⟨key, hkey⟩ := mem_authorizedPeersFromTransportPeers.mp hpeer
  rw [transportPeerForOverlay, h.filed key peer hkey, hkey]

/-- An address that a peer may use is no other peer's. -/
lemma owner_unique (h : WellDerived env node.authorization) {owner : PeerId} {address : IpAddr}
    (howner : node.authorization.routes.authorizeSource owner address = .ok ()) (other : PeerId) :
    node.authorization.routes.authorizeSource other address = .ok () ↔ other = owner := by
  rw [authorizeSource_eq_ok, ← resolve_owner_iff h.conflictFree] at howner ⊢
  obtain ⟨route, hroute, rfl⟩ := howner
  simp [hroute, eq_comm]

lemma acceptInboundPacket_eq_ok {order : KeyOrder SessionKey} :
    (node.acceptInboundPacket env peer frame now order).1 = .ok payload ↔
      node.acceptInboundStreamPacket env peer frame = .ok payload ∧
      (node.replay.acceptSequenceAt (fromLibp2p env.toPlatform peer, frame.header.sessionId)
        frame.header.sequence now order).1 = .ok () := by
  unfold acceptInboundPacket acceptSequence
  cases node.acceptInboundStreamPacket env peer frame with
  | error error => simp
  | ok taken =>
    dsimp only
    cases (node.replay.acceptSequenceAt (fromLibp2p env.toPlatform peer, frame.header.sessionId)
      frame.header.sequence now order).1 <;> simp [Except.mapError, Except.map]

/-- **Isolation.** However the forwarder came about, a packet that it takes from a peer arrived
unchanged, and the forwarder sends to this peer under the address of the sender.  The sender and no
other peer may use the source of the packet, and the node itself and no other peer the destination; no
packet of another peer with this source is taken.  What answers the packet, if it is not too large, is
prepared for the sender. -/
theorem inbound_packet_isolated (hreach : Reachable env node.toForwarder) {sender : T}
    {order : KeyOrder SessionKey}
    (h : (node.acceptInboundPacket env sender frame now order).1 = .ok payload) :
    payload = frame.payload ∧
    node.transportPeerForOverlay (fromLibp2p env.toPlatform sender) = some sender ∧
    ∃ source destination,
      packetSource (T := T) payload = .ok source ∧ packetDestination (T := T) payload = .ok destination ∧
      (∀ other, node.authorization.routes.authorizeSource other source = .ok () ↔
        other = fromLibp2p env.toPlatform sender) ∧
      (∀ other, node.authorization.routes.authorizeSource other destination = .ok () ↔
        other = node.localPeer) ∧
      (∀ other frame' now' order' payload',
        (node.acceptInboundPacket env other frame' now' order').1 = .ok payload' →
        packetSource (T := T) payload' = .ok source → other = sender) ∧
      ∀ reply now', packetSource (T := T) reply = .ok destination →
        packetDestination (T := T) reply = .ok source → reply.length ≤ node.mtu →
        ∃ packet after, node.prepareTunPacket reply now' = .ok (packet, after) ∧
          packet.peer = fromLibp2p env.toPlatform sender ∧ packet.bytes = reply := by
  have hderived := wellDerived_of_reachable hreach
  obtain ⟨⟨hsender, -⟩, ⟨source, hsource, howner⟩, ⟨destination, hdestination, hlocal⟩, rfl⟩ :=
    acceptInboundStreamPacket_eq_ok.mp (acceptInboundPacket_eq_ok.mp h).1
  have htransport := transportPeer_of_authorized hderived hsender
  refine ⟨rfl, htransport, source, destination, hsource, hdestination, owner_unique hderived howner,
    owner_unique hderived hlocal, ?_, ?_⟩
  · intro other frame' now' order' payload' hother hsame
    obtain ⟨⟨hauthorized, -⟩, ⟨source', hsource', howner'⟩, -, rfl⟩ :=
      acceptInboundStreamPacket_eq_ok.mp (acceptInboundPacket_eq_ok.mp hother).1
    obtain rfl := Except.ok.inj (hsource'.symm.trans hsame)
    -- both senders own the source, so they have one address
    have haddress := (owner_unique hderived howner _).mp howner'
    have hfound := transportPeer_of_authorized hderived hauthorized
    rw [haddress, htransport] at hfound
    exact (Option.some.inj hfound).symm
  · intro reply now' hfrom hto hlength
    obtain ⟨route, hroute, hroutes⟩ := (resolve_owner_iff hderived.conflictFree).mpr
      (authorizeSource_eq_ok.mp howner)
    refine ⟨_, _, prepareTunPacket_eq_ok.mpr ⟨_, hlength, ⟨⟨destination, hfrom, hlocal⟩,
      ⟨source, route, hto, hroute, hroutes⟩, ?_⟩, rfl, rfl⟩, rfl, rfl⟩
    rw [← transportPeerForOverlay, htransport]
    exact Option.some_ne_none sender

/-- `B` takes a packet of `A`. -/
theorem lab_packet_isolated :
    (labB.acceptInboundPacket sampleSigning .A labFrame 3 labSessions).1 = .ok labPacket ∧
      labB.transportPeerForOverlay (fromLibp2p sampleSigning.toPlatform .A) = some .A := by
  have haccepted : (labB.acceptInboundPacket sampleSigning .A labFrame 3 labSessions).1
      = .ok labPacket := toOption_eq_some_iff.mp (by decide +kernel)
  exact ⟨haccepted, (inbound_packet_isolated reachable_lab.2 haccepted).2.1⟩

end PacketForwarder

end P2pVpn.Forward
