/-
# Packets and their flow shards

A packet for a peer.  Its flow shard is a hash of the addresses, the protocol and the ports that its
bytes name, so that all packets of one flow are in one shard.
-/
import Mathlib.Algebra.Order.Ring.Nat
import Mathlib.Data.List.Basic

namespace P2pVpn.Queue

/-! ## Flow shards -/

def flowShards : UInt64 := 16

def fnvOffset : UInt64 := 0xcbf29ce484222325

def fnvPrime : UInt64 := 0x00000100000001b3

def hashByte (hash : UInt64) (byte : UInt8) : UInt64 := (hash ^^^ byte.toUInt64) * fnvPrime

def hashBytes (hash : UInt64) (bytes : List UInt8) : UInt64 := bytes.foldl hashByte hash

variable (packet : List UInt8)

def fallbackHash : UInt64 := hashBytes fnvOffset packet

/-- The bytes of a packet in `[start, stop)`. -/
def slice (start stop : ℕ) : List UInt8 := (packet.take stop).drop start

/-- TCP or UDP, whose first four bytes are the ports. -/
def hasPorts (protocol : UInt8) : Bool := protocol = 6 || protocol = 17

def ipv4FlowHash : UInt64 :=
  if packet.length < 20 then fallbackHash packet
  else
    let protocol := packet.getD 9 0
    let ihl := (packet.getD 0 0 &&& 0x0f).toNat * 4
    let hash := hashBytes (hashBytes fnvOffset (slice packet 12 16)) (slice packet 16 20)
    let hash := hashByte hash protocol
    if hasPorts protocol && decide (ihl + 4 ≤ packet.length) then
      hashBytes hash (slice packet ihl (ihl + 4))
    else hash

def ipv6FlowHash : UInt64 :=
  if packet.length < 40 then fallbackHash packet
  else
    let nextHeader := packet.getD 6 0
    let hash := hashBytes (hashBytes fnvOffset (slice packet 8 24)) (slice packet 24 40)
    let hash := hashByte hash nextHeader
    if hasPorts nextHeader && decide (44 ≤ packet.length) then hashBytes hash (slice packet 40 44)
    else hash

/-- The IP version of a packet. -/
def version : Option UInt8 := packet.head?.map fun byte => byte >>> (4 : UInt8)

def flowShard : ℕ :=
  let hash := match version packet with
    | some 4 => ipv4FlowHash packet
    | some 6 => ipv6FlowHash packet
    | _ => fallbackHash packet
  (hash % flowShards).toNat

/-- A packet.  Its flow shard is computed from its bytes when it is made; both never change. -/
structure Packet (Peer : Type) where
  peer : Peer
  sessionId : Option ℕ
  sequence : ℕ
  bytes : List UInt8
  enqueuedAt : ℕ
  deriving DecidableEq

namespace Packet

variable {Peer : Type}

def flowShard (packet : Packet Peer) : ℕ := Queue.flowShard packet.bytes

end Packet

end P2pVpn.Queue
