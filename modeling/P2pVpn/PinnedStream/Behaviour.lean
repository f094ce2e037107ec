/-
# Pinned packet streams

A request is pinned to one connection of one peer.  The behaviour gives every request an
identifier, counts the requests of each connection, remembers who owns each request that has no
outcome yet, and queues what it has to tell the swarm: commands for the handlers of connections
and events for the application.  Connections open and close, and handlers report, independently
of each other.
-/
import P2pVpn.Lib.HashMap

namespace P2pVpn.PinnedStream

open P2pVpn.Lib

inductive Failure where
  | streamUpgrade (message : String)
  | io (message : String)
  | missingInboundRequest (requestId : ℕ)
  deriving DecidableEq

def capacityExhausted : String := "local pinned packet stream capacity exhausted"

def Failure.capacityExhausted : Failure := .io PinnedStream.capacityExhausted

def Failure.notEstablished : Failure := .io "connection is not established"

def Failure.connectionClosed : Failure := .io "connection closed"

inductive Event (Peer Conn Frame Response : Type) where
  | inboundRequest (peer : Peer) (connectionId : Conn) (requestId : ℕ) (frame : Frame)
  | outboundResponse (peer : Peer) (connectionId : Conn) (requestId : ℕ) (response : Response)
  | outboundFailure (peer : Peer) (connectionId : Conn) (requestId : ℕ) (error : Failure)
  | inboundFailure (peer : Peer) (connectionId : Conn) (error : Failure)
  | responseSent (peer : Peer) (connectionId : Conn) (requestId : ℕ)
  deriving DecidableEq

inductive HandlerCommand (Frame Response : Type) where
  | outboundRequest (requestId : ℕ) (frame : Frame)
  | inboundResponse (requestId : ℕ) (response : Response)
  deriving DecidableEq

inductive HandlerEvent (Frame Response : Type) where
  | inboundRequest (requestId : ℕ) (frame : Frame)
  | outboundResponse (requestId : ℕ) (response : Response)
  | outboundFailure (requestId : ℕ) (error : Failure)
  | inboundFailure (error : Failure)
  | responseSent (requestId : ℕ)
  deriving DecidableEq

/-- What the swarm is told; a command goes to one connection of a peer. -/
inductive ToSwarm (Peer Conn Frame Response : Type) where
  | generateEvent (event : Event Peer Conn Frame Response)
  | notifyHandler (peer : Peer) (connectionId : Conn) (command : HandlerCommand Frame Response)
  deriving DecidableEq

inductive FromSwarm (Peer Conn : Type) where
  | connectionEstablished (peer : Peer) (connectionId : Conn)
  | connectionClosed (peer : Peer) (connectionId : Conn)
  | other
  deriving DecidableEq

structure ConnectionState (Peer : Type) where
  peer : Peer
  pendingOutbound : ℕ
  deriving DecidableEq

structure ResponseChannel (Peer Conn : Type) where
  peer : Peer
  connectionId : Conn
  requestId : ℕ
  deriving DecidableEq

structure Behaviour (Peer Conn Frame Response : Type) where
  maxConcurrentStreams : ℕ
  nextOutboundRequestId : ℕ
  connections : HashMap Conn (ConnectionState Peer)
  /-- A `BTreeMap`: iterated in the order of the request identifiers. -/
  outboundOwners : HashMap ℕ (Peer × Conn)
  pendingEvents : List (ToSwarm Peer Conn Frame Response)

/-- `Semaphore::MAX_PERMITS`. -/
def maxPermits : ℕ := 2 ^ 61 - 1

variable {Peer Conn Frame Response : Type}

/-- The request whose outcome an event of a handler is. -/
def HandlerEvent.outboundRequestId? : HandlerEvent Frame Response → Option ℕ
  | .outboundResponse requestId _ => some requestId
  | .outboundFailure requestId _ => some requestId
  | _ => none

/-- The event of the application that an event of a handler becomes. -/
def HandlerEvent.toEvent (peer : Peer) (connectionId : Conn) :
    HandlerEvent Frame Response → Event Peer Conn Frame Response
  | .inboundRequest requestId frame => .inboundRequest peer connectionId requestId frame
  | .outboundResponse requestId response => .outboundResponse peer connectionId requestId response
  | .outboundFailure requestId error => .outboundFailure peer connectionId requestId error
  | .inboundFailure error => .inboundFailure peer connectionId error
  | .responseSent requestId => .responseSent peer connectionId requestId

namespace Behaviour

def new : Behaviour Peer Conn Frame Response where
  maxConcurrentStreams := 256
  nextOutboundRequestId := 1
  connections := ∅
  outboundOwners := ∅
  pendingEvents := []

variable (b : Behaviour Peer Conn Frame Response) (peer : Peer) (connectionId : Conn)

def withMaxConcurrentStreams (limit : ℕ) : Behaviour Peer Conn Frame Response :=
  { b with
    maxConcurrentStreams :=
      if limit = 0 then 1 else if maxPermits < limit then maxPermits else limit }

def pushBack (event : ToSwarm Peer Conn Frame Response) : Behaviour Peer Conn Frame Response :=
  { b with pendingEvents := b.pendingEvents ++ [event] }

def sendResponse (channel : ResponseChannel Peer Conn) (response : Response) :
    Behaviour Peer Conn Frame Response :=
  b.pushBack (.notifyHandler channel.peer channel.connectionId
    (.inboundResponse channel.requestId response))

def poll : Option (ToSwarm Peer Conn Frame Response) × Behaviour Peer Conn Frame Response :=
  (b.pendingEvents.head?, { b with pendingEvents := b.pendingEvents.tail })

/-- `wrapping_add(1).max(1)`. -/
def followingRequestId (requestId : ℕ) : ℕ := max ((requestId + 1) % 2 ^ 64) 1

variable [DecidableEq Peer] [DecidableEq Conn]

/-- The connection of a request with this pin. -/
def connection? : Option (ConnectionState Peer) :=
  (b.connections.get? connectionId).filter fun state => state.peer = peer

/-- Why a request is refused, if it is. -/
def refusal : Option Failure :=
  match b.connection? peer connectionId with
  | none => some .notEstablished
  | some state =>
      if b.maxConcurrentStreams ≤ state.pendingOutbound then some .capacityExhausted else none

/-- Change the count of a connection that is open. -/
def updatePending (f : ℕ → ℕ) : HashMap Conn (ConnectionState Peer) :=
  match b.connections.get? connectionId with
  | none => b.connections
  | some state =>
      b.connections.insert connectionId
        { state with pendingOutbound := f state.pendingOutbound }

def numbered : Behaviour Peer Conn Frame Response :=
  { b with nextOutboundRequestId := followingRequestId b.nextOutboundRequestId }

/-- Give a request to its connection. -/
def own (requestId : ℕ) : Behaviour Peer Conn Frame Response :=
  { b with
    connections := b.updatePending connectionId (· + 1)
    outboundOwners := b.outboundOwners.insert requestId (peer, connectionId) }

/-- The request gets its identifier first, whether it is refused or not. -/
def sendRequestOnConnection (frame : Frame) : ℕ × Behaviour Peer Conn Frame Response :=
  let requestId := b.nextOutboundRequestId
  match b.refusal peer connectionId with
  | some error =>
      (requestId, b.numbered.pushBack
        (.generateEvent (.outboundFailure peer connectionId requestId error)))
  | none =>
      (requestId, (b.numbered.own peer connectionId requestId).pushBack
        (.notifyHandler peer connectionId (.outboundRequest requestId frame)))

/-- A command for this connection of this peer. -/
def addressedTo (owner : Peer × Conn) : ToSwarm Peer Conn Frame Response → Bool
  | .notifyHandler peer connectionId _ => (peer, connectionId) = owner
  | .generateEvent _ => false

/-- The requests of an owner, in the order of their identifiers. -/
def ownedRequests (owner : Peer × Conn) : List ℕ :=
  ((KeyOrder.sorted.entries b.outboundOwners).filter fun entry => entry.2 = owner).map Prod.fst

def onConnectionClosed : Behaviour Peer Conn Frame Response :=
  if (b.connections.get? connectionId).map ConnectionState.peer ≠ some peer then b
  else
    { b with
      connections := b.connections.remove connectionId
      outboundOwners := b.outboundOwners.retain fun owner => owner ≠ (peer, connectionId)
      pendingEvents :=
        b.pendingEvents.filter (fun event => !addressedTo (peer, connectionId) event) ++
          (b.ownedRequests (peer, connectionId)).map fun requestId =>
            .generateEvent (.outboundFailure peer connectionId requestId .connectionClosed) }

def onSwarmEvent :
    FromSwarm Peer Conn → Behaviour Peer Conn Frame Response
  | .connectionEstablished peer connectionId =>
      { b with
        connections := b.connections.insert connectionId ⟨peer, 0⟩ }
  | .connectionClosed peer connectionId => b.onConnectionClosed peer connectionId
  | .other => b

/-- Take a request from its owner. -/
def disown (requestId : ℕ) : Behaviour Peer Conn Frame Response :=
  { b with
    outboundOwners := b.outboundOwners.remove requestId
    connections := b.updatePending connectionId (· - 1) }

/-- The outcome of a request counts only when it comes from its owner. -/
def onConnectionHandlerEvent (event : HandlerEvent Frame Response) :
    Behaviour Peer Conn Frame Response :=
  match event.outboundRequestId? with
  | none => b.pushBack (.generateEvent (event.toEvent peer connectionId))
  | some requestId =>
      if b.outboundOwners.get? requestId ≠ some (peer, connectionId) then b
      else (b.disown connectionId requestId).pushBack (.generateEvent (event.toEvent peer connectionId))

end Behaviour

end P2pVpn.PinnedStream
