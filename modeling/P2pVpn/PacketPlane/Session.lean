/-
# Sessions of the packet plane

Two peers agree on the keys of a session by a Hello of the initiator and an Accept of the responder.
A node keeps a session for each peer, and beside it the session that it replaced, as long as that is
young enough: the responder goes on sending with the retiring session until a datagram under the new
keys has reached it.  This file models the key agreement, the replay windows, and how sessions are
installed, chosen for sending and used for opening.

X25519, HKDF and SHA-256 are gathered in `KeyPlatform`.  The cipher of the datagrams is a parameter
(`DatagramCipher`).  Instants and durations are numbers; `now - since` is the saturating difference.
-/
import P2pVpn.Lib.Bytes
import P2pVpn.Lib.Except
import P2pVpn.Lib.HashMap
import P2pVpn.Net.Route

namespace P2pVpn.PacketPlane

open Lib Net

/-- A key, a secret or a digest of 32 bytes. -/
abbrev Key : Type := Fin (2 ^ 256)

/-! ## Keys -/

inductive HandshakeKind where
  | hello
  | accept
deriving DecidableEq, Repr

def HandshakeKind.byte : HandshakeKind → UInt8
  | hello => 1
  | accept => 2

/-- `VerifiedPacketPlaneHandshake`; `E` is the type of socket addresses. -/
structure VerifiedHandshake (E : Type) where
  kind : HandshakeKind
  peer : PeerId
  ephemeralPublicKey : Key
  sessionId : ℕ
  nonce : ℕ
  mtu : ℕ
  endpoint : E
deriving DecidableEq, Repr

inductive SessionRole where
  | initiator
  | responder
deriving DecidableEq, Repr

/-- `PacketPlaneSessionKeys`: what a side seals and opens with. -/
structure SessionKeys where
  sealing : Key
  opening : Key
deriving DecidableEq, Repr

inductive SessionError where
  | localHandshakeKind (role : SessionRole) (kind : HandshakeKind)
  | remoteHandshakeKind (role : SessionRole) (kind : HandshakeKind)
  | invalidSharedSecret
  | keyDerivation
deriving DecidableEq, Repr

/-- The third-party code of the key agreement. -/
structure KeyPlatform (E : Type) where
  /-- The public key of an X25519 secret. -/
  publicKey : Key → Key
  /-- The shared secret of a secret and a public key. -/
  diffieHellman : Key → Key → Key
  /-- Both sides compute one shared secret. -/
  diffieHellman_comm : ∀ a b, diffieHellman a (publicKey b) = diffieHellman b (publicKey a)
  sha256 : List UInt8 → Key
  /-- HKDF with a salt and a secret, expanded with some information to 32 bytes. -/
  hkdfExpand : Key → Key → List UInt8 → Option Key
  /-- The text of a socket address. -/
  endpointText : E → String

variable {E : Type} (env : KeyPlatform E)

def validateSessionKinds (role : SessionRole) (own remote : HandshakeKind) :
    Except SessionError Unit := do
  let expected : HandshakeKind × HandshakeKind :=
    match role with
    | .initiator => (.hello, .accept)
    | .responder => (.accept, .hello)
  refuseIf (own ≠ expected.1) (.localHandshakeKind role own)
  refuseIf (remote ≠ expected.2) (.remoteHandshakeKind role remote)

def sharedSecret (secret remotePublicKey : Key) : Except SessionError Key := do
  let shared := env.diffieHellman secret remotePublicKey
  refuseIf (shared = 0) .invalidSharedSecret
  pure shared

/-- The bytes of a handshake that are hashed. -/
def handshakeBytes (handshake : VerifiedHandshake E) : List UInt8 :=
  [handshake.kind.byte] ++ toBeBytes 32 handshake.peer.val ++
    toBeBytes 32 handshake.ephemeralPublicKey.val ++ toBeBytes 4 handshake.sessionId ++
    toBeBytes 8 handshake.nonce ++ toBeBytes 2 handshake.mtu ++
    (env.endpointText handshake.endpoint).toUTF8.toList

def transcriptHash (hello accept : VerifiedHandshake E) : Key :=
  env.sha256 ("p2p-vpn packet-plane session keys v1".toUTF8.toList ++ handshakeBytes env hello ++
    handshakeBytes env accept)

def deriveDirectionalKey (shared : Key) (hello accept : VerifiedHandshake E) (direction : String) :
    Except SessionError Key :=
  match env.hkdfExpand (transcriptHash env hello accept) shared direction.toUTF8.toList with
  | none => .error .keyDerivation
  | some key => .ok key

/-- `PacketPlaneSessionKeys::derive`. -/
def SessionKeys.derive (role : SessionRole) (secret : Key) (own remote : VerifiedHandshake E) :
    Except SessionError SessionKeys := do
  validateSessionKinds role own.kind remote.kind
  let shared ← sharedSecret env secret remote.ephemeralPublicKey
  let transcript : VerifiedHandshake E × VerifiedHandshake E :=
    match role with
    | .initiator => (own, remote)
    | .responder => (remote, own)
  let helloToAccept ← deriveDirectionalKey env shared transcript.1 transcript.2 "hello-to-accept"
  let acceptToHello ← deriveDirectionalKey env shared transcript.1 transcript.2 "accept-to-hello"
  match role with
  | .initiator => pure ⟨helloToAccept, acceptToHello⟩
  | .responder => pure ⟨acceptToHello, helloToAccept⟩

/-- What one side seals the other opens. -/
def SessionKeys.Fit (a b : SessionKeys) : Prop := a.sealing = b.opening ∧ a.opening = b.sealing

variable {env} in
/-- The two sides of a handshake derive keys that fit. -/
lemma SessionKeys.fit_of_derive {secret remoteSecret : Key} {hello accept : VerifiedHandshake E}
    {own remote : SessionKeys} (hhello : hello.ephemeralPublicKey = env.publicKey secret)
    (haccept : accept.ephemeralPublicKey = env.publicKey remoteSecret)
    (hown : SessionKeys.derive env .initiator secret hello accept = .ok own)
    (hremote : SessionKeys.derive env .responder remoteSecret accept hello = .ok remote) :
    own.Fit remote := by
  simp only [SessionKeys.derive, bind_eq_ok, sharedSecret, haccept, hhello,
    env.diffieHellman_comm remoteSecret secret, refuseIf_eq_ok] at hown hremote
  obtain ⟨_, _, _, ⟨_, _, hshared⟩, a, ha, b, hb, hown⟩ := hown
  obtain ⟨_, _, _, ⟨_, _, hshared'⟩, a', ha', b', hb', hremote⟩ := hremote
  obtain rfl := Except.ok.inj hshared
  obtain rfl := Except.ok.inj hshared'
  obtain rfl := Except.ok.inj (ha.symm.trans ha')
  obtain rfl := Except.ok.inj (hb.symm.trans hb')
  obtain rfl := Except.ok.inj hown
  obtain rfl := Except.ok.inj hremote
  exact ⟨rfl, rfl⟩

/-! ## Replay windows -/

/-- The part of a frame that the packet plane looks at. -/
structure Frame where
  sessionId : ℕ
  sequence : ℕ
  payload : List UInt8
deriving DecidableEq, Repr

inductive DatagramError where
  | decrypt
  | payloadTooLarge (actual max : ℕ)
  | replayedDatagram (sessionId sequence : ℕ)
  | datagramOutsideReplayWindow (sessionId sequence : ℕ)
deriving DecidableEq, Repr

def replayWindowBits : ℕ := 64

structure ReplayWindow where
  highest : Option ℕ
  seen : BitVec 64
  updatedAt : ℕ
deriving DecidableEq, Repr

inductive ReplayAcceptError where
  | duplicate
  | tooOld
deriving DecidableEq, Repr

namespace ReplayWindow

def new (now : ℕ) : ReplayWindow := ⟨none, 0, now⟩

def accept (window : ReplayWindow) (sequence now : ℕ) : Except ReplayAcceptError ReplayWindow :=
  match window.highest with
  | none => .ok ⟨some sequence, 1, now⟩
  | some highest =>
      if sequence > highest then
        .ok ⟨some sequence, if sequence - highest ≥ replayWindowBits then 1
          else (window.seen <<< (sequence - highest)) ||| 1, now⟩
      else if highest - sequence ≥ replayWindowBits then .error .tooOld
      else if window.seen &&& (1 <<< (highest - sequence)) ≠ 0 then .error .duplicate
      else .ok ⟨some highest, window.seen ||| (1 <<< (highest - sequence)), now⟩

end ReplayWindow

/-! ## Sessions -/

structure Session (E : Type) where
  peer : PeerId
  endpoint : E
  mtu : ℕ
  role : SessionRole
  localSessionId : ℕ
  remoteSessionId : ℕ
  establishedAt : ℕ
  keys : SessionKeys
  replayWindows : HashMap ℕ ReplayWindow
  maxReplayWindows : ℕ

namespace Session

/-- `prune_oldest_replay_window`: the window whose last update is the longest ago, the first of them. -/
def pruneOldestReplayWindow (session : Session E) (order : KeyOrder ℕ) : Session E :=
  match (order.entries session.replayWindows).foldl (fun oldest entry =>
    match oldest with
    | none => some entry
    | some best => if entry.2.updatedAt < best.2.updatedAt then some entry else some best) none with
  | none => session
  | some oldest => { session with replayWindows := session.replayWindows.remove oldest.1 }

/-- `accept_datagram_at`.  A window is only pruned for a new one, which takes the datagram, so a
refusal leaves the session as it was. -/
def acceptDatagramAt (session : Session E) (frame : Frame) (now : ℕ) (order : KeyOrder ℕ) :
    Except DatagramError (Session E) :=
  let session :=
    if session.replayWindows.keys.card ≥ session.maxReplayWindows ∧
        session.replayWindows.get? frame.sessionId = none then
      session.pruneOldestReplayWindow order
    else session
  match ((session.replayWindows.get? frame.sessionId).getD (.new now)).accept frame.sequence now with
  | .ok window => .ok
      { session with replayWindows := session.replayWindows.insert frame.sessionId window }
  | .error .duplicate => .error (.replayedDatagram frame.sessionId frame.sequence)
  | .error .tooOld => .error (.datagramOutsideReplayWindow frame.sessionId frame.sequence)

end Session

/-- A session that was replaced. -/
structure RetiringSession (E : Type) where
  session : Session E
  lifetime : ℕ
  useForTx : Bool

/-- The session may still be used beside a session with the given endpoint. -/
def RetiringSession.usable [DecidableEq E] (retiring : RetiringSession E) (endpoint : E) (now : ℕ) :
    Bool :=
  retiring.session.endpoint = endpoint ∧ now - retiring.session.establishedAt < retiring.lifetime

/-- `PacketPlaneRuntime`, without its sockets. -/
structure Runtime (E : Type) where
  sessions : HashMap PeerId (Session E)
  sessionEndpoints : HashMap E (List PeerId)
  maxReplayWindowsPerSession : ℕ
  sessionTtl : ℕ
  sessionLifetimes : HashMap PeerId ℕ
  retiringSessions : HashMap PeerId (RetiringSession E)

variable [DecidableEq E]

namespace Runtime

def insertEndpointMapping (endpoints : HashMap E (List PeerId)) (endpoint : E) (peer : PeerId) :
    HashMap E (List PeerId) :=
  let peers := (endpoints.get? endpoint).getD []
  endpoints.insert endpoint (if peer ∈ peers then peers else peers ++ [peer])

def removeEndpointMapping (endpoints : HashMap E (List PeerId)) (peer : PeerId) (endpoint : E) :
    HashMap E (List PeerId) :=
  match endpoints.get? endpoint with
  | none => endpoints
  | some peers =>
      if peers.filter (· ≠ peer) = [] then endpoints.remove endpoint
      else endpoints.insert endpoint (peers.filter (· ≠ peer))

/-- The session that retires when another is installed.  A responder whose retiring session is still
used for sending keeps that one: a lost Accept can cause another renewal before the initiator knows
the new keys. -/
def nextRetiring (role : SessionRole) (endpoint : E) (now ttl : ℕ)
    (retiring : Option (RetiringSession E)) (previous : Option (Session E)) (lifetime : Option ℕ) :
    Option (RetiringSession E) :=
  match retiring.filter fun retiring =>
    role = .responder ∧ retiring.useForTx ∧ retiring.usable endpoint now with
  | some retiring => some retiring
  | none =>
      match previous, lifetime with
      | some session, some lifetime =>
          if session.endpoint = endpoint ∧ now - session.establishedAt < min lifetime ttl then
            some ⟨session, min lifetime ttl, role = .responder⟩
          else none
      | _, _ => none

/-- `install_session`. -/
def installSession (runtime : Runtime E) (role : SessionRole) (secret : Key)
    (own remote : VerifiedHandshake E) (now : ℕ) (overlapping : Bool) :
    Except SessionError (Runtime E) := do
  let keys ← SessionKeys.derive env role secret own remote
  let session : Session E :=
    { peer := remote.peer
      endpoint := remote.endpoint
      mtu := min own.mtu remote.mtu
      role := role
      localSessionId := own.sessionId
      remoteSessionId := remote.sessionId
      establishedAt := now
      keys := keys
      replayWindows := ∅
      maxReplayWindows := runtime.maxReplayWindowsPerSession }
  let previous := runtime.sessions.get? remote.peer
  let endpoints :=
    match previous with
    | none => runtime.sessionEndpoints
    | some previous => removeEndpointMapping runtime.sessionEndpoints remote.peer previous.endpoint
  let retiring :=
    if overlapping then
      nextRetiring role remote.endpoint now runtime.sessionTtl
        (runtime.retiringSessions.get? remote.peer) previous
        (runtime.sessionLifetimes.get? remote.peer)
    else none
  pure
    { runtime with
      sessions := runtime.sessions.insert remote.peer session
      sessionEndpoints := insertEndpointMapping endpoints remote.endpoint remote.peer
      sessionLifetimes := runtime.sessionLifetimes.insert remote.peer runtime.sessionTtl
      retiringSessions :=
        match retiring with
        | none => runtime.retiringSessions.remove remote.peer
        | some retiring => runtime.retiringSessions.insert remote.peer retiring }

/-- The session that `send_frame_to_peer_from` seals a frame with. -/
def sendingSession (runtime : Runtime E) (peer : PeerId) (now : ℕ) : Option (Session E) :=
  (runtime.sessions.get? peer).map fun session =>
    match (runtime.retiringSessions.get? peer).filter fun retiring =>
      retiring.useForTx ∧ retiring.usable session.endpoint now with
    | none => session
    | some retiring => retiring.session

/-- What opens the datagrams of type `D`: a key, and a limit for the payload. -/
structure DatagramCipher (D : Type) where
  sealFrame : Key → Frame → Except DatagramError D
  openFrame : Key → D → ℕ → Except DatagramError Frame

variable {D : Type} (cipher : DatagramCipher D)

/-- The datagram that `send_frame_to_peer_from` sends, if there is a session. -/
def sendFrame (runtime : Runtime E) (peer : PeerId) (frame : Frame) (now : ℕ) :
    Option (Except DatagramError D) :=
  (runtime.sendingSession peer now).map fun session => do
    refuseIf (frame.payload.length > session.mtu) (.payloadTooLarge frame.payload.length session.mtu)
    cipher.sealFrame session.keys.sealing frame

/-- `open_session_datagram`, for a peer with a session: the session is tried first, and then the
retiring one. -/
def openSessionDatagram (runtime : Runtime E) (peer : PeerId) (session : Session E) (datagram : D)
    (now : ℕ) (order : KeyOrder ℕ) : Except DatagramError Frame × Runtime E :=
  match cipher.openFrame session.keys.opening datagram session.mtu with
  | .ok frame =>
      match session.acceptDatagramAt frame now order with
      | .error error => (.error error, runtime)
      | .ok session =>
          (.ok frame,
            { runtime with
              sessions := runtime.sessions.insert peer session
              retiringSessions :=
                match runtime.retiringSessions.get? peer with
                | none => runtime.retiringSessions
                | some retiring =>
                    runtime.retiringSessions.insert peer { retiring with useForTx := false } })
  | .error error =>
      match (runtime.retiringSessions.get? peer).filter (·.usable session.endpoint now) with
      | none => (.error error, runtime)
      | some retiring =>
          match cipher.openFrame retiring.session.keys.opening datagram retiring.session.mtu with
          | .error error => (.error error, runtime)
          | .ok frame =>
              match retiring.session.acceptDatagramAt frame now order with
              | .error error => (.error error, runtime)
              | .ok session =>
                  (.ok frame,
                    { runtime with
                      retiringSessions := runtime.retiringSessions.insert peer
                        { retiring with session := session } })

end Runtime

end P2pVpn.PacketPlane
