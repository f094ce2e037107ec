/-
# Renewing a session over a lossy link

Two parties share a session, and one of them renews it again and again: its Hello may be lost, the
Accept of the other may be lost, and between these any datagrams are sent, delivered, delayed or
lost.  Each side should always be able to open what the other sends.

The link goes through three phases: both sides use one session; the responder has installed new
keys that the initiator does not know; the initiator has switched, and the responder has not heard
it yet.  A Hello that arrives in the third phase makes the responder drop the session that the
initiator sends with.  This file has the link and its events; the phases and the result are in
`PacketPlane.Rekey`.
-/
import P2pVpn.PacketPlane.Session

namespace P2pVpn.PacketPlane

open Lib Net

/-! ## The link -/

/-- A datagram under an ideal cipher: it shows its frame to those who have its key. -/
structure Datagram where
  key : Key
  frame : Frame
deriving DecidableEq, Repr

/-- The ideal cipher. -/
def idealCipher : Runtime.DatagramCipher Datagram where
  sealFrame key frame := .ok ⟨key, frame⟩
  openFrame key datagram maxPayloadLen :=
    if datagram.key ≠ key then .error .decrypt
    else if datagram.frame.payload.length > maxPayloadLen then
      .error (.payloadTooLarge datagram.frame.payload.length maxPayloadLen)
    else .ok datagram.frame

/-- The two parties, and the endpoints they keep. -/
structure Parties (E : Type) where
  initiator : PeerId
  responder : PeerId
  initiatorEndpoint : E
  responderEndpoint : E

/-- The runtimes of both sides, the Hello that the initiator waits for an answer to, what is on its
way, and all datagrams that were sent. -/
structure Link (E : Type) where
  initiator : Runtime E
  responder : Runtime E
  pending : Option (Key × VerifiedHandshake E)
  hello : Option (VerifiedHandshake E)
  accept : Option (VerifiedHandshake E)
  datagrams : List Datagram

inductive Action (E : Type) where
  | sendHello (secret : Key) (hello : VerifiedHandshake E)
  | loseHello
  | deliverHello (secret : Key) (accept : VerifiedHandshake E)
  | loseAccept
  | deliverAccept
  | sendFromInitiator (frame : Frame)
  | sendFromResponder (frame : Frame)
  | deliverToInitiator (datagram : Datagram) (order : KeyOrder ℕ)
  | deliverToResponder (datagram : Datagram) (order : KeyOrder ℕ)

structure Event (E : Type) where
  now : ℕ
  action : Action E

variable {E : Type} [DecidableEq E] (env : KeyPlatform E) (parties : Parties E)

/-- A side sends a frame. -/
def sendDatagram (datagrams : List Datagram) (runtime : Runtime E) (peer : PeerId) (frame : Frame)
    (now : ℕ) : List Datagram :=
  match runtime.sendFrame idealCipher peer frame now with
  | some (.ok datagram) => datagrams ++ [datagram]
  | _ => datagrams

/-- A side receives a datagram of the other. -/
def receiveDatagram (runtime : Runtime E) (peer : PeerId) (datagram : Datagram) (now : ℕ)
    (order : KeyOrder ℕ) : Runtime E :=
  match runtime.sessions.get? peer with
  | none => runtime
  | some session => (runtime.openSessionDatagram idealCipher peer session datagram now order).2

namespace Link

/-- The initiator gives its Hello up. -/
def abandon (link : Link E) : Link E := { link with pending := none, hello := none, accept := none }

/-- The responder answers a Hello. -/
def answer (link : Link E) (secret : Key) (accept : VerifiedHandshake E) (now : ℕ) : Link E :=
  match link.hello with
  | none => link
  | some hello =>
      match link.responder.installSession env .responder secret accept hello now true with
      | .error _ => link.abandon
      | .ok responder => { link with responder := responder, hello := none, accept := some accept }

/-- The initiator completes its Hello. -/
def complete (link : Link E) (now : ℕ) : Link E :=
  match link.accept, link.pending with
  | some accept, some (secret, hello) =>
      match link.initiator.installSession env .initiator secret hello accept now true with
      | .error _ => link.abandon
      | .ok initiator => { link.abandon with initiator := initiator }
  | _, _ => link

/-- One step; what cannot happen changes nothing. -/
def perform (link : Link E) (event : Event E) : Link E :=
  match event.action with
  | .sendHello secret hello =>
      if link.pending.isSome then link
      else { link with pending := some (secret, hello), hello := some hello, accept := none }
  | .loseHello => if link.hello.isSome then link.abandon else link
  | .deliverHello secret accept => link.answer env secret accept event.now
  | .loseAccept => if link.accept.isSome then link.abandon else link
  | .deliverAccept => link.complete env event.now
  | .sendFromInitiator frame =>
      { link with datagrams :=
          sendDatagram link.datagrams link.initiator parties.responder frame event.now }
  | .sendFromResponder frame =>
      { link with datagrams :=
          sendDatagram link.datagrams link.responder parties.initiator frame event.now }
  | .deliverToInitiator datagram order =>
      { link with initiator :=
          receiveDatagram link.initiator parties.responder datagram event.now order }
  | .deliverToResponder datagram order =>
      { link with responder :=
          receiveDatagram link.responder parties.initiator datagram event.now order }

end Link

/-! ## What a side holds -/

/-- The keys of a session, and how long they may be used. -/
structure Tenure (E : Type) where
  keys : SessionKeys
  endpoint : E
  establishedAt : ℕ
  lifetime : ℕ
deriving DecidableEq

/-- The keys have not expired. -/
def Tenure.Live (tenure : Tenure E) (now : ℕ) : Prop := now - tenure.establishedAt < tenure.lifetime

instance (tenure : Tenure E) (now : ℕ) : Decidable (tenure.Live now) :=
  inferInstanceAs (Decidable (_ < _))

structure Retired (E : Type) where
  tenure : Tenure E
  useForTx : Bool
deriving DecidableEq

/-- What a side holds for its peer. -/
structure Side (E : Type) where
  current : Tenure E
  retiring : Option (Retired E)
deriving DecidableEq

def Session.tenure (session : Session E) (lifetime : ℕ) : Tenure E :=
  ⟨session.keys, session.endpoint, session.establishedAt, lifetime⟩

def RetiringSession.retired (retiring : RetiringSession E) : Retired E :=
  ⟨retiring.session.tenure retiring.lifetime, retiring.useForTx⟩

/-- What a runtime holds for a peer, if it has a session. -/
def Runtime.side (runtime : Runtime E) (peer : PeerId) : Option (Side E) := do
  let session ← runtime.sessions.get? peer
  let lifetime ← runtime.sessionLifetimes.get? peer
  pure ⟨session.tenure (min lifetime runtime.sessionTtl),
    (runtime.retiringSessions.get? peer).map (·.retired)⟩

namespace Side

/-- The retiring keys can be used. -/
def Usable (side : Side E) (retired : Retired E) (now : ℕ) : Prop :=
  retired.tenure.endpoint = side.current.endpoint ∧ retired.tenure.Live now

instance (side : Side E) (retired : Retired E) (now : ℕ) : Decidable (side.Usable retired now) :=
  inferInstanceAs (Decidable (_ ∧ _))

/-- The side can open what is sealed with the key. -/
def Opens (side : Side E) (key : Key) (now : ℕ) : Prop :=
  side.current.keys.opening = key ∨
    ∃ retired ∈ side.retiring, side.Usable retired now ∧ retired.tenure.keys.opening = key

/-- The key that the side seals with. -/
def sealingKey (side : Side E) (now : ℕ) : Key :=
  match side.retiring.filter fun retired => retired.useForTx ∧ side.Usable retired now with
  | none => side.current.keys.sealing
  | some retired => retired.tenure.keys.sealing

/-- A responder goes on with the retiring keys that it still sends with. -/
def Keeps (role : SessionRole) (retired : Retired E) (endpoint : E) (now : ℕ) : Prop :=
  role = .responder ∧ retired.useForTx = true ∧ retired.tenure.endpoint = endpoint ∧
    retired.tenure.Live now

instance (role : SessionRole) (retired : Retired E) (endpoint : E) (now : ℕ) :
    Decidable (Keeps role retired endpoint now) :=
  inferInstanceAs (Decidable (_ ∧ _))

/-- A session is installed. -/
def renew (side : Side E) (role : SessionRole) (keys : SessionKeys) (endpoint : E) (now ttl : ℕ) :
    Side E where
  current := ⟨keys, endpoint, now, ttl⟩
  retiring :=
    match side.retiring.filter fun retired => Keeps role retired endpoint now with
    | some retired => some retired
    | none =>
        if side.current.endpoint = endpoint ∧ side.current.Live now then
          some ⟨side.current, role = .responder⟩
        else none

lemma retiring_renew_of_kept {side : Side E} {role : SessionRole} {endpoint : E} {now : ℕ}
    {retired : Retired E} (h : side.retiring = some retired)
    (hkept : Keeps role retired endpoint now) (keys : SessionKeys) (ttl : ℕ) :
    (side.renew role keys endpoint now ttl).retiring = some retired := by
  simp only [renew, h, Option.filter_some]
  rw [if_pos (decide_eq_true hkept)]

lemma retiring_renew_of_not_kept {side : Side E} {role : SessionRole} {keys : SessionKeys}
    {endpoint : E} {now ttl : ℕ}
    (h : ∀ retired ∈ side.retiring, ¬ Keeps role retired endpoint now) :
    (side.renew role keys endpoint now ttl).retiring =
      if side.current.endpoint = endpoint ∧ side.current.Live now then
        some ⟨side.current, role = .responder⟩
      else none := by
  simp only [renew]
  cases hretiring : side.retiring with
  | none => rfl
  | some retired =>
      rw [Option.filter_some, if_neg]
      exact fun hkept => h retired hretiring (of_decide_eq_true hkept)

/-- A datagram under the current keys has arrived. -/
def confirm (side : Side E) : Side E :=
  { side with retiring := side.retiring.map fun retired => { retired with useForTx := false } }

/-- All keys of a side. -/
def keys (side : Side E) : List Key :=
  [side.current.keys.sealing, side.current.keys.opening] ++
    side.retiring.toList.flatMap fun retired =>
      [retired.tenure.keys.sealing, retired.tenure.keys.opening]

/-- The retiring keys, if any, are not used for sending. -/
def Idle (side : Side E) : Prop := ∀ retired ∈ side.retiring, retired.useForTx = false

end Side

section Views

variable {runtime : Runtime E} {peer : PeerId} {side : Side E} {now : ℕ}

omit [DecidableEq E] in
lemma Runtime.side_eq_some : runtime.side peer = some side ↔
    ∃ session lifetime, runtime.sessions.get? peer = some session ∧
      runtime.sessionLifetimes.get? peer = some lifetime ∧
      side = ⟨session.tenure (min lifetime runtime.sessionTtl),
        (runtime.retiringSessions.get? peer).map (·.retired)⟩ := by
  simp only [Runtime.side, Option.bind_eq_bind, Option.bind_eq_some_iff, Option.pure_def,
    Option.some.injEq]
  constructor
  · rintro ⟨session, hsession, lifetime, hlifetime, rfl⟩
    exact ⟨session, lifetime, hsession, hlifetime, rfl⟩
  · rintro ⟨session, lifetime, hsession, hlifetime, rfl⟩
    exact ⟨session, hsession, lifetime, hlifetime, rfl⟩

/-- The session that a runtime sends with has the key that the side seals with. -/
lemma Runtime.sendingSession_of_side (h : runtime.side peer = some side) (now : ℕ) :
    ∃ session, runtime.sendingSession peer now = some session ∧
      session.keys.sealing = side.sealingKey now := by
  obtain ⟨session, lifetime, hsession, -, rfl⟩ := Runtime.side_eq_some.mp h
  simp only [Runtime.sendingSession, hsession, Option.map_some, Option.some.injEq, exists_eq_left',
    Side.sealingKey]
  cases hretiring : runtime.retiringSessions.get? peer with
  | none => rfl
  | some retiring =>
      simp only [Option.map_some, Option.filter_some, RetiringSession.usable, Side.Usable,
        RetiringSession.retired, Session.tenure, Tenure.Live, decide_eq_true_eq]
      by_cases huse : retiring.useForTx = true ∧ retiring.session.endpoint = session.endpoint ∧
          now - retiring.session.establishedAt < retiring.lifetime
      · simp [huse]
      · simp [huse]

/-- A runtime can open what is sealed with the key. -/
def Runtime.Opens (runtime : Runtime E) (peer : PeerId) (key : Key) (now : ℕ) : Prop :=
  ∃ session ∈ runtime.sessions.get? peer,
    session.keys.opening = key ∨ ∃ retiring ∈ runtime.retiringSessions.get? peer,
      retiring.usable session.endpoint now = true ∧ retiring.session.keys.opening = key

instance (key : Key) : Decidable (runtime.Opens peer key now) :=
  inferInstanceAs (Decidable (∃ session ∈ runtime.sessions.get? peer, _))

lemma Runtime.opens_iff_side (h : runtime.side peer = some side) {key : Key} :
    runtime.Opens peer key now ↔ side.Opens key now := by
  obtain ⟨session, lifetime, hsession, -, rfl⟩ := Runtime.side_eq_some.mp h
  simp only [Runtime.Opens, hsession, Option.mem_def, Option.some.injEq, exists_eq_left', Side.Opens,
    Option.map_eq_some_iff, Side.Usable, RetiringSession.usable,
    decide_eq_true_eq]
  refine or_congr Iff.rfl ⟨?_, ?_⟩
  · rintro ⟨retiring, hretiring, husable, hkey⟩
    exact ⟨_, ⟨retiring, hretiring, rfl⟩, husable, hkey⟩
  · rintro ⟨_, ⟨retiring, hretiring, rfl⟩, husable, hkey⟩
    exact ⟨retiring, hretiring, husable, hkey⟩

lemma Runtime.map_nextRetiring (role : SessionRole) (endpoint : E) (now ttl : ℕ)
    (retiring : Option (RetiringSession E)) (session : Session E) (lifetime : ℕ) :
    (Runtime.nextRetiring role endpoint now ttl retiring (some session) (some lifetime)).map
        (·.retired) =
      (Side.renew ⟨session.tenure (min lifetime ttl), retiring.map (·.retired)⟩ role session.keys
        endpoint now ttl).retiring := by
  have hprevious : Option.map (·.retired)
        (if session.endpoint = endpoint ∧ now - session.establishedAt < min lifetime ttl then
          some (⟨session, min lifetime ttl, role = .responder⟩ : RetiringSession E) else none) =
      if (session.tenure (min lifetime ttl)).endpoint = endpoint ∧
          (session.tenure (min lifetime ttl)).Live now then
        some ⟨session.tenure (min lifetime ttl), role = .responder⟩ else none := by
    rw [apply_ite (Option.map _)]
    rfl
  cases retiring with
  | none => exact hprevious
  | some retiring =>
      have hfilter : (some retiring).filter (fun retiring =>
          role = .responder ∧ retiring.useForTx ∧ retiring.usable endpoint now) =
          if Side.Keeps role retiring.retired endpoint now then some retiring else none := by
        simp only [Option.filter_some, RetiringSession.usable, decide_eq_true_eq]
        rfl
      simp only [Runtime.nextRetiring, hfilter]
      by_cases hkeep : Side.Keeps role retiring.retired endpoint now
      · rw [Side.retiring_renew_of_kept rfl hkeep, if_pos hkeep]
        rfl
      · rw [Side.retiring_renew_of_not_kept, ← hprevious, if_neg hkeep]
        intro retired hretired
        obtain rfl := Option.some.inj hretired
        exact hkeep

variable {env} in
/-- Installing a session renews the side. -/
lemma Runtime.side_installSession {role : SessionRole} {secret : Key}
    {own remote : VerifiedHandshake E} {installed : Runtime E}
    (h : runtime.side remote.peer = some side)
    (hinstall : runtime.installSession env role secret own remote now true = .ok installed) :
    ∃ keys, SessionKeys.derive env role secret own remote = .ok keys ∧
      installed.side remote.peer =
        some (side.renew role keys remote.endpoint now runtime.sessionTtl) := by
  obtain ⟨session, lifetime, hsession, hlifetime, rfl⟩ := Runtime.side_eq_some.mp h
  obtain ⟨keys, hkeys, hinstall⟩ := bind_eq_ok.mp hinstall
  refine ⟨keys, hkeys, ?_⟩
  obtain rfl := Except.ok.inj hinstall
  rw [Runtime.side_eq_some]
  refine ⟨_, runtime.sessionTtl, HashMap.get?_insert_self .., HashMap.get?_insert_self .., ?_⟩
  have hretiring := Runtime.map_nextRetiring role remote.endpoint now runtime.sessionTtl
    (runtime.retiringSessions.get? remote.peer) session lifetime
  simp only [Side.renew, Session.tenure, min_self, Side.mk.injEq, true_and, if_true, hsession,
    hlifetime] at hretiring ⊢
  rw [← hretiring]
  congr 1
  split
  · rename_i hnone
    rw [hnone, HashMap.get?_remove, if_pos rfl]
  · rename_i retiring hsome
    rw [hsome, HashMap.get?_insert_self]

omit [DecidableEq E] in
/-- A session that takes a datagram keeps its keys. -/
lemma Session.tenure_of_acceptDatagramAt {session taken : Session E} {frame : Frame}
    {order : KeyOrder ℕ} (h : session.acceptDatagramAt frame now order = .ok taken)
    (lifetime : ℕ) : taken.tenure lifetime = session.tenure lifetime := by
  simp only [Session.acceptDatagramAt] at h
  split at h
  · obtain rfl := Except.ok.inj h
    simp only [Session.tenure]
    split
    · simp only [Session.pruneOldestReplayWindow]
      split <;> rfl
    · rfl
  · exact absurd h (by simp)
  · exact absurd h (by simp)

lemma idealCipher_openFrame {key : Key} {datagram : Datagram} {maxPayloadLen : ℕ} {frame : Frame}
    (h : idealCipher.openFrame key datagram maxPayloadLen = .ok frame) : datagram.key = key := by
  by_contra hne
  simp [idealCipher, hne] at h

/-- A received datagram leaves the keys of the side as they are; one under the current keys confirms
them. -/
lemma side_receiveDatagram (h : runtime.side peer = some side) (datagram : Datagram)
    (now : ℕ) (order : KeyOrder ℕ) :
    (receiveDatagram runtime peer datagram now order).side peer = some side ∨
      datagram.key = side.current.keys.opening ∧
        (receiveDatagram runtime peer datagram now order).side peer = some side.confirm := by
  obtain ⟨session, lifetime, hsession, hlifetime, rfl⟩ := Runtime.side_eq_some.mp h
  simp only [receiveDatagram, hsession, Runtime.openSessionDatagram]
  split
  · rename_i frame hopen
    split
    · exact Or.inl h
    · rename_i taken htaken
      refine Or.inr ⟨idealCipher_openFrame hopen, ?_⟩
      rw [Runtime.side_eq_some]
      refine ⟨taken, lifetime, HashMap.get?_insert_self .., hlifetime, ?_⟩
      rw [Session.tenure_of_acceptDatagramAt htaken, Side.confirm]
      cases hretiring : runtime.retiringSessions.get? peer <;>
        simp [hretiring, RetiringSession.retired]
  · split
    · exact Or.inl h
    · rename_i retiring hretiring
      split
      · exact Or.inl h
      · split
        · exact Or.inl h
        · rename_i taken htaken
          refine Or.inl ?_
          rw [Runtime.side_eq_some]
          refine ⟨session, lifetime, hsession, hlifetime, ?_⟩
          rw [(Option.filter_eq_some_iff.mp hretiring).1, HashMap.get?_insert_self]
          simp [RetiringSession.retired, Session.tenure_of_acceptDatagramAt htaken]

/-- What a side sends is sealed with its key. -/
lemma mem_sendDatagram (h : runtime.side peer = some side) {datagrams : List Datagram} {frame : Frame}
    {datagram : Datagram} (hdatagram : datagram ∈ sendDatagram datagrams runtime peer frame now) :
    datagram ∈ datagrams ∨ datagram.key = side.sealingKey now := by
  obtain ⟨session, hsession, hkey⟩ := Runtime.sendingSession_of_side h now
  simp only [sendDatagram, Runtime.sendFrame, hsession, Option.map_some] at hdatagram
  split at hdatagram
  · rename_i sent hsent
    obtain ⟨_, -, hsent⟩ := bind_eq_ok.mp (Option.some.inj hsent)
    obtain rfl := Except.ok.inj hsent
    simp only [List.mem_append, List.mem_singleton] at hdatagram
    exact hdatagram.imp_right (by rintro rfl; exact hkey)
  · exact Or.inl hdatagram

end Views

end P2pVpn.PacketPlane
