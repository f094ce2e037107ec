/-
# Which renewals keep both sides hearing each other

The link of `Renewal` goes through three phases.  `Settled`: both sides use one pair of keys.
`Offered`: the responder has installed keys that the initiator does not know, and still sends with
those that it knows.  `Switched`: the initiator has the new keys too, but the responder has not heard
it use them.

A Hello leads from the first two phases to the second, an Accept from the second to the third, and a
datagram under the new keys from the third to the first.  A Hello that reaches the responder in the
third phase makes it drop the keys that the initiator sends with (`Linked.not_heard`).  Both sides
hear each other throughout exactly when no Hello does (`renewal_heard_iff`).
-/
import P2pVpn.PacketPlane.Renewal

namespace P2pVpn.PacketPlane

open Lib Net

variable {E : Type} [DecidableEq E] (env : KeyPlatform E) (parties : Parties E)

/-! ## Runs -/

/-- No key that is used for sending has expired at either side. -/
structure Side.LiveWith (a b : Side E) (now : ℕ) : Prop where
  initiator : a.current.Live now
  responder : b.current.Live now
  retiring : ∀ sent ∈ b.retiring, sent.useForTx = true → sent.tenure.Live now
  known : ∀ sent ∈ b.retiring, sent.useForTx = true → ∀ known ∈ a.retiring,
    known.tenure.keys.opening = sent.tenure.keys.sealing → known.tenure.Live now

/-- The handshake is one of the peer at its endpoint, with the key of the secret. -/
structure VerifiedHandshake.From (handshake : VerifiedHandshake E) (peer : PeerId) (endpoint : E)
    (secret : Key) : Prop where
  peer : handshake.peer = peer
  endpoint : handshake.endpoint = endpoint
  ephemeralPublicKey : handshake.ephemeralPublicKey = env.publicKey secret

namespace Link

variable (link : Link E)

def Live (now : ℕ) : Prop :=
  ∀ a ∈ link.initiator.side parties.responder, ∀ b ∈ link.responder.side parties.initiator,
    a.LiveWith b now

/-- Each side can open what the other sends. -/
def Heard (now : ℕ) : Prop :=
  (∃ session ∈ link.initiator.sendingSession parties.responder now,
    link.responder.Opens parties.initiator session.keys.sealing now) ∧
  ∃ session ∈ link.responder.sendingSession parties.initiator now,
    link.initiator.Opens parties.responder session.keys.sealing now

/-- The keys of all datagrams and sessions. -/
def usedKeys : List Key :=
  link.datagrams.map (·.key) ++
    (link.initiator.side parties.responder).toList.flatMap Side.keys ++
    (link.responder.side parties.initiator).toList.flatMap Side.keys

/-- The keys that the responder installs for the Hello on its way. -/
def answerKeys (secret : Key) (accept : VerifiedHandshake E) : Option SessionKeys := do
  let hello ← link.hello
  (SessionKeys.derive env .responder secret accept hello).toOption

/-- Handshakes come from the two parties, the keys of a new session are new, and only datagrams that
were sent arrive. -/
def Admissible (event : Event E) : Prop :=
  match event.action with
  | .sendHello secret hello => hello.From env parties.initiator parties.initiatorEndpoint secret
  | .deliverHello secret accept =>
      accept.From env parties.responder parties.responderEndpoint secret ∧
        ∀ keys ∈ link.answerKeys env secret accept, keys.opening ∉ link.usedKeys parties
  | .deliverToInitiator datagram _ => datagram ∈ link.datagrams
  | .deliverToResponder datagram _ => datagram ∈ link.datagrams
  | _ => True

/-- The initiator sends with keys that the responder still waits to see used. -/
def Unconfirmed : Prop :=
  ∃ a ∈ link.initiator.side parties.responder, ∃ b ∈ link.responder.side parties.initiator,
    (∃ sent ∈ b.retiring, sent.useForTx = true) ∧ a.current.keys.sealing = b.current.keys.opening

/-- A Hello that the responder installs keys for does not find it waiting. -/
def Confirmed (event : Event E) : Prop :=
  match event.action with
  | .deliverHello secret accept =>
      (link.answerKeys env secret accept).isSome → ¬ link.Unconfirmed parties
  | _ => True

/-- The states of a run. -/
def states : Link E → List (Event E) → List (Link E)
  | link, [] => [link]
  | link, event :: events => link :: states (link.perform env parties event) events

/-- Every event of a run meets the condition in the state that it meets. -/
def Throughout (condition : Link E → Event E → Prop) : Link E → List (Event E) → Prop
  | _, [] => True
  | link, event :: events =>
      condition link event ∧ Throughout condition (link.perform env parties event) events

/-- Both sides hold one session, and nothing else. -/
structure Start (link : Link E) (a b : Side E) : Prop where
  initiator : link.initiator.side parties.responder = some a
  responder : link.responder.side parties.initiator = some b
  fit : a.current.keys.Fit b.current.keys
  initiatorEndpoint : a.current.endpoint = parties.responderEndpoint
  responderEndpoint : b.current.endpoint = parties.initiatorEndpoint
  initiatorRetiring : a.retiring = none
  responderRetiring : b.retiring = none
  pending : link.pending = none
  hello : link.hello = none
  accept : link.accept = none

end Link

/-! ## Phases -/

section Phases

variable (datagrams : List Datagram) (a b : Side E)

/-- Both sides use one pair of keys. -/
structure Settled : Prop where
  fit : a.current.keys.Fit b.current.keys
  idle : b.Idle

/-- The responder has keys that nothing was sealed with, and sends with those of the initiator. -/
structure Offered (sent : Retired E) : Prop where
  retiring : b.retiring = some sent
  useForTx : sent.useForTx = true
  fit : a.current.keys.Fit sent.tenure.keys
  opening : sent.tenure.keys.opening ≠ b.current.keys.opening
  sealing : sent.tenure.keys.sealing ≠ b.current.keys.opening
  unused : ∀ datagram ∈ datagrams, datagram.key ≠ b.current.keys.opening

/-- The initiator has switched to the new keys, and the responder still sends with the old ones. -/
structure Switched (sent known : Retired E) : Prop where
  retiring : b.retiring = some sent
  useForTx : sent.useForTx = true
  fit : a.current.keys.Fit b.current.keys
  opening : sent.tenure.keys.opening ≠ b.current.keys.opening
  initiatorRetiring : a.retiring = some known
  knownFit : known.tenure.keys.Fit sent.tenure.keys

def Phase : Prop :=
  Settled a b ∨ (∃ sent, Offered datagrams a b sent) ∨ ∃ sent known, Switched a b sent known

/-- The endpoint of all keys of a side. -/
structure Side.At (side : Side E) (endpoint : E) : Prop where
  current : side.current.endpoint = endpoint
  retiring : ∀ retired ∈ side.retiring, retired.tenure.endpoint = endpoint

end Phases

/-- What holds of a link in every run without a Hello too early. -/
structure Linked (link : Link E) (a b : Side E) : Prop where
  initiator : link.initiator.side parties.responder = some a
  responder : link.responder.side parties.initiator = some b
  initiatorAt : a.At parties.responderEndpoint
  responderAt : b.At parties.initiatorEndpoint
  idle : a.Idle
  hello : ∀ hello ∈ link.hello, ∃ secret, link.pending = some (secret, hello) ∧
    hello.From env parties.initiator parties.initiatorEndpoint secret
  accept : ∀ accept ∈ link.accept, ∃ secret hello remoteSecret sent,
    link.pending = some (secret, hello) ∧
    hello.From env parties.initiator parties.initiatorEndpoint secret ∧
    accept.From env parties.responder parties.responderEndpoint remoteSecret ∧
    SessionKeys.derive env .responder remoteSecret accept hello = .ok b.current.keys ∧
    Offered link.datagrams a b sent
  phase : Phase link.datagrams a b

section Steps

variable {env} {parties} {link : Link E} {a b : Side E} {now : ℕ}

/-! ### Hearing each other -/

variable {side : Side E} {endpoint : E} {keys : SessionKeys} {secret : Key}
  {accept : VerifiedHandshake E}

lemma Side.sealingKey_of_idle (h : side.Idle) (now : ℕ) :
    side.sealingKey now = side.current.keys.sealing := by
  simp only [Side.sealingKey]
  cases hretiring : side.retiring with
  | none => rfl
  | some retired => simp [Option.filter_some, h retired hretiring]

lemma Side.sealingKey_of_useForTx {sent : Retired E} (hat : side.At endpoint)
    (h : side.retiring = some sent) (huse : sent.useForTx = true) (hlive : sent.tenure.Live now) :
    side.sealingKey now = sent.tenure.keys.sealing := by
  have husable : side.Usable sent now :=
    ⟨(hat.retiring sent h).trans hat.current.symm, hlive⟩
  simp [Side.sealingKey, h, Option.filter_some, huse, husable]

omit [DecidableEq E] in
lemma Side.opens_of_retiring {retired : Retired E} (hat : side.At endpoint)
    (h : side.retiring = some retired) (hlive : retired.tenure.Live now) :
    side.Opens retired.tenure.keys.opening now :=
  Or.inr ⟨retired, h, ⟨(hat.retiring retired h).trans hat.current.symm, hlive⟩, rfl⟩

/-- Hearing each other, by what the sides hold. -/
lemma Link.heard_iff (link : Link E) (ha : link.initiator.side parties.responder = some a)
    (hb : link.responder.side parties.initiator = some b) :
    link.Heard parties now ↔ b.Opens (a.sealingKey now) now ∧ a.Opens (b.sealingKey now) now := by
  obtain ⟨sender, hsender, hkey⟩ := Runtime.sendingSession_of_side ha now
  obtain ⟨sender', hsender', hkey'⟩ := Runtime.sendingSession_of_side hb now
  simp only [Link.Heard, hsender, hsender', Option.mem_def, Option.some.injEq, exists_eq_left', hkey, hkey',
    Runtime.opens_iff_side ha, Runtime.opens_iff_side hb]

lemma Side.At.renew (h : side.At endpoint) (role : SessionRole) (keys : SessionKeys) (ttl : ℕ) :
    (side.renew role keys endpoint now ttl).At endpoint := by
  refine ⟨rfl, fun retired hretired => ?_⟩
  simp only [Side.renew] at hretired
  split at hretired
  · rename_i kept hkept
    obtain rfl := Option.some.inj hretired
    exact h.retiring _ (Option.filter_eq_some_iff.mp hkept).1
  · split at hretired
    · obtain rfl := Option.some.inj hretired
      exact h.current
    · exact absurd hretired (by simp)

/-- The initiator keeps the keys that it replaces, and does not send with them. -/
lemma Side.retiring_renew_initiator (hat : side.At endpoint) (hlive : side.current.Live now)
    (keys : SessionKeys) (ttl : ℕ) :
    (side.renew .initiator keys endpoint now ttl).retiring = some ⟨side.current, false⟩ := by
  rw [Side.retiring_renew_of_not_kept fun _ _ hkept => absurd hkept.1 (by decide),
    if_pos ⟨hat.current, hlive⟩]
  rfl

/-- A responder that sends with its current keys goes on sending with them. -/
lemma Side.retiring_renew_of_idle (hat : side.At endpoint) (hidle : side.Idle)
    (hlive : side.current.Live now) (keys : SessionKeys) (ttl : ℕ) :
    (side.renew .responder keys endpoint now ttl).retiring = some ⟨side.current, true⟩ := by
  rw [Side.retiring_renew_of_not_kept, if_pos ⟨hat.current, hlive⟩]
  · rfl
  · intro retired hretired hkept
    exact absurd hkept.2.1 (by simp [hidle retired hretired])

omit [DecidableEq E] in
/-- A key that is in use nowhere is none of the responder's. -/
lemma Link.ne_of_not_mem_usedKeys (hb : link.responder.side parties.initiator = some b) {key : Key}
    (hkey : key ∉ link.usedKeys parties) :
    (∀ datagram ∈ link.datagrams, datagram.key ≠ key) ∧ b.current.keys.opening ≠ key ∧
      b.current.keys.sealing ≠ key ∧
      ∀ retired ∈ b.retiring, retired.tenure.keys.opening ≠ key ∧ retired.tenure.keys.sealing ≠ key := by
  simp only [Link.usedKeys, hb, List.mem_append, not_or, Option.toList_some, List.flatMap_cons,
    List.flatMap_nil, List.append_nil] at hkey
  obtain ⟨⟨hdatagrams, -⟩, hside⟩ := hkey
  simp only [Side.keys, List.mem_append, List.mem_cons, List.not_mem_nil, or_false, not_or,
    List.mem_flatMap, Option.mem_toList, not_exists, not_and] at hside
  refine ⟨fun datagram hdatagram heq => hdatagrams (List.mem_map.mpr ⟨datagram, hdatagram, heq⟩),
    fun heq => hside.1.2 heq.symm, fun heq => hside.1.1 heq.symm, fun retired hretired => ?_⟩
  exact ⟨fun heq => (hside.2 retired hretired).2 heq.symm,
    fun heq => (hside.2 retired hretired).1 heq.symm⟩

omit [DecidableEq E] in
lemma Link.answerKeys_eq_some :
    link.answerKeys env secret accept = some keys ↔ ∃ hello, link.hello = some hello ∧
      SessionKeys.derive env .responder secret accept hello = .ok keys := by
  simp only [Link.answerKeys, Option.bind_eq_bind, Option.bind_eq_some_iff, toOption_eq_some_iff]

omit [DecidableEq E] in
lemma Side.confirm_of_idle (h : side.Idle) : side.confirm = side := by
  obtain ⟨current, retiring⟩ := side
  cases retiring with
  | none => rfl
  | some retired =>
      obtain ⟨tenure, useForTx⟩ := retired
      obtain rfl : useForTx = false := h _ rfl
      rfl

omit [DecidableEq E] in
lemma Side.idle_confirm (side : Side E) : side.confirm.Idle := by
  intro retired hretired
  obtain ⟨_, -, rfl⟩ := Option.map_eq_some_iff.mp hretired
  rfl

omit [DecidableEq E] in
lemma Side.At.confirm (h : side.At endpoint) : side.confirm.At endpoint := by
  refine ⟨h.current, fun retired hretired => ?_⟩
  obtain ⟨old, hold, rfl⟩ := Option.map_eq_some_iff.mp hretired
  exact h.retiring old hold

omit [DecidableEq E] in
lemma Runtime.lifetime_le_of_side {runtime : Runtime E} {peer : PeerId}
    (h : runtime.side peer = some side) : side.current.lifetime ≤ runtime.sessionTtl := by
  obtain ⟨session, lifetime, -, -, rfl⟩ := Runtime.side_eq_some.mp h
  exact min_le_right ..

lemma Runtime.exists_installSession (runtime : Runtime E) {role : SessionRole}
    {own remote : VerifiedHandshake E}
    (h : SessionKeys.derive env role secret own remote = .ok keys) (now : ℕ) (overlapping : Bool) :
    ∃ installed,
      runtime.installSession env role secret own remote now overlapping = .ok installed := by
  simp only [Runtime.installSession, h]
  exact ⟨_, rfl⟩

section Runs

variable (h : Linked env parties link a b)
include h

/-- In every phase both sides hear each other. -/
lemma Linked.heard (hlive : a.LiveWith b now) : link.Heard parties now := by
  rw [link.heard_iff h.initiator h.responder, Side.sealingKey_of_idle h.idle]
  obtain hsettled | ⟨sent, hoffered⟩ | ⟨sent, known, hswitched⟩ := h.phase
  · rw [Side.sealingKey_of_idle hsettled.idle]
    exact ⟨Or.inl hsettled.fit.1.symm, Or.inl hsettled.fit.2⟩
  · have hsent := hlive.retiring sent hoffered.retiring hoffered.useForTx
    rw [Side.sealingKey_of_useForTx h.responderAt hoffered.retiring hoffered.useForTx hsent,
      hoffered.fit.1]
    exact ⟨Side.opens_of_retiring h.responderAt hoffered.retiring hsent, Or.inl hoffered.fit.2⟩
  · have hsent := hlive.retiring sent hswitched.retiring hswitched.useForTx
    have hknown := hlive.known sent hswitched.retiring hswitched.useForTx known
      hswitched.initiatorRetiring hswitched.knownFit.2
    rw [Side.sealingKey_of_useForTx h.responderAt hswitched.retiring hswitched.useForTx hsent,
      ← hswitched.knownFit.2]
    exact ⟨Or.inl hswitched.fit.1.symm,
      Side.opens_of_retiring h.initiatorAt hswitched.initiatorRetiring hknown⟩

/-! ### Handshakes -/

omit [DecidableEq E] in
lemma Linked.abandon : Linked env parties link.abandon a b where
  __ := h
  hello := nofun
  accept := nofun

/-- What the responder sends with after a Hello that came in time. -/
lemma Linked.offered_renew (hlive : a.LiveWith b now)
    (hconfirmed : ¬ link.Unconfirmed parties) (hkeys : keys.opening ∉ link.usedKeys parties)
    (ttl : ℕ) :
    ∃ sent, Offered link.datagrams a
      (b.renew .responder keys parties.initiatorEndpoint now ttl) sent := by
  obtain ⟨hdatagrams, hopening, hsealing, hretiring⟩ := Link.ne_of_not_mem_usedKeys h.responder hkeys
  obtain hsettled | ⟨sent, hoffered⟩ | ⟨sent, known, hswitched⟩ := h.phase
  · exact ⟨⟨b.current, true⟩,
      Side.retiring_renew_of_idle h.responderAt hsettled.idle hlive.responder keys ttl, rfl,
      hsettled.fit, hopening, hsealing, hdatagrams⟩
  · have hkept : Side.Keeps .responder sent parties.initiatorEndpoint now :=
      ⟨rfl, hoffered.useForTx, h.responderAt.retiring sent hoffered.retiring,
        hlive.retiring sent hoffered.retiring hoffered.useForTx⟩
    exact ⟨sent, Side.retiring_renew_of_kept hoffered.retiring hkept keys ttl, hoffered.useForTx, hoffered.fit,
      (hretiring sent hoffered.retiring).1, (hretiring sent hoffered.retiring).2, hdatagrams⟩
  · exact absurd ⟨a, h.initiator, b, h.responder, ⟨sent, hswitched.retiring, hswitched.useForTx⟩,
      hswitched.fit.1⟩ hconfirmed

/-- A Hello that comes in time. -/
lemma Linked.answer (hlive : a.LiveWith b now)
    (haccept : accept.From env parties.responder parties.responderEndpoint secret)
    (hnew : ∀ keys ∈ link.answerKeys env secret accept, keys.opening ∉ link.usedKeys parties)
    (hconfirmed : (link.answerKeys env secret accept).isSome → ¬ link.Unconfirmed parties) :
    ∃ b', Linked env parties (link.answer env secret accept now) a b' := by
  simp only [Link.answer]
  split
  · exact ⟨b, h⟩
  · rename_i hello hhello
    obtain ⟨helloSecret, hpending, hfrom⟩ := h.hello hello hhello
    split
    · exact ⟨b, h.abandon⟩
    · rename_i responder hinstall
      obtain ⟨keys, hkeys, hside⟩ :=
        Runtime.side_installSession (hfrom.peer.symm ▸ h.responder) hinstall
      rw [hfrom.peer, hfrom.endpoint] at hside
      have hanswer := Link.answerKeys_eq_some.mpr ⟨hello, hhello, hkeys⟩
      obtain ⟨sent, hoffered⟩ := h.offered_renew hlive (hconfirmed (hanswer ▸ rfl))
        (hnew keys hanswer) link.responder.sessionTtl
      refine ⟨_, { h with
        responder := hside
        responderAt := h.responderAt.renew .responder keys _
        hello := nofun
        accept := ?_
        phase := Or.inr (Or.inl ⟨sent, hoffered⟩) }⟩
      rintro _ ⟨⟩
      exact ⟨helloSecret, hello, secret, sent, hpending, hfrom, haccept, hkeys, hoffered⟩

/-- The Accept completes the switch to the new keys. -/
lemma Linked.complete (hlive : a.LiveWith b now) :
    ∃ a', Linked env parties (link.complete env now) a' b := by
  simp only [Link.complete]
  split
  · rename_i accept secret hello haccept hpending
    obtain ⟨secret', hello', remoteSecret, sent, hpending', hhello, hfrom, hderive, hoffered⟩ :=
      h.accept accept haccept
    obtain ⟨rfl, rfl⟩ := Prod.mk.inj (Option.some.inj (hpending.symm.trans hpending'))
    split
    · exact ⟨a, h.abandon⟩
    · rename_i initiator hinstall
      obtain ⟨keys, hkeys, hside⟩ :=
        Runtime.side_installSession (hfrom.peer.symm ▸ h.initiator) hinstall
      rw [hfrom.peer, hfrom.endpoint] at hside
      have hretiring := Side.retiring_renew_initiator h.initiatorAt hlive.initiator keys
        link.initiator.sessionTtl
      have hfit := SessionKeys.fit_of_derive hhello.ephemeralPublicKey hfrom.ephemeralPublicKey hkeys
        hderive
      refine ⟨_, { h.abandon with
        initiator := hside
        initiatorAt := h.initiatorAt.renew .initiator keys _
        idle := ?_
        accept := nofun
        phase := Or.inr (Or.inr ⟨sent, _, hoffered.retiring, hoffered.useForTx, hfit,
          hoffered.opening, hretiring, hoffered.fit⟩) }⟩
      intro retired hretired
      obtain rfl := Option.some.inj (hretiring.symm.trans hretired)
      rfl
  · exact ⟨a, h⟩

/-! ### Datagrams -/

omit [DecidableEq E] in
/-- More datagrams, none under the keys that the initiator does not know. -/
lemma Linked.send {datagrams : List Datagram}
    (hsend : ∀ sent, Offered link.datagrams a b sent →
      ∀ datagram ∈ datagrams, datagram.key ≠ b.current.keys.opening) :
    Linked env parties { link with datagrams := datagrams } a b := by
  have hoffer : ∀ sent, Offered link.datagrams a b sent → Offered datagrams a b sent :=
    fun sent hoffered => { hoffered with unused := hsend sent hoffered }
  refine { h with accept := ?_, phase := ?_ }
  · intro accept haccept
    obtain ⟨secret, hello, remoteSecret, sent, hpending, hhello, hfrom, hkeys, hoffered⟩ :=
      h.accept accept haccept
    exact ⟨secret, hello, remoteSecret, sent, hpending, hhello, hfrom, hkeys, hoffer sent hoffered⟩
  · exact h.phase.imp_right (Or.imp_left fun ⟨sent, hoffered⟩ => ⟨sent, hoffer sent hoffered⟩)

lemma Linked.sendFromInitiator (frame : Frame) :
    Linked env parties { link with
      datagrams := sendDatagram link.datagrams link.initiator parties.responder frame now } a b := by
  refine h.send fun sent hoffered datagram hdatagram => ?_
  obtain hold | hkey := mem_sendDatagram h.initiator hdatagram
  · exact hoffered.unused datagram hold
  · rw [hkey, Side.sealingKey_of_idle h.idle, hoffered.fit.1]
    exact hoffered.opening

lemma Linked.sendFromResponder (hlive : a.LiveWith b now) (frame : Frame) :
    Linked env parties { link with
      datagrams := sendDatagram link.datagrams link.responder parties.initiator frame now } a b := by
  refine h.send fun sent hoffered datagram hdatagram => ?_
  obtain hold | hkey := mem_sendDatagram h.responder hdatagram
  · exact hoffered.unused datagram hold
  · have hsent := hlive.retiring sent hoffered.retiring hoffered.useForTx
    rw [hkey, Side.sealingKey_of_useForTx h.responderAt hoffered.retiring hoffered.useForTx hsent]
    exact hoffered.sealing

lemma Linked.deliverToInitiator (datagram : Datagram) (order : KeyOrder ℕ) :
    Linked env parties { link with
      initiator := receiveDatagram link.initiator parties.responder datagram now order } a b := by
  have hside := side_receiveDatagram h.initiator datagram now order
  rw [Side.confirm_of_idle h.idle] at hside
  exact { h with initiator := hside.elim id (·.2) }

/-- The responder hears the new keys only after the initiator has them. -/
lemma Linked.deliverToResponder {datagram : Datagram}
    (hdatagram : datagram ∈ link.datagrams) (order : KeyOrder ℕ) :
    ∃ b', Linked env parties { link with
      responder := receiveDatagram link.responder parties.initiator datagram now order } a b' := by
  obtain hsame | ⟨hkey, hconfirm⟩ := side_receiveDatagram h.responder datagram now order
  · exact ⟨b, { h with responder := hsame }⟩
  · have hnot : ∀ sent, ¬ Offered link.datagrams a b sent :=
      fun sent hoffered => hoffered.unused datagram hdatagram hkey
    have hfit : a.current.keys.Fit b.current.keys := by
      obtain hsettled | ⟨sent, hoffered⟩ | ⟨sent, known, hswitched⟩ := h.phase
      · exact hsettled.fit
      · exact absurd hoffered (hnot sent)
      · exact hswitched.fit
    refine ⟨b.confirm, { h with
      responder := hconfirm
      responderAt := h.responderAt.confirm
      accept := ?_
      phase := Or.inl ⟨hfit, b.idle_confirm⟩ }⟩
    intro accept haccept
    obtain ⟨_, _, _, sent, -, -, -, -, hoffered⟩ := h.accept accept haccept
    exact absurd hoffered (hnot sent)

/-! ### Steps and runs -/

/-- **Step.** Every event that is not a Hello too early leaves the link in one of the phases. -/
lemma Linked.perform {event : Event E}
    (hadmissible : link.Admissible env parties event) (hlive : a.LiveWith b event.now)
    (hconfirmed : link.Confirmed env parties event) :
    ∃ a' b', Linked env parties (link.perform env parties event) a' b' := by
  obtain ⟨now, action⟩ := event
  cases action with
  | sendHello secret hello =>
      simp only [Link.perform]
      split
      · exact ⟨a, b, h⟩
      · refine ⟨a, b, { h with hello := ?_, accept := nofun }⟩
        rintro _ ⟨⟩
        exact ⟨secret, rfl, hadmissible⟩
  | loseHello =>
      simp only [Link.perform]
      split
      · exact ⟨a, b, h.abandon⟩
      · exact ⟨a, b, h⟩
  | deliverHello secret accept =>
      obtain ⟨b', h'⟩ := h.answer hlive hadmissible.1 hadmissible.2 hconfirmed
      exact ⟨a, b', h'⟩
  | loseAccept =>
      simp only [Link.perform]
      split
      · exact ⟨a, b, h.abandon⟩
      · exact ⟨a, b, h⟩
  | deliverAccept =>
      obtain ⟨a', h'⟩ := h.complete hlive
      exact ⟨a', b, h'⟩
  | sendFromInitiator frame => exact ⟨a, b, h.sendFromInitiator frame⟩
  | sendFromResponder frame => exact ⟨a, b, h.sendFromResponder hlive frame⟩
  | deliverToInitiator datagram order => exact ⟨a, b, h.deliverToInitiator datagram order⟩
  | deliverToResponder datagram order =>
      obtain ⟨b', h'⟩ := h.deliverToResponder hadmissible order
      exact ⟨a, b', h'⟩

omit [DecidableEq E] in
/-- A responder that waits while the initiator sends with its current keys is in the third phase. -/
lemma Linked.switched_of_unconfirmed
    (hwaits : link.Unconfirmed parties) : ∃ sent known, Switched a b sent known := by
  obtain ⟨a', ha', b', hb', ⟨sent, hsent, huse⟩, hsealing⟩ := hwaits
  obtain rfl := Option.some.inj (h.initiator.symm.trans ha')
  obtain rfl := Option.some.inj (h.responder.symm.trans hb')
  obtain hsettled | ⟨sent', hoffered⟩ | hswitched := h.phase
  · exact absurd huse (by simp [hsettled.idle sent hsent])
  · exact absurd (hoffered.fit.1.symm.trans hsealing) hoffered.opening
  · exact hswitched

/-- **A Hello too early.** The responder keeps the keys that it sends with and drops those that the
initiator has switched to: it cannot open what the initiator sends. -/
lemma Linked.not_heard (hlive : a.LiveWith b now)
    (hnew : ∀ keys ∈ link.answerKeys env secret accept, keys.opening ∉ link.usedKeys parties)
    (hanswer : (link.answerKeys env secret accept).isSome) (hwaits : link.Unconfirmed parties) :
    (link.answer env secret accept now).Live parties now ∧
      ¬ (link.answer env secret accept now).Heard parties now := by
  obtain ⟨keys, hanswer⟩ := Option.isSome_iff_exists.mp hanswer
  obtain ⟨hello, hhello, hkeys⟩ := Link.answerKeys_eq_some.mp hanswer
  obtain ⟨sent, known, hswitched⟩ := h.switched_of_unconfirmed hwaits
  obtain ⟨helloSecret, -, hfrom⟩ := h.hello hello hhello
  obtain ⟨-, hopening, -, -⟩ := Link.ne_of_not_mem_usedKeys h.responder (hnew keys hanswer)
  obtain ⟨responder, hinstall⟩ := link.responder.exists_installSession hkeys now true
  obtain ⟨keys', hkeys', hside⟩ := Runtime.side_installSession (hfrom.peer.symm ▸ h.responder) hinstall
  obtain rfl := Except.ok.inj (hkeys.symm.trans hkeys')
  rw [hfrom.peer, hfrom.endpoint] at hside
  have hsent := hlive.retiring sent hswitched.retiring hswitched.useForTx
  have hretiring := Side.retiring_renew_of_kept hswitched.retiring
    ⟨rfl, hswitched.useForTx, h.responderAt.retiring sent hswitched.retiring, hsent⟩ keys
    link.responder.sessionTtl
  have hlink : link.answer env secret accept now =
      { link with responder := responder, hello := none, accept := some accept } := by
    simp only [Link.answer, hhello, hinstall]
  rw [hlink]
  constructor
  · intro a' ha' b' hb'
    obtain rfl := Option.some.inj (h.initiator.symm.trans ha')
    obtain rfl := Option.some.inj (hside.symm.trans hb')
    have httl : 0 < link.responder.sessionTtl :=
      (Nat.zero_le _).trans_lt (hlive.responder.trans_le (Runtime.lifetime_le_of_side h.responder))
    refine ⟨hlive.initiator, by simpa [Side.renew, Tenure.Live] using httl, ?_, ?_⟩
    · rw [hretiring, ← hswitched.retiring]
      exact hlive.retiring
    · rw [hretiring, ← hswitched.retiring]
      exact hlive.known
  · intro hheard
    rw [Link.heard_iff { link with responder := responder, hello := none, accept := some accept }
      h.initiator hside] at hheard
    obtain ⟨hopens, -⟩ := hheard
    rw [Side.sealingKey_of_idle h.idle, hswitched.fit.1] at hopens
    obtain hkey | ⟨retired, hretired, -, hkey⟩ := hopens
    · exact hopening hkey.symm
    · obtain rfl := Option.some.inj (hretiring.symm.trans hretired)
      exact hswitched.opening hkey

lemma Linked.not_heard_of_not_confirmed {event : Event E}
    (hadmissible : link.Admissible env parties event) (hlive : a.LiveWith b event.now)
    (hearly : ¬ link.Confirmed env parties event) :
    (link.perform env parties event).Live parties event.now ∧
      ¬ (link.perform env parties event).Heard parties event.now := by
  obtain ⟨now, action⟩ := event
  cases action with
  | deliverHello secret accept =>
      obtain ⟨hanswer, hwaits⟩ := Classical.not_imp.mp hearly
      exact h.not_heard hlive hadmissible.2 hanswer (not_not.mp hwaits)
  | _ => exact absurd trivial hearly

end Runs

omit [DecidableEq E] in
lemma Link.Start.linked (h : link.Start parties a b) : Linked env parties link a b where
  initiator := h.initiator
  responder := h.responder
  initiatorAt := ⟨h.initiatorEndpoint, by simp [h.initiatorRetiring]⟩
  responderAt := ⟨h.responderEndpoint, by simp [h.responderRetiring]⟩
  idle := by simp [Side.Idle, h.initiatorRetiring]
  hello := by simp [h.hello]
  accept := by simp [h.accept]
  phase := Or.inl ⟨h.fit, by simp [Side.Idle, h.responderRetiring]⟩

end Steps

/-! ## Two runs -/

/-- Arithmetic that behaves like the key agreement on the secrets below. -/
def sampleKeyPlatform : KeyPlatform ℕ where
  publicKey secret := 9 * secret
  diffieHellman secret publicKey := secret * publicKey
  diffieHellman_comm a b := by
    rw [Fin.mul_comm, Fin.mul_assoc, ← Fin.mul_assoc b, Fin.mul_comm b 9, Fin.mul_assoc]
  sha256 bytes := bytes.foldl (fun hash byte => 257 * hash + Fin.ofNat _ (byte.toNat + 1)) 0
  hkdfExpand salt secret info :=
    some (info.foldl (fun hash byte => 257 * hash + Fin.ofNat _ (byte.toNat + 1)) (salt + secret))
  endpointText := toString

def sampleParties : Parties ℕ := ⟨1, 2, 7001, 7002⟩

/-- A runtime with one session, established at `0`, for the peer at the endpoint. -/
def sampleRuntime (peer : PeerId) (endpoint : ℕ) (role : SessionRole) (keys : SessionKeys) :
    Runtime ℕ where
  sessions := (∅ : HashMap PeerId (Session ℕ)).insert peer
    ⟨peer, endpoint, 1280, role, 1, 1, 0, keys, ∅, 4⟩
  sessionEndpoints := (∅ : HashMap ℕ (List PeerId)).insert endpoint [peer]
  maxReplayWindowsPerSession := 4
  sessionTtl := 1000
  sessionLifetimes := (∅ : HashMap PeerId ℕ).insert peer 1000
  retiringSessions := ∅

def sampleLink : Link ℕ where
  initiator := sampleRuntime 2 7002 .initiator ⟨11, 12⟩
  responder := sampleRuntime 1 7001 .responder ⟨12, 11⟩
  pending := none
  hello := none
  accept := none
  datagrams := []

/-- The Hello of the initiator with the given secret. -/
def sampleHello (secret : Key) : VerifiedHandshake ℕ := ⟨.hello, 1, 9 * secret, 1, 5, 1280, 7001⟩

def sampleAccept (secret : Key) : VerifiedHandshake ℕ := ⟨.accept, 2, 9 * secret, 1, 6, 1280, 7002⟩

/-- The key that the initiator seals with after its renewal with the secret. -/
def sampleSealing (secret : Key) : Key :=
  match SessionKeys.derive sampleKeyPlatform .initiator secret (sampleHello secret)
    (sampleAccept (secret + 1)) with
  | .ok keys => keys.sealing
  | .error _ => 0

/-- A renewal that is completed at both sides. -/
def sampleRenewal (now : ℕ) (secret : Key) : List (Event ℕ) :=
  [⟨now, .sendHello secret (sampleHello secret)⟩,
    ⟨now + 1, .deliverHello (secret + 1) (sampleAccept (secret + 1))⟩, ⟨now + 2, .deliverAccept⟩]

instance (a b : Side E) (now : ℕ) : Decidable (a.LiveWith b now) :=
  decidable_of_iff (a.current.Live now ∧ b.current.Live now ∧
      (∀ sent ∈ b.retiring, sent.useForTx = true → sent.tenure.Live now) ∧
      ∀ sent ∈ b.retiring, sent.useForTx = true → ∀ known ∈ a.retiring,
        known.tenure.keys.opening = sent.tenure.keys.sealing → known.tenure.Live now)
    ⟨fun ⟨p, q, r, t⟩ => ⟨p, q, r, t⟩, fun ⟨p, q, r, t⟩ => ⟨p, q, r, t⟩⟩

instance (handshake : VerifiedHandshake E) (peer : PeerId) (endpoint : E) (secret : Key) :
    Decidable (handshake.From env peer endpoint secret) :=
  decidable_of_iff (handshake.peer = peer ∧ handshake.endpoint = endpoint ∧
      handshake.ephemeralPublicKey = env.publicKey secret)
    ⟨fun ⟨p, q, r⟩ => ⟨p, q, r⟩, fun ⟨p, q, r⟩ => ⟨p, q, r⟩⟩

instance (link : Link E) (now : ℕ) : Decidable (link.Live parties now) :=
  inferInstanceAs (Decidable (∀ a ∈ link.initiator.side parties.responder, _))

instance (link : Link E) (now : ℕ) : Decidable (link.Heard parties now) :=
  inferInstanceAs (Decidable (_ ∧ _))

instance (link : Link E) : (event : Event E) → Decidable (link.Admissible env parties event)
  | ⟨_, .sendHello _ _⟩ => inferInstanceAs (Decidable (VerifiedHandshake.From ..))
  | ⟨_, .deliverHello _ _⟩ => inferInstanceAs (Decidable (_ ∧ _))
  | ⟨_, .deliverToInitiator datagram _⟩ => inferInstanceAs (Decidable (datagram ∈ link.datagrams))
  | ⟨_, .deliverToResponder datagram _⟩ => inferInstanceAs (Decidable (datagram ∈ link.datagrams))
  | ⟨_, .loseHello⟩ | ⟨_, .loseAccept⟩ | ⟨_, .deliverAccept⟩ | ⟨_, .sendFromInitiator _⟩
  | ⟨_, .sendFromResponder _⟩ => isTrue trivial

instance (link : Link E) : Decidable (link.Unconfirmed parties) :=
  inferInstanceAs (Decidable (∃ a ∈ link.initiator.side parties.responder, _))

instance (link : Link E) : (event : Event E) → Decidable (link.Confirmed env parties event)
  | ⟨_, .deliverHello _ _⟩ => inferInstanceAs (Decidable (_ → _))
  | ⟨_, .sendHello _ _⟩ | ⟨_, .deliverToInitiator _ _⟩ | ⟨_, .deliverToResponder _ _⟩
  | ⟨_, .loseHello⟩ | ⟨_, .loseAccept⟩ | ⟨_, .deliverAccept⟩ | ⟨_, .sendFromInitiator _⟩
  | ⟨_, .sendFromResponder _⟩ => isTrue trivial

instance decidableThroughout (condition : Link E → Event E → Prop)
    [∀ link event, Decidable (condition link event)] :
    (link : Link E) → (events : List (Event E)) →
      Decidable (Link.Throughout env parties condition link events)
  | _, [] => isTrue trivial
  | link, event :: events =>
      @instDecidableAnd _ _ _ (decidableThroughout condition (link.perform env parties event) events)

lemma sampleLink_start : ∃ a b, sampleLink.Start sampleParties a b :=
  ⟨_, _, rfl, rfl, ⟨rfl, rfl⟩, rfl, rfl, rfl, rfl, rfl, rfl, rfl⟩

/-- Two renewals, and a datagram under the keys of the first before the second. -/
def sampleRun : List (Event ℕ) :=
  sampleRenewal 10 3 ++
    [⟨15, .sendFromInitiator ⟨1, 1, []⟩⟩,
      ⟨16, .deliverToResponder ⟨sampleSealing 3, ⟨1, 1, []⟩⟩ .sorted⟩] ++
    sampleRenewal 20 5

/-- Two renewals, one right after the other. -/
def sampleEarlyRun : List (Event ℕ) := sampleRenewal 10 3 ++ sampleRenewal 20 5

/-! ## The result -/

/-- **Renewals that lose no datagrams.** In every run from a shared session, whatever Hellos, Accepts
and datagrams are lost, delayed or delivered, each side can open what the other sends in every state
as long as the keys are unexpired, exactly when each Hello for which the responder installs keys finds
that it has heard the initiator use the keys that the last Accept completed. -/
theorem renewal_heard_iff {link : Link E} {a b : Side E} (hstart : link.Start parties a b)
    (events : List (Event E))
    (hrun : Link.Throughout env parties (fun link event =>
      link.Admissible env parties event ∧ link.Live parties event.now) link events) :
    (∀ reached ∈ Link.states env parties link events, ∀ now, reached.Live parties now →
        reached.Heard parties now) ↔
      Link.Throughout env parties (fun link event => link.Confirmed env parties event) link events := by
  -- the sides stay linked as long as no Hello comes too early
  have h : Linked env parties link a b := hstart.linked
  clear hstart
  have hhere : ∀ now, link.Live parties now → link.Heard parties now :=
    fun now hlive => h.heard (hlive a h.initiator b h.responder)
  induction events generalizing link a b with
  | nil =>
      simp only [Link.states, Link.Throughout, List.mem_singleton, forall_eq, iff_true]
      exact hhere
  | cons event events ih =>
      obtain ⟨⟨hadmissible, hlive⟩, hrun⟩ := hrun
      have hsides := hlive a h.initiator b h.responder
      simp only [Link.states, Link.Throughout, List.forall_mem_cons]
      by_cases hconfirmed : link.Confirmed env parties event
      · obtain ⟨a', b', h'⟩ := h.perform hadmissible hsides hconfirmed
        exact and_congr (iff_of_true hhere hconfirmed) (ih hrun h' fun now hlive =>
          h'.heard (hlive a' h'.initiator b' h'.responder))
      · obtain ⟨hlive', hheard⟩ := h.not_heard_of_not_confirmed hadmissible hsides hconfirmed
        refine iff_of_false (fun hall => hheard ?_) (fun hall => hconfirmed hall.1)
        refine hall.2 _ ?_ _ hlive'
        cases events <;> simp [Link.states]

/-- A run in which the responder hears the keys of the first renewal before the second. -/
theorem sampleRun_heard :
    Link.Throughout sampleKeyPlatform sampleParties (fun link event =>
      link.Admissible sampleKeyPlatform sampleParties event ∧ link.Live sampleParties event.now)
      sampleLink sampleRun ∧
    ∀ reached ∈ Link.states sampleKeyPlatform sampleParties sampleLink sampleRun, ∀ now,
      reached.Live sampleParties now → reached.Heard sampleParties now := by
  have hrun : Link.Throughout sampleKeyPlatform sampleParties (fun link event =>
      link.Admissible sampleKeyPlatform sampleParties event ∧ link.Live sampleParties event.now)
      sampleLink sampleRun := by decide +kernel
  obtain ⟨a, b, hstart⟩ := sampleLink_start
  refine ⟨hrun, ?_⟩
  rw [renewal_heard_iff sampleKeyPlatform sampleParties hstart sampleRun hrun]
  decide +kernel

/-- The second Hello comes before any datagram under the keys of the first renewal: the responder
cannot open what the initiator sends, although no key has expired. -/
theorem sampleEarlyRun_not_heard :
    (∃ a b, sampleLink.Start sampleParties a b) ∧
    Link.Throughout sampleKeyPlatform sampleParties (fun link event =>
      link.Admissible sampleKeyPlatform sampleParties event ∧ link.Live sampleParties event.now)
      sampleLink sampleEarlyRun ∧
    ∃ reached ∈ Link.states sampleKeyPlatform sampleParties sampleLink sampleEarlyRun,
      reached.Live sampleParties 21 ∧ ¬ reached.Heard sampleParties 21 :=
  ⟨sampleLink_start, by decide +kernel, by decide +kernel⟩

end P2pVpn.PacketPlane
