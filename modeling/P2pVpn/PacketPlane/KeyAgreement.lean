/-
# What the keys of a session are bound to

The keys of a session are expanded from a digest of both handshakes.  The hashed string has no length
before the text of an endpoint, but the text has no byte that marks the kind of a handshake, so the
second handshake starts at the first such byte: the string determines both handshakes, up to what the
texts of their endpoints leave out (`transcriptBytes_inj`).  As long as the digest and the expansion
keep the derivations in use apart, two keys agree only if they belong to one pair of handshakes and
to one direction (`key_agreement_injective`).
-/
import P2pVpn.PacketPlane.Handshake

namespace P2pVpn.PacketPlane

open Lib Net Wire

/-! ## Verified handshakes -/

namespace VerifiedHandshake

/-- The numbers are of the types that the program has for them. -/
structure InRange (v : VerifiedHandshake SocketAddr) : Prop where
  sessionId : v.sessionId < 2 ^ 32
  nonce : v.nonce < 2 ^ 64
  mtu : v.mtu < 2 ^ 16

/-- All fields agree; endpoints are compared by their texts. -/
structure Agrees (v w : VerifiedHandshake SocketAddr) : Prop where
  kind : v.kind = w.kind
  peer : v.peer = w.peer
  ephemeralPublicKey : v.ephemeralPublicKey = w.ephemeralPublicKey
  sessionId : v.sessionId = w.sessionId
  nonce : v.nonce = w.nonce
  mtu : v.mtu = w.mtu
  endpoint : v.endpoint.text = w.endpoint.text

end VerifiedHandshake

/-! ## The transcript -/

variable {env : KeyPlatform SocketAddr}

/-- The string that `packet_plane_transcript_hash` hashes. -/
def transcriptBytes (env : KeyPlatform SocketAddr) (hello accept : VerifiedHandshake SocketAddr) :
    List UInt8 :=
  "p2p-vpn packet-plane session keys v1".toUTF8.toList ++ handshakeBytes env hello ++
    handshakeBytes env accept

lemma transcriptHash_eq (hello accept : VerifiedHandshake SocketAddr) :
    transcriptHash env hello accept = env.sha256 (transcriptBytes env hello accept) := rfl

/-- The part of a handshake before the text of its endpoint. -/
def fixedBytes (v : VerifiedHandshake SocketAddr) : List UInt8 :=
  [v.kind.byte] ++ (toBeBytes 32 v.peer.val ++ (toBeBytes 32 v.ephemeralPublicKey.val ++
    (toBeBytes 4 v.sessionId ++ (toBeBytes 8 v.nonce ++ toBeBytes 2 v.mtu))))

@[simp] lemma length_fixedBytes (v : VerifiedHandshake SocketAddr) : (fixedBytes v).length = 79 := by
  simp [fixedBytes]

lemma agrees_of_fixedBytes {v w : VerifiedHandshake SocketAddr} (hv : v.InRange) (hw : w.InRange)
    (hfixed : fixedBytes v = fixedBytes w) (htext : v.endpoint.text = w.endpoint.text) :
    v.Agrees w := by
  unfold fixedBytes at hfixed
  obtain ⟨hkind, hfixed⟩ := List.append_inj hfixed rfl
  obtain ⟨hpeer, hfixed⟩ := List.append_inj hfixed (by simp)
  obtain ⟨hkey, hfixed⟩ := List.append_inj hfixed (by simp)
  obtain ⟨hsession, hfixed⟩ := List.append_inj hfixed (by simp)
  obtain ⟨hnonce, hmtu⟩ := List.append_inj hfixed (by simp)
  exact
    { kind := HandshakeKind.byte_inj (List.cons.inj hkind).1
      peer := Fin.ext (toBeBytes_inj v.peer.isLt w.peer.isLt hpeer)
      ephemeralPublicKey :=
        Fin.ext (toBeBytes_inj v.ephemeralPublicKey.isLt w.ephemeralPublicKey.isLt hkey)
      sessionId := toBeBytes_inj hv.sessionId hw.sessionId hsession
      nonce := toBeBytes_inj hv.nonce hw.nonce hnonce
      mtu := toBeBytes_inj hv.mtu hw.mtu hmtu
      endpoint := htext }

section Transcript

variable (henv : env.endpointText = SocketAddr.text)
include henv

lemma handshakeBytes_eq (v : VerifiedHandshake SocketAddr) :
    handshakeBytes env v = fixedBytes v ++ v.endpoint.text.toUTF8.toList := by
  simp only [handshakeBytes, fixedBytes, henv, List.append_assoc]

/-- **The hashed string determines both handshakes.** -/
theorem transcriptBytes_inj {hello accept hello' accept' : VerifiedHandshake SocketAddr}
    (hhello : hello.InRange) (haccept : accept.InRange) (hhello' : hello'.InRange)
    (haccept' : accept'.InRange) (hkind : accept.kind = .accept) (hkind' : accept'.kind = .accept)
    (h : transcriptBytes env hello accept = transcriptBytes env hello' accept') :
    hello.Agrees hello' ∧ accept.Agrees accept' := by
  simp only [transcriptBytes, handshakeBytes_eq henv, List.append_assoc] at h
  obtain ⟨hfixed, h⟩ := List.append_inj (List.append_cancel_left h) (by simp)
  -- the text of the first endpoint ends where the second handshake has the byte of its kind
  have hmark : ∀ v : VerifiedHandshake SocketAddr, v.kind = .accept →
      fixedBytes v = 2 :: (fixedBytes v).tail := by
    intro v hv
    simp [fixedBytes, hv, HandshakeKind.byte]
  have hfree : ∀ address : SocketAddr, (2 : UInt8) ∉ address.text.toUTF8.toList :=
    fun _ hmem => absurd (SocketAddr.lt_of_mem_bytes hmem) (by decide)
  rw [hmark accept hkind, hmark accept' hkind', List.cons_append, List.cons_append] at h
  obtain ⟨htext, hrest⟩ := append_cons_inj (hfree _) (hfree _) h
  have hsecond : fixedBytes accept ++ accept.endpoint.text.toUTF8.toList =
      fixedBytes accept' ++ accept'.endpoint.text.toUTF8.toList := by
    rw [hmark accept hkind, hmark accept' hkind', List.cons_append, List.cons_append, hrest]
  obtain ⟨hfixed', htext'⟩ := List.append_inj hsecond (by simp)
  exact ⟨agrees_of_fixedBytes hhello hhello' hfixed (toUTF8_toList_inj htext),
    agrees_of_fixedBytes haccept haccept' hfixed' (toUTF8_toList_inj htext')⟩

end Transcript

/-! ## Derivations -/

/-- What a side derives the keys of a session from. -/
structure Derivation where
  role : SessionRole
  secret : Key
  own : VerifiedHandshake SocketAddr
  remote : VerifiedHandshake SocketAddr
deriving DecidableEq

/-- The information that a key is expanded with: who sends with it. -/
def SessionRole.direction : SessionRole → String
  | initiator => "hello-to-accept"
  | responder => "accept-to-hello"

def SessionRole.other : SessionRole → SessionRole
  | initiator => responder
  | responder => initiator

namespace Derivation

def hello (d : Derivation) : VerifiedHandshake SocketAddr :=
  match d.role with
  | .initiator => d.own
  | .responder => d.remote

def accept (d : Derivation) : VerifiedHandshake SocketAddr :=
  match d.role with
  | .initiator => d.remote
  | .responder => d.own

def keys (env : KeyPlatform SocketAddr) (d : Derivation) : Except SessionError SessionKeys :=
  SessionKeys.derive env d.role d.secret d.own d.remote

def transcript (env : KeyPlatform SocketAddr) (d : Derivation) : List UInt8 :=
  transcriptBytes env d.hello d.accept

/-- The key that the side with the given role sends with. -/
def expand (env : KeyPlatform SocketAddr) (d : Derivation) (sender : SessionRole) : Option Key :=
  env.hkdfExpand (env.sha256 (d.transcript env))
    (env.diffieHellman d.secret d.remote.ephemeralPublicKey) sender.direction.toUTF8.toList

structure InRange (d : Derivation) : Prop where
  own : d.own.InRange
  remote : d.remote.InRange

end Derivation

/-- The digest and the expansion keep what the derivations give them apart. -/
structure KeyPlatform.InjectiveOn (env : KeyPlatform SocketAddr) (derivations : Set Derivation) :
    Prop where
  sha256 : ∀ d ∈ derivations, ∀ d' ∈ derivations,
    env.sha256 (d.transcript env) = env.sha256 (d'.transcript env) →
      d.transcript env = d'.transcript env
  hkdfExpand : ∀ d ∈ derivations, ∀ d' ∈ derivations, ∀ sender sender' key,
    d.expand env sender = some key → d'.expand env sender' = some key →
      env.sha256 (d.transcript env) = env.sha256 (d'.transcript env) ∧
        sender.direction.toUTF8.toList = sender'.direction.toUTF8.toList

lemma SessionRole.direction_inj {a b : SessionRole}
    (h : a.direction.toUTF8.toList = b.direction.toUTF8.toList) : a = b := by
  have htext := toUTF8_toList_inj h
  cases a <;> cases b <;> first | rfl | exact absurd htext (by decide)

lemma deriveDirectionalKey_eq_ok {shared key : Key} {hello accept : VerifiedHandshake SocketAddr}
    {direction : String} : deriveDirectionalKey env shared hello accept direction = .ok key ↔
      env.hkdfExpand (env.sha256 (transcriptBytes env hello accept)) shared
        direction.toUTF8.toList = some key := by
  rw [deriveDirectionalKey, transcriptHash_eq]
  cases env.hkdfExpand (env.sha256 (transcriptBytes env hello accept)) shared
    direction.toUTF8.toList <;> simp

/-- A derivation gives the key that the side sends with and the one that the other side does. -/
lemma Derivation.keys_eq_ok {d : Derivation} {keys : SessionKeys} :
    d.keys env = .ok keys ↔ d.hello.kind = .hello ∧ d.accept.kind = .accept ∧
      env.diffieHellman d.secret d.remote.ephemeralPublicKey ≠ 0 ∧
      d.expand env d.role = some keys.sealing ∧ d.expand env d.role.other = some keys.opening := by
  obtain ⟨role, secret, own, remote⟩ := d
  obtain ⟨sealing, opening⟩ := keys
  cases role
  all_goals
    simp only [Derivation.keys, SessionKeys.derive, bind_eq_ok, exists_unit_iff, validateSessionKinds,
      sharedSecret, refuseIf_eq_ok, deriveDirectionalKey_eq_ok, pure_eq_ok, SessionKeys.mk.injEq,
      Derivation.hello, Derivation.accept, Derivation.expand, Derivation.transcript,
      SessionRole.direction, SessionRole.other, not_not]
    grind

/-- The two sides of a handshake derive one pair of keys, with the directions swapped. -/
lemma derive_swap {secret remoteSecret : Key} {hello accept : VerifiedHandshake SocketAddr}
    (hhello : hello.ephemeralPublicKey = env.publicKey secret)
    (haccept : accept.ephemeralPublicKey = env.publicKey remoteSecret) (keys : SessionKeys) :
    SessionKeys.derive env .initiator secret hello accept = .ok keys ↔
      SessionKeys.derive env .responder remoteSecret accept hello
        = .ok ⟨keys.opening, keys.sealing⟩ := by
  have hshared : env.diffieHellman secret accept.ephemeralPublicKey =
      env.diffieHellman remoteSecret hello.ephemeralPublicKey := by
    rw [haccept, hhello, env.diffieHellman_comm]
  have hinitiator : (⟨.initiator, secret, hello, accept⟩ : Derivation).keys env = .ok keys ↔ _ :=
    Derivation.keys_eq_ok
  have hresponder : (⟨.responder, remoteSecret, accept, hello⟩ : Derivation).keys env
      = .ok ⟨keys.opening, keys.sealing⟩ ↔ _ := Derivation.keys_eq_ok
  simp only [Derivation.keys, Derivation.hello, Derivation.accept, Derivation.expand,
    Derivation.transcript, SessionRole.other, hshared] at hinitiator hresponder
  rw [hinitiator, hresponder]
  constructor
  · rintro ⟨hkind, hkind', hne, hseal, hopen⟩
    exact ⟨hkind, hkind', hne, hopen, hseal⟩
  · rintro ⟨hkind, hkind', hne, hopen, hseal⟩
    exact ⟨hkind, hkind', hne, hseal, hopen⟩

/-! ## Keys that agree -/

section Agreement

variable (henv : env.endpointText = SocketAddr.text) {derivations : Set Derivation}
  (hinjective : env.InjectiveOn derivations) (hrange : ∀ d ∈ derivations, d.InRange)
include henv hinjective hrange

/-- Keys of two derivations that agree are those of one sender in one pair of handshakes. -/
lemma sender_eq_of_expand {d d' : Derivation} (hd : d ∈ derivations) (hd' : d' ∈ derivations)
    (haccept : d.accept.kind = .accept) (haccept' : d'.accept.kind = .accept)
    {sender sender' : SessionRole} {key : Key} (hkey : d.expand env sender = some key)
    (hkey' : d'.expand env sender' = some key) :
    sender = sender' ∧ d.hello.Agrees d'.hello ∧ d.accept.Agrees d'.accept := by
  have hpair : ∀ e ∈ derivations, e.hello.InRange ∧ e.accept.InRange := by
    rintro ⟨role, secret, own, remote⟩ he
    obtain ⟨hown, hremote⟩ := hrange _ he
    cases role
    · exact ⟨hown, hremote⟩
    · exact ⟨hremote, hown⟩
  obtain ⟨hhash, hdirection⟩ := hinjective.hkdfExpand d hd d' hd' sender sender' key hkey hkey'
  exact ⟨SessionRole.direction_inj hdirection, transcriptBytes_inj henv (hpair d hd).1 (hpair d hd).2
    (hpair d' hd').1 (hpair d' hd').2 haccept haccept' (hinjective.sha256 d hd d' hd' hhash)⟩

end Agreement

/-- The two derivations have one role and agree in both handshakes. -/
structure Derivation.Same (d d' : Derivation) : Prop where
  role : d.role = d'.role
  own : d.own.Agrees d'.own
  remote : d.remote.Agrees d'.remote

/-- The two derivations are of the two sides of a handshake. -/
structure Derivation.Opposite (d d' : Derivation) : Prop where
  role : d.role ≠ d'.role
  own : d.own.Agrees d'.remote
  remote : d.remote.Agrees d'.own

lemma Derivation.same_of_agrees {d d' : Derivation} (hrole : d.role = d'.role)
    (hhello : d.hello.Agrees d'.hello) (haccept : d.accept.Agrees d'.accept) : d.Same d' := by
  obtain ⟨role, secret, own, remote⟩ := d
  obtain ⟨role', secret', own', remote'⟩ := d'
  obtain rfl : role = role' := hrole
  cases role
  · exact ⟨rfl, hhello, haccept⟩
  · exact ⟨rfl, haccept, hhello⟩

lemma Derivation.opposite_of_agrees {d d' : Derivation} (hrole : d.role = d'.role.other)
    (hhello : d.hello.Agrees d'.hello) (haccept : d.accept.Agrees d'.accept) : d.Opposite d' := by
  obtain ⟨role, secret, own, remote⟩ := d
  obtain ⟨role', secret', own', remote'⟩ := d'
  obtain rfl : role = role'.other := hrole
  cases role'
  · exact ⟨nofun, haccept, hhello⟩
  · exact ⟨nofun, hhello, haccept⟩

lemma SessionRole.other_inj {a b : SessionRole} (h : a.other = b.other) : a = b := by
  cases a <;> cases b <;> first | rfl | cases h

/-- **The key agreement is injective.**  The hashed string determines both handshakes, and what is
signed determines every signed field.  The keys that one side of a handshake seals and opens with are
those that the other side opens and seals with.  As long as the digest and the expansion keep the
derivations in use apart, a key that two of them seal with, or open with, is that of one role and one
pair of handshakes, and a key that one seals and the other opens with is that of the two roles and
one pair of handshakes; so no side opens with the key that it seals with. -/
theorem key_agreement_injective (env : KeyPlatform SocketAddr)
    (henv : env.endpointText = SocketAddr.text) :
    (∀ hello accept hello' accept' : VerifiedHandshake SocketAddr, hello.InRange → accept.InRange →
      hello'.InRange → accept'.InRange → hello.kind = .hello → accept.kind = .accept →
      hello'.kind = .hello → accept'.kind = .accept →
      transcriptBytes env hello accept = transcriptBytes env hello' accept' →
        hello.Agrees hello' ∧ accept.Agrees accept') ∧
    (∀ (h h' : Handshake) (payload : List UInt8), h.signingPayload = .ok payload →
      h'.signingPayload = .ok payload → h.SignedAgree h') ∧
    (∀ (secret remoteSecret : Key) (hello accept : VerifiedHandshake SocketAddr)
      (keys : SessionKeys), hello.ephemeralPublicKey = env.publicKey secret →
      accept.ephemeralPublicKey = env.publicKey remoteSecret →
        (SessionKeys.derive env .initiator secret hello accept = .ok keys ↔
          SessionKeys.derive env .responder remoteSecret accept hello
            = .ok ⟨keys.opening, keys.sealing⟩)) ∧
    ∀ derivations : Set Derivation, env.InjectiveOn derivations →
      (∀ d ∈ derivations, d.InRange) → ∀ d ∈ derivations, ∀ d' ∈ derivations,
      ∀ keys keys', d.keys env = .ok keys → d'.keys env = .ok keys' →
        (keys.sealing = keys'.sealing → d.Same d') ∧ (keys.opening = keys'.opening → d.Same d') ∧
          (keys.sealing = keys'.opening → d.Opposite d') := by
  refine ⟨?_, fun h h' payload => Handshake.signingPayload_inj, ?_, ?_⟩
  · intro hello accept hello' accept' hhello haccept hhello' haccept' _ hkind _ hkind'
    exact transcriptBytes_inj henv hhello haccept hhello' haccept' hkind hkind'
  · intro secret remoteSecret hello accept keys hhello haccept
    exact derive_swap hhello haccept keys
  · intro derivations hinjective hrange d hd d' hd' keys keys' hkeys hkeys'
    obtain ⟨-, haccept, -, hseal, hopen⟩ := Derivation.keys_eq_ok.mp hkeys
    obtain ⟨-, haccept', -, hseal', hopen'⟩ := Derivation.keys_eq_ok.mp hkeys'
    have hsender : ∀ {sender sender' key}, d.expand env sender = some key →
        d'.expand env sender' = some key → _ :=
      fun h h' => sender_eq_of_expand henv hinjective hrange hd hd' haccept haccept' h h'
    refine ⟨fun heq => ?_, fun heq => ?_, fun heq => ?_⟩
    · rw [← heq] at hseal'
      obtain ⟨hrole, hagree⟩ := hsender hseal hseal'
      exact Derivation.same_of_agrees hrole hagree.1 hagree.2
    · rw [← heq] at hopen'
      obtain ⟨hrole, hagree⟩ := hsender hopen hopen'
      exact Derivation.same_of_agrees (SessionRole.other_inj hrole) hagree.1 hagree.2
    · rw [← heq] at hopen'
      obtain ⟨hrole, hagree⟩ := hsender hseal hopen'
      exact Derivation.opposite_of_agrees hrole hagree.1 hagree.2

/-! ## Two sessions -/

def sampleDigest (start : Key) (bytes : List UInt8) : Key :=
  bytes.foldl (fun hash byte => 257 * hash + Fin.ofNat _ (byte.toNat + 1)) start

def sampleAgreement : KeyPlatform SocketAddr where
  publicKey secret := secret
  diffieHellman secret publicKey := secret * publicKey
  diffieHellman_comm a b := Fin.mul_comm a b
  sha256 bytes := sampleDigest 0 bytes
  hkdfExpand salt secret info := some (sampleDigest (salt + secret) info)
  endpointText := SocketAddr.text

/-- What the side with the given role derives after an Accept with the given nonce. -/
def sampleDerivation (role : SessionRole) (nonce : ℕ) : Derivation :=
  let hello : VerifiedHandshake SocketAddr := ⟨.hello, 1, 3, 7, 11, 1280, .v4 0x7f000001 51820⟩
  let accept : VerifiedHandshake SocketAddr := ⟨.accept, 2, 5, 8, nonce, 1280, .v6 1 51820 0 4⟩
  match role with
  | .initiator => ⟨.initiator, 3, hello, accept⟩
  | .responder => ⟨.responder, 5, accept, hello⟩

def sampleDerivations : List Derivation :=
  [sampleDerivation .initiator 12, sampleDerivation .responder 12, sampleDerivation .initiator 13]

lemma sampleAgreement_injectiveOn : sampleAgreement.InjectiveOn {d | d ∈ sampleDerivations} := by
  have hexpand : ∀ d ∈ sampleDerivations, ∀ d' ∈ sampleDerivations,
      ∀ sender ∈ [SessionRole.initiator, .responder], ∀ sender' ∈ [SessionRole.initiator, .responder],
      d.expand sampleAgreement sender = d'.expand sampleAgreement sender' →
        sampleAgreement.sha256 (d.transcript sampleAgreement)
          = sampleAgreement.sha256 (d'.transcript sampleAgreement) ∧
        sender.direction.toUTF8.toList = sender'.direction.toUTF8.toList := by
    decide +kernel
  have hsender : ∀ sender : SessionRole, sender ∈ [SessionRole.initiator, .responder] := by
    intro sender
    cases sender <;> decide
  have hhash : ∀ d ∈ sampleDerivations, ∀ d' ∈ sampleDerivations,
      sampleAgreement.sha256 (d.transcript sampleAgreement)
        = sampleAgreement.sha256 (d'.transcript sampleAgreement) →
      d.transcript sampleAgreement = d'.transcript sampleAgreement := by
    decide +kernel
  refine ⟨hhash, fun d hd d' hd' sender sender' key hkey hkey' => ?_⟩
  exact hexpand d hd d' hd' sender (hsender sender) sender' (hsender sender')
    (hkey.trans hkey'.symm)

/-- The keys of two sessions with different nonces are different. -/
theorem sample_agreements_differ :
    ∃ keys keys', (sampleDerivation .initiator 12).keys sampleAgreement = .ok keys ∧
      (sampleDerivation .initiator 13).keys sampleAgreement = .ok keys' ∧
      keys.sealing ≠ keys'.sealing ∧ keys.opening ≠ keys'.opening ∧
      keys.sealing ≠ keys'.opening := by
  have hkeys : ∀ nonce ∈ [12, 13], ∃ keys,
      (sampleDerivation .initiator nonce).keys sampleAgreement = .ok keys := by
    intro nonce hnonce
    refine ⟨⟨_, _⟩, Derivation.keys_eq_ok.mpr ⟨rfl, rfl, ?_, rfl, rfl⟩⟩
    change (3 : Key) * 5 ≠ 0
    decide
  obtain ⟨keys, hok⟩ := hkeys 12 (by simp)
  obtain ⟨keys', hok'⟩ := hkeys 13 (by simp)
  have hrange : ∀ d ∈ {d | d ∈ sampleDerivations}, d.InRange := by
    intro d hd
    replace hd : d ∈ sampleDerivations := hd
    simp only [sampleDerivations, List.mem_cons, List.not_mem_nil, or_false] at hd
    rcases hd with rfl | rfl | rfl <;>
      exact ⟨⟨by decide, by decide, by decide⟩, ⟨by decide, by decide, by decide⟩⟩
  obtain ⟨hsealing, hopening, hcross⟩ := (key_agreement_injective sampleAgreement rfl).2.2.2
    {d | d ∈ sampleDerivations} sampleAgreement_injectiveOn hrange _ (by simp [sampleDerivations])
    _ (by simp [sampleDerivations]) keys keys' hok hok'
  have hnonce : ¬ (sampleDerivation .initiator 12).remote.Agrees
      (sampleDerivation .initiator 13).remote := fun h => absurd h.nonce (by decide)
  exact ⟨keys, keys', hok, hok', fun h => hnonce (hsealing h).remote,
    fun h => hnonce (hopening h).remote, fun h => (hcross h).role rfl⟩

end P2pVpn.PacketPlane
