/-
# Handshakes in bytes

A handshake is sent as a magic number, fields of fixed width, and four fields with their length before
them.  What `encode` writes is read back by `decode`, no strict beginning and no strict extension of
it is, and whatever `decode` is given, it returns (`handshake_codec_exact`).  What a peer signs
determines all fields but the signature (`Handshake.signingPayload_inj`).
-/
import P2pVpn.Lib.Cursor
import P2pVpn.Net.SocketAddr
import P2pVpn.PacketPlane.Session
import P2pVpn.Wire.Frame

namespace P2pVpn.PacketPlane

open Lib Net Wire

def handshakeMagic : List UInt8 := "p2pvpnH1".toUTF8.toList
def handshakeSigningDomain : List UInt8 := "p2p-vpn packet-plane handshake v1".toUTF8.toList

/-- `PacketPlaneHandshake`. -/
structure Handshake where
  kind : HandshakeKind
  networkName : String
  publicKey : List UInt8
  ephemeralPublicKey : Key
  sessionId : UInt32
  nonce : UInt64
  mtu : UInt16
  endpoint : SocketAddr
  signature : List UInt8
deriving DecidableEq, Repr

/-- `PacketPlaneHandshakeError`, without the errors of the identity. -/
inductive HandshakeError where
  | invalidMagic
  | truncated (actual expected : ℕ)
  | trailingBytes (remaining : ℕ)
  | unsupportedVersion (version : UInt8)
  | unknownKind (byte : UInt8)
  | invalidUtf8
  | invalidEndpoint
  | fieldTooLarge (actual max : ℕ)
deriving DecidableEq, Repr

/-! ## Writing -/

/-- A field after its length. -/
def lenPrefixed (value : List UInt8) : List UInt8 := toBeBytes 2 value.length ++ value

/-- `encode_len_prefixed`. -/
def encodeLenPrefixed (out value : List UInt8) : Except HandshakeError (List UInt8) :=
  if value.length ≤ 65535 then .ok (out ++ lenPrefixed value)
  else .error (.fieldTooLarge value.length 65535)

namespace Handshake

def encode (h : Handshake) : Except HandshakeError (List UInt8) := do
  let out := handshakeMagic ++ [wireVersion] ++ [h.kind.byte] ++ toBeBytes 4 h.sessionId.toNat ++
    toBeBytes 8 h.nonce.toNat ++ toBeBytes 2 h.mtu.toNat ++ toBeBytes 32 h.ephemeralPublicKey.val
  let out ← encodeLenPrefixed out h.networkName.toUTF8.toList
  let out ← encodeLenPrefixed out h.endpoint.text.toUTF8.toList
  let out ← encodeLenPrefixed out h.publicKey
  encodeLenPrefixed out h.signature

/-- `handshake_signing_payload`, of the fields of a handshake. -/
def signingPayload (h : Handshake) : Except HandshakeError (List UInt8) := do
  let out := handshakeSigningDomain ++ [wireVersion] ++ [h.kind.byte] ++
    toBeBytes 4 h.sessionId.toNat ++ toBeBytes 8 h.nonce.toNat ++ toBeBytes 2 h.mtu.toNat ++
    toBeBytes 32 h.ephemeralPublicKey.val
  let out ← encodeLenPrefixed out h.networkName.toUTF8.toList
  let out ← encodeLenPrefixed out h.endpoint.text.toUTF8.toList
  encodeLenPrefixed out h.publicKey

end Handshake

/-! ## Reading -/

namespace HandshakeCursor

def take (len : ℕ) : Reader HandshakeError (List UInt8) := Reader.take .truncated len

def takeMagic (expected : List UInt8) : Reader HandshakeError Unit := do
  let bytes ← take expected.length
  Reader.require (bytes = expected) .invalidMagic

def takeU8 : Reader HandshakeError UInt8 := Reader.takeByte .truncated

def takeU16 : Reader HandshakeError UInt16 := Reader.takeAs .truncated 2 UInt16.ofNat

def takeU32 : Reader HandshakeError UInt32 := Reader.takeAs .truncated 4 UInt32.ofNat

def takeU64 : Reader HandshakeError UInt64 := Reader.takeAs .truncated 8 UInt64.ofNat

def takeLenPrefixed : Reader HandshakeError (List UInt8) := Reader.takeLenPrefixed .truncated

def takeX25519PublicKey : Reader HandshakeError Key :=
  Reader.takeAs .truncated 32 (Fin.ofNat (2 ^ 256))

end HandshakeCursor

/-- `PacketPlaneHandshakeKind::try_from`. -/
def HandshakeKind.tryFrom (byte : UInt8) : Reader HandshakeError HandshakeKind :=
  if byte = 1 then pure .hello
  else if byte = 2 then pure .accept
  else Reader.refuse (.unknownKind byte)

open HandshakeCursor in
/-- What `decode` does with its cursor. -/
def Handshake.reader : Reader HandshakeError Handshake := do
  takeMagic handshakeMagic
  let version ← takeU8
  Reader.require (version = wireVersion) (.unsupportedVersion version)
  let kind ← takeU8
  let kind ← HandshakeKind.tryFrom kind
  let sessionId ← takeU32
  let nonce ← takeU64
  let mtu ← takeU16
  let ephemeralPublicKey ← takeX25519PublicKey
  let networkName ← takeLenPrefixed
  let networkName ← Reader.ofOption .invalidUtf8 (ofUtf8? networkName)
  let endpoint ← takeLenPrefixed
  let endpoint ← Reader.ofOption .invalidUtf8 (ofUtf8? endpoint)
  let endpoint ← Reader.ofOption .invalidEndpoint (parseSocketAddr endpoint)
  let publicKey ← takeLenPrefixed
  let signature ← takeLenPrefixed
  pure
    { kind := kind
      networkName := networkName
      publicKey := publicKey
      ephemeralPublicKey := ephemeralPublicKey
      sessionId := sessionId
      nonce := nonce
      mtu := mtu
      endpoint := endpoint
      signature := signature }

def Handshake.decode (input : List UInt8) : Except (Fault HandshakeError) Handshake :=
  Handshake.reader.readAll .trailingBytes input

/-! ## Each step of the reader -/

section Steps

open Reader HandshakeCursor

lemma consumes_takeMagic (expected : List UInt8) : Consumes (takeMagic expected) expected () := by
  have h : Consumes (takeMagic expected) (expected ++ []) () :=
    (consumes_take HandshakeError.truncated expected).bind (consumes_require rfl)
  rwa [List.append_nil] at h

lemma proper_takeMagic (expected : List UInt8) : Proper (takeMagic expected) :=
  (proper_take HandshakeError.truncated expected.length).bind fun _ _ _ => proper_require _ _

lemma HandshakeKind.consumes_tryFrom (kind : HandshakeKind) :
    Consumes (tryFrom kind.byte) [] kind := by
  cases kind
  · exact consumes_pure HandshakeKind.hello
  · exact consumes_pure HandshakeKind.accept

lemma HandshakeKind.proper_tryFrom (byte : UInt8) : Proper (tryFrom byte) := by
  rw [tryFrom]
  split_ifs
  · exact proper_pure _
  · exact proper_pure _
  · exact proper_refuse _

/-- Whatever the input, the reader takes bytes or refuses. -/
lemma Handshake.proper_reader : Proper Handshake.reader := by
  refine (proper_takeMagic _).bind fun _ _ _ => ?_
  refine (proper_takeByte _).bind fun _ _ _ => ?_
  refine (proper_require _ _).bind fun _ _ _ => ?_
  refine (proper_takeByte _).bind fun _ _ _ => ?_
  refine (HandshakeKind.proper_tryFrom _).bind fun _ _ _ => ?_
  refine (proper_takeAs _ _ _).bind fun _ _ _ => ?_
  refine (proper_takeAs _ _ _).bind fun _ _ _ => ?_
  refine (proper_takeAs _ _ _).bind fun _ _ _ => ?_
  refine (proper_takeAs _ _ _).bind fun _ _ _ => ?_
  refine (proper_takeLenPrefixed _).bind fun _ _ _ => ?_
  refine (proper_ofOption _ _).bind fun _ _ _ => ?_
  refine (proper_takeLenPrefixed _).bind fun _ _ _ => ?_
  refine (proper_ofOption _ _).bind fun _ _ _ => ?_
  refine (proper_ofOption _ _).bind fun _ _ _ => ?_
  refine (proper_takeLenPrefixed _).bind fun _ _ _ => ?_
  refine (proper_takeLenPrefixed _).bind fun _ _ _ => ?_
  exact proper_pure _

end Steps

/-! ## What is written is read back -/

lemma encodeLenPrefixed_eq_ok {out value bytes : List UInt8} :
    encodeLenPrefixed out value = .ok bytes ↔
      value.length ≤ 65535 ∧ bytes = out ++ lenPrefixed value := by
  rw [encodeLenPrefixed]
  split_ifs with h
  · simp [h, eq_comm]
  · simp [h]

/-- The fields that are signed, after the text that says what they are for. -/
def Handshake.signedFields (h : Handshake) : List UInt8 :=
  [wireVersion] ++ ([h.kind.byte] ++ (toBeBytes 4 h.sessionId.toNat ++ (toBeBytes 8 h.nonce.toNat ++
    (toBeBytes 2 h.mtu.toNat ++ (toBeBytes 32 h.ephemeralPublicKey.val ++
      (lenPrefixed h.networkName.toUTF8.toList ++ (lenPrefixed h.endpoint.text.toUTF8.toList ++
        lenPrefixed h.publicKey)))))))

namespace Handshake

variable {h : Handshake} {bytes : List UInt8}

/-- The fields are short enough for their lengths to be written. -/
structure Fits (h : Handshake) : Prop where
  networkName : h.networkName.toUTF8.toList.length ≤ 65535
  publicKey : h.publicKey.length ≤ 65535

lemma signingPayload_eq_ok :
    h.signingPayload = .ok bytes ↔ h.Fits ∧ bytes = handshakeSigningDomain ++ h.signedFields := by
  have hendpoint := Nat.le_of_lt_succ h.endpoint.length_bytes_lt
  simp only [signingPayload, bind_eq_ok, encodeLenPrefixed_eq_ok, signedFields]
  constructor
  · rintro ⟨_, ⟨hname, rfl⟩, _, ⟨-, rfl⟩, hkey, rfl⟩
    exact ⟨⟨hname, hkey⟩, by simp only [List.append_assoc]⟩
  · rintro ⟨⟨hname, hkey⟩, rfl⟩
    exact ⟨_, ⟨hname, rfl⟩, _, ⟨hendpoint, rfl⟩, hkey, by simp only [List.append_assoc]⟩

lemma encode_eq_ok :
    h.encode = .ok bytes ↔ h.Fits ∧ h.signature.length ≤ 65535 ∧
      bytes = handshakeMagic ++ (h.signedFields ++ lenPrefixed h.signature) := by
  have hendpoint := Nat.le_of_lt_succ h.endpoint.length_bytes_lt
  simp only [encode, bind_eq_ok, encodeLenPrefixed_eq_ok, signedFields]
  constructor
  · rintro ⟨_, ⟨hname, rfl⟩, _, ⟨-, rfl⟩, _, ⟨hkey, rfl⟩, hsignature, rfl⟩
    exact ⟨⟨hname, hkey⟩, hsignature, by simp only [List.append_assoc]⟩
  · rintro ⟨⟨hname, hkey⟩, hsignature, rfl⟩
    exact ⟨_, ⟨hname, rfl⟩, _, ⟨hendpoint, rfl⟩, _, ⟨hkey, rfl⟩, hsignature,
      by simp only [List.append_assoc]⟩

open Reader HandshakeCursor in
lemma consumes_reader (hflow : h.endpoint.FlowFree) (hencode : h.encode = .ok bytes) :
    Consumes reader bytes h := by
  obtain ⟨hfits, hsignature, rfl⟩ := encode_eq_ok.mp hencode
  have hfield : ∀ {value : List UInt8}, value.length ≤ 65535 →
      Consumes takeLenPrefixed (lenPrefixed value) value :=
    fun hle => consumes_takeLenPrefixed _ (Nat.lt_succ_of_le hle)
  have hname : Consumes (ofOption HandshakeError.invalidUtf8
      (ofUtf8? h.networkName.toUTF8.toList)) [] h.networkName := by
    rw [ofUtf8?_toUTF8]
    exact consumes_pure h.networkName
  have hendpoint : Consumes (ofOption HandshakeError.invalidUtf8
      (ofUtf8? h.endpoint.text.toUTF8.toList)) [] h.endpoint.text := by
    rw [ofUtf8?_toUTF8]
    exact consumes_pure h.endpoint.text
  have hparse : Consumes (ofOption HandshakeError.invalidEndpoint (parseSocketAddr h.endpoint.text)) []
      h.endpoint := by
    rw [parseSocketAddr_text hflow]
    exact consumes_pure h.endpoint
  simp only [signedFields, List.append_assoc]
  refine (consumes_takeMagic _).bind ?_
  refine (consumes_takeByte _ _).bind ?_
  refine (consumes_require rfl).pure_bind ?_
  refine (consumes_takeByte _ _).bind ?_
  refine h.kind.consumes_tryFrom.pure_bind ?_
  refine (consumes_takeAs _ (UInt32.toNat_lt _) UInt32.ofNat_toNat).bind ?_
  refine (consumes_takeAs _ (UInt64.toNat_lt _) UInt64.ofNat_toNat).bind ?_
  refine (consumes_takeAs _ (UInt16.toNat_lt _) UInt16.ofNat_toNat).bind ?_
  refine (consumes_takeAs _ (Fin.isLt _) (Fin.ofNat_val_eq_self _)).bind ?_
  refine (hfield hfits.networkName).bind ?_
  refine hname.pure_bind ?_
  refine (hfield (Nat.le_of_lt_succ h.endpoint.length_bytes_lt)).bind ?_
  refine hendpoint.pure_bind ?_
  refine hparse.pure_bind ?_
  refine (hfield hfits.publicKey).bind ?_
  exact (hfield hsignature).map _

end Handshake

/-! ## What is signed -/

lemma HandshakeKind.byte_inj {a b : HandshakeKind} (h : a.byte = b.byte) : a = b := by
  cases a <;> cases b <;> first | rfl | exact absurd h (by decide)

lemma lenPrefixed_append_inj {a a' b b' : List UInt8} (ha : a.length ≤ 65535)
    (ha' : a'.length ≤ 65535) (h : lenPrefixed a ++ b = lenPrefixed a' ++ b') : a = a' ∧ b = b' := by
  simp only [lenPrefixed, List.append_assoc] at h
  obtain ⟨hcount, h⟩ := List.append_inj h (by simp)
  have hlength : a.length = a'.length :=
    toBeBytes_inj (Nat.lt_succ_of_le ha) (Nat.lt_succ_of_le ha') hcount
  exact List.append_inj h hlength

/-- All fields that are signed agree; endpoints are compared by their texts. -/
structure Handshake.SignedAgree (h h' : Handshake) : Prop where
  kind : h.kind = h'.kind
  networkName : h.networkName = h'.networkName
  publicKey : h.publicKey = h'.publicKey
  ephemeralPublicKey : h.ephemeralPublicKey = h'.ephemeralPublicKey
  sessionId : h.sessionId = h'.sessionId
  nonce : h.nonce = h'.nonce
  mtu : h.mtu = h'.mtu
  endpoint : h.endpoint.text = h'.endpoint.text

lemma Handshake.signedAgree_of_signedFields {h h' : Handshake} (hfits : h.Fits) (hfits' : h'.Fits)
    (heq : h.signedFields = h'.signedFields) : h.SignedAgree h' := by
  unfold Handshake.signedFields at heq
  obtain ⟨-, heq⟩ := List.append_inj heq rfl
  obtain ⟨hkind, heq⟩ := List.append_inj heq rfl
  obtain ⟨hsession, heq⟩ := List.append_inj heq (by simp)
  obtain ⟨hnonce, heq⟩ := List.append_inj heq (by simp)
  obtain ⟨hmtu, heq⟩ := List.append_inj heq (by simp)
  obtain ⟨hkey, heq⟩ := List.append_inj heq (by simp)
  obtain ⟨hname, heq⟩ := lenPrefixed_append_inj hfits.networkName hfits'.networkName heq
  obtain ⟨hendpoint, heq⟩ := lenPrefixed_append_inj (Nat.le_of_lt_succ h.endpoint.length_bytes_lt)
    (Nat.le_of_lt_succ h'.endpoint.length_bytes_lt) heq
  have hpublic : lenPrefixed h.publicKey ++ [] = lenPrefixed h'.publicKey ++ [] := by rw [heq]
  exact
    { kind := HandshakeKind.byte_inj (List.cons.inj hkind).1
      networkName := toUTF8_toList_inj hname
      publicKey := (lenPrefixed_append_inj hfits.publicKey hfits'.publicKey hpublic).1
      ephemeralPublicKey :=
        Fin.ext (toBeBytes_inj h.ephemeralPublicKey.isLt h'.ephemeralPublicKey.isLt hkey)
      sessionId := UInt32.toNat_inj.mp
        (toBeBytes_inj h.sessionId.toNat_lt h'.sessionId.toNat_lt hsession)
      nonce := UInt64.toNat_inj.mp (toBeBytes_inj h.nonce.toNat_lt h'.nonce.toNat_lt hnonce)
      mtu := UInt16.toNat_inj.mp (toBeBytes_inj h.mtu.toNat_lt h'.mtu.toNat_lt hmtu)
      endpoint := toUTF8_toList_inj hendpoint }

/-- What is signed determines every field but the signature. -/
lemma Handshake.signingPayload_inj {h h' : Handshake} {payload : List UInt8}
    (hpayload : h.signingPayload = .ok payload) (hpayload' : h'.signingPayload = .ok payload) :
    h.SignedAgree h' := by
  obtain ⟨hfits, rfl⟩ := Handshake.signingPayload_eq_ok.mp hpayload
  obtain ⟨hfits', heq⟩ := Handshake.signingPayload_eq_ok.mp hpayload'
  exact Handshake.signedAgree_of_signedFields hfits hfits' (List.append_cancel_left heq)

/-! ## The codec -/

/-- **The codec of handshakes is exact.**  A handshake is not encoded exactly when one of its fields
is too long for its length to be written.  Otherwise it is read back, unless its endpoint has flow
information, and neither a strict beginning nor a strict extension of its bytes is decoded.  Any input
is decoded or refused: there is no panic, and no byte is read beyond the end. -/
theorem handshake_codec_exact :
    (∀ h : Handshake, (∃ e, h.encode = .error e) ↔ 65535 < h.networkName.toUTF8.toList.length ∨
      65535 < h.publicKey.length ∨ 65535 < h.signature.length) ∧
    (∀ (h : Handshake) (bytes : List UInt8), h.endpoint.FlowFree → h.encode = .ok bytes →
      Handshake.decode bytes = .ok h ∧
      (∀ before more, more ≠ [] → before ++ more = bytes →
        ∃ e, Handshake.decode before = .error (.error e)) ∧
      ∀ more, more ≠ [] → ∃ e, Handshake.decode (bytes ++ more) = .error (.error e)) ∧
    ∀ input, (∃ h, Handshake.decode input = .ok h) ∨
      ∃ e, Handshake.decode input = .error (.error e) := by
  refine ⟨fun h => ?_, fun h bytes hflow hencode => ?_, fun input => ?_⟩
  · constructor
    · rintro ⟨e, he⟩
      by_contra hshort
      have hok := Handshake.encode_eq_ok.mpr
        ⟨⟨by omega, by omega⟩, (by omega : h.signature.length ≤ 65535), rfl⟩
      rw [he] at hok
      cases hok
    · intro hlong
      cases hencode : h.encode with
      | error e => exact ⟨e, rfl⟩
      | ok bytes =>
        obtain ⟨⟨hname, hkey⟩, hsignature, -⟩ := Handshake.encode_eq_ok.mp hencode
        omega
  · have hconsumes := Handshake.consumes_reader hflow hencode
    have hread := hconsumes.readAll HandshakeError.trailingBytes
    refine ⟨hread, ?_, fun more hmore => ⟨_, hconsumes.readAll_append _ hmore⟩⟩
    rintro before more hmore rfl
    exact Handshake.proper_reader.readAll_of_append _ hmore hread
  · rcases Handshake.proper_reader.readAll HandshakeError.trailingBytes input with herror | ⟨h, hok, -⟩
    · exact .inr herror
    · exact .inl ⟨h, hok⟩

/-- A Hello from an IPv6 endpoint with a scope. -/
def sampleHandshake : Handshake :=
  ⟨.hello, "home", [1, 2, 3], 9, 7, 11, 1280, .v6 1 51820 0 4, [5, 6]⟩

/-- The sample is read back, and nothing shorter is read. -/
theorem sample_handshake_read_back :
    ∃ bytes, sampleHandshake.encode = .ok bytes ∧ Handshake.decode bytes = .ok sampleHandshake ∧
      ∀ before more, more ≠ [] → before ++ more = bytes →
        ∃ e, Handshake.decode before = .error (.error e) := by
  have hencode := Handshake.encode_eq_ok.mpr ⟨⟨(by decide +kernel :
    sampleHandshake.networkName.toUTF8.toList.length ≤ 65535), by decide⟩, by decide, rfl⟩
  obtain ⟨hread, hbefore, -⟩ := handshake_codec_exact.2.1 sampleHandshake _ rfl hencode
  exact ⟨_, hencode, hread, hbefore⟩

end P2pVpn.PacketPlane
