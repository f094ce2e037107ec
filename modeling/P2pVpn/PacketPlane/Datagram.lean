/-
# Datagrams

A frame is sealed into a datagram: a header of 24 bytes with the ids of the frame and the length of the
ciphertext, and the encrypted frame, which is bound to the header.  The cipher is ideal, and the state
of the system is the log of all encryptions.  A frame is sealed exactly when its header has the length
of its payload and the datagram fits into UDP (`sealFrame_eq_ok`); it is opened again, and nothing is
opened that was not sealed (`datagrams_authentic`).
-/
import P2pVpn.Lib.IdealAead
import P2pVpn.PacketPlane.Session
import P2pVpn.Wire.Frame

namespace P2pVpn.PacketPlane.Datagram

open Lib Wire

def datagramMagic : List UInt8 := "p2pvpnD1".toUTF8.toList
def datagramHeaderLen : ℕ := 24
def aeadTagLen : ℕ := 16
def maxUdpDatagramLen : ℕ := 65535
def datagramOverheadLen : ℕ := datagramHeaderLen + aeadTagLen + headerLen
def packetPlaneMaxPayloadLen : ℕ := maxUdpDatagramLen - datagramOverheadLen

/-- The errors of sealing and opening in `PacketPlaneDatagramError`. -/
inductive Error where
  | encrypt
  | decrypt
  | invalidMagic
  | truncated (actual expected : ℕ)
  | unsupportedVersion (version : UInt8)
  | ciphertextTooLarge (actual max : ℕ)
  | payloadTooLarge (actual max : ℕ)
  | frameDecode (error : DecodeError)
  | frameLengthMismatch (headerLen : UInt16) (payloadLen : ℕ)
  | headerMismatch (outerSessionId : UInt32) (outerSequence : UInt64) (innerSessionId : UInt32)
      (innerSequence : UInt64)
  | trailingBytes (remaining : ℕ)
deriving DecidableEq, Repr

/-- `PacketPlaneDatagramHeader`. -/
structure OuterHeader where
  sessionId : UInt32
  sequence : UInt64
  ciphertextLen : UInt16
deriving DecidableEq, Repr

/-- ChaCha20-Poly1305, which encrypts up to `2 ^ 32 - 1` blocks of 64 bytes, as an ideal cipher. -/
abbrev ChaCha20Poly1305 : Type := IdealAead Key aeadTagLen (64 * (2 ^ 32 - 1))

/-! ## The program -/

variable (sessionId : UInt32) (sequence : UInt64)

def encodeDatagramHeader (ciphertextLen : UInt16) : List UInt8 :=
  datagramMagic ++ [wireVersion] ++ [0] ++ toBeBytes 4 sessionId.toNat ++
    toBeBytes 8 sequence.toNat ++ toBeBytes 2 ciphertextLen.toNat

def decodeDatagramHeader (datagram : List UInt8) : Except Error (OuterHeader × List UInt8) := do
  refuseIf (datagram.length < datagramHeaderLen) (.truncated datagram.length datagramHeaderLen)
  refuseIf (datagram.take datagramMagic.length ≠ datagramMagic) .invalidMagic
  let version := datagram.getD 8 0
  refuseIf (version ≠ wireVersion) (.unsupportedVersion version)
  let sessionId := UInt32.ofNat (fromBeBytes (slice 10 14 datagram))
  let sequence := UInt64.ofNat (fromBeBytes (slice 14 22 datagram))
  let ciphertextLen := UInt16.ofNat (fromBeBytes (slice 22 24 datagram))
  let actual := datagram.length - datagramHeaderLen
  refuseIf (actual < ciphertextLen.toNat) (.truncated actual ciphertextLen.toNat)
  refuseIf (actual > ciphertextLen.toNat) (.trailingBytes (actual - ciphertextLen.toNat))
  pure (⟨sessionId, sequence, ciphertextLen⟩, datagram.drop datagramHeaderLen)

def datagramNonce : List UInt8 :=
  toBeBytes 4 sessionId.toNat ++ toBeBytes 8 sequence.toNat

def decodePlainFrame (plaintext : List UInt8) (max : ℕ) : Except Error Wire.Frame := do
  refuseIf (plaintext.length < headerLen) (.truncated plaintext.length headerLen)
  let header ← (Header.decode (plaintext.take headerLen)).mapError .frameDecode
  let payloadLen := header.payloadLen.toNat
  refuseIf (payloadLen > min max maxPayloadLen) (.payloadTooLarge payloadLen (min max maxPayloadLen))
  let expected := headerLen + payloadLen
  refuseIf (plaintext.length < expected)
    (.frameLengthMismatch header.payloadLen (plaintext.length - headerLen))
  refuseIf (plaintext.length > expected) (.trailingBytes (plaintext.length - expected))
  pure ⟨header, plaintext.drop headerLen⟩

/-- `seal_frame`, with the log of the cipher. -/
def sealFrame (aead : ChaCha20Poly1305) (log : List (Encryption Key)) (key : Key)
    (frame : Wire.Frame) : Except Error (List UInt8 × List (Encryption Key)) := do
  let payloadLen := frame.payload.length
  refuseIf (payloadLen ≠ frame.header.payloadLen.toNat)
    (.frameLengthMismatch frame.header.payloadLen payloadLen)
  refuseIf (payloadLen > packetPlaneMaxPayloadLen)
    (.payloadTooLarge payloadLen packetPlaneMaxPayloadLen)
  let plaintext := frame.encode
  refuseIf (plaintext.length + aeadTagLen > 65535)
    (.ciphertextTooLarge (plaintext.length + aeadTagLen) 65535)
  let ciphertextLen := UInt16.ofNat (plaintext.length + aeadTagLen)
  refuseIf (datagramHeaderLen + ciphertextLen.toNat > maxUdpDatagramLen)
    (.payloadTooLarge payloadLen packetPlaneMaxPayloadLen)
  let out := encodeDatagramHeader frame.header.sessionId frame.header.sequence ciphertextLen
  let nonce := datagramNonce frame.header.sessionId frame.header.sequence
  match aead.encrypt log ⟨key, nonce, out, plaintext⟩ with
  | none => throw .encrypt
  | some (ciphertext, log) => pure (out ++ ciphertext, log)

/-- `open_frame`. -/
def openFrame (aead : ChaCha20Poly1305) (log : List (Encryption Key)) (key : Key)
    (datagram : List UInt8) (max : ℕ) : Except Error Wire.Frame := do
  let (outer, ciphertext) ← decodeDatagramHeader datagram
  let nonce := datagramNonce outer.sessionId outer.sequence
  match aead.decrypt log key nonce (datagram.take datagramHeaderLen) ciphertext with
  | none => throw .decrypt
  | some plaintext => do
      let frame ← decodePlainFrame plaintext max
      refuseIf (frame.header.sessionId ≠ outer.sessionId ∨ frame.header.sequence ≠ outer.sequence)
        (.headerMismatch outer.sessionId outer.sequence frame.header.sessionId frame.header.sequence)
      pure frame

/-! ## Headers and nonces -/

@[simp] lemma length_datagramMagic : datagramMagic.length = 8 := by decide +kernel

@[simp] lemma length_encodeDatagramHeader (ciphertextLen : UInt16) :
    (encodeDatagramHeader sessionId sequence ciphertextLen).length = datagramHeaderLen := by
  simp [encodeDatagramHeader, datagramHeaderLen]

lemma decodeDatagramHeader_encode {ciphertextLen : UInt16} {ciphertext : List UInt8}
    (hlen : ciphertext.length = ciphertextLen.toNat) :
    decodeDatagramHeader (encodeDatagramHeader sessionId sequence ciphertextLen ++ ciphertext)
      = .ok (⟨sessionId, sequence, ciphertextLen⟩, ciphertext) := by
  set datagram := encodeDatagramHeader sessionId sequence ciphertextLen ++ ciphertext with hdatagram
  have hparts : datagram = datagramMagic ++ ([wireVersion] ++ [0] ++ (toBeBytes 4 sessionId.toNat ++
      (toBeBytes 8 sequence.toNat ++ (toBeBytes 2 ciphertextLen.toNat ++ ciphertext)))) := by
    simp only [hdatagram, encodeDatagramHeader, List.append_assoc]
  have hlength : datagram.length = datagramHeaderLen + ciphertext.length := by
    rw [hdatagram, List.length_append, length_encodeDatagramHeader]
  have hmagic : datagram.take datagramMagic.length = datagramMagic := by
    rw [hparts, List.take_left]
  have hversion : datagram.getD 8 0 = wireVersion := by
    rw [hparts, List.getD_eq_getElem?_getD, List.getElem?_append_right (by simp),
      length_datagramMagic]
    rfl
  have hsession : slice 10 14 datagram = toBeBytes 4 sessionId.toNat := by
    rw [hparts, ← List.append_assoc]
    exact slice_append _ (by simp) (by simp)
  have hsequence : slice 14 22 datagram = toBeBytes 8 sequence.toNat := by
    rw [hparts, ← List.append_assoc, ← List.append_assoc]
    exact slice_append _ (by simp) (by simp)
  have hlen' : slice 22 24 datagram = toBeBytes 2 ciphertextLen.toNat := by
    rw [hparts, ← List.append_assoc, ← List.append_assoc, ← List.append_assoc]
    exact slice_append _ (by simp) (by simp)
  have hdrop : datagram.drop datagramHeaderLen = ciphertext := by
    rw [hdatagram, List.drop_left' (length_encodeDatagramHeader _ _ _)]
  have hrest : datagram.length - datagramHeaderLen = ciphertextLen.toNat := by omega
  have hlong : ¬ datagram.length < datagramHeaderLen := by omega
  simp only [decodeDatagramHeader, hmagic, hversion, hsession, hsequence, hlen', hdrop, hrest,
    uint16_fromBeBytes, uint32_fromBeBytes, uint64_fromBeBytes, refuseIf, if_neg hlong,
    Nat.lt_irrefl, gt_iff_lt, ne_eq, not_true_eq_false, if_false]
  rfl

lemma datagramNonce_inj {sessionId sessionId' : UInt32} {sequence sequence' : UInt64}
    (h : datagramNonce sessionId sequence = datagramNonce sessionId' sequence') :
    sessionId = sessionId' ∧ sequence = sequence' := by
  obtain ⟨hsession, hsequence⟩ := List.append_inj h (by simp)
  exact ⟨UInt32.toNat_inj.mp (toBeBytes_inj sessionId.toNat_lt sessionId'.toNat_lt hsession),
    UInt64.toNat_inj.mp (toBeBytes_inj sequence.toNat_lt sequence'.toNat_lt hsequence)⟩

/-! ## Frames -/

@[simp] lemma length_encode (frame : Wire.Frame) :
    frame.encode.length = headerLen + frame.payload.length := by
  simp [Frame.encode]

lemma take_encode (frame : Wire.Frame) : frame.encode.take headerLen = frame.header.encode :=
  List.take_left' (Header.length_encode _)

lemma drop_encode (frame : Wire.Frame) : frame.encode.drop headerLen = frame.payload :=
  List.drop_left' (Header.length_encode _)

/-- What a frame in plain text is read as is that frame. -/
lemma eq_of_decodePlainFrame {frame read : Wire.Frame} {max : ℕ}
    (h : decodePlainFrame frame.encode max = .ok read) : read = frame := by
  simp only [decodePlainFrame, bind_eq_ok, mapError_eq_ok_iff, take_encode, drop_encode] at h
  obtain ⟨_, -, header, hheader, _, -, _, -, _, -, hread⟩ := h
  have hversion : frame.header.version = wireVersion := by
    have hchecks := hheader
    simp only [Header.decode, bind_eq_ok, refuseIf_eq_ok, not_not] at hchecks
    obtain ⟨_, -, _, hversion, -⟩ := hchecks
    exact hversion
  rw [Header.decode_encode hversion] at hheader
  rw [← Except.ok.inj hread, ← Except.ok.inj hheader]

/-- A frame with the right length is read unless its payload is too long. -/
lemma decodePlainFrame_encode {frame : Wire.Frame} (hversion : frame.header.version = wireVersion)
    (hlen : frame.header.payloadLen.toNat = frame.payload.length) {max : ℕ} :
    decodePlainFrame frame.encode max = .ok frame ↔ frame.payload.length ≤ max := by
  have hbound : frame.payload.length ≤ maxPayloadLen := by
    rw [← hlen]
    exact Nat.le_of_lt_succ frame.header.payloadLen.toNat_lt
  simp only [decodePlainFrame, bind_eq_ok, mapError_eq_ok_iff, refuseIf_eq_ok, take_encode,
    drop_encode, Header.decode_encode hversion, length_encode]
  constructor
  · rintro ⟨_, -, header, hheader, _, hmax, -⟩
    obtain rfl := Except.ok.inj hheader
    rw [hlen] at hmax
    omega
  · intro hmax
    exact ⟨(), by omega, frame.header, rfl, (), by rw [hlen]; omega, (), by omega, (), by omega, rfl⟩

/-! ## Sealing -/

/-- The frames that are sealed. -/
structure Sealable (frame : Wire.Frame) : Prop where
  length : frame.header.payloadLen.toNat = frame.payload.length
  max : frame.payload.length ≤ packetPlaneMaxPayloadLen

instance (frame : Wire.Frame) : Decidable (Sealable frame) :=
  decidable_of_iff (frame.header.payloadLen.toNat = frame.payload.length ∧
    frame.payload.length ≤ packetPlaneMaxPayloadLen) ⟨fun ⟨h, h'⟩ => ⟨h, h'⟩, fun ⟨h, h'⟩ => ⟨h, h'⟩⟩

/-- The header of the datagram of a frame. -/
def outerHeader (frame : Wire.Frame) : List UInt8 :=
  encodeDatagramHeader frame.header.sessionId frame.header.sequence
    (UInt16.ofNat (frame.encode.length + aeadTagLen))

/-- What the cipher is given to seal a frame. -/
def encryption (key : Key) (frame : Wire.Frame) : Encryption Key :=
  ⟨key, datagramNonce frame.header.sessionId frame.header.sequence, outerHeader frame, frame.encode⟩

variable {aead : ChaCha20Poly1305} {log : List (Encryption Key)} {key : Key} {frame : Wire.Frame}

lemma Sealable.length_ciphertext (h : Sealable frame) :
    (UInt16.ofNat (frame.encode.length + aeadTagLen)).toNat = frame.encode.length + aeadTagLen := by
  have hmax := h.max
  simp only [packetPlaneMaxPayloadLen, maxUdpDatagramLen, datagramOverheadLen, datagramHeaderLen,
    aeadTagLen, headerLen, length_encode] at hmax ⊢
  rw [UInt16.toNat_ofNat', Nat.mod_eq_of_lt (by omega)]

lemma Sealable.encrypt (h : Sealable frame) (aead : ChaCha20Poly1305) (log : List (Encryption Key))
    (key : Key) :
    aead.encrypt log (encryption key frame)
      = some (aead.ciphertext (encryption key frame), log ++ [encryption key frame]) := by
  have hmax := h.max
  simp only [packetPlaneMaxPayloadLen, maxUdpDatagramLen] at hmax
  have hlength : (encryption key frame).message.length = headerLen + frame.payload.length :=
    length_encode frame
  rw [IdealAead.encrypt, if_pos]
  simp only [hlength, headerLen]
  omega

/-- A frame is sealed when the first two checks pass: the other two never fail after them, and neither
does the cipher. -/
lemma sealFrame_eq_ok {datagram : List UInt8} {log' : List (Encryption Key)} :
    sealFrame aead log key frame = .ok (datagram, log') ↔ Sealable frame ∧
      datagram = outerHeader frame ++ aead.ciphertext (encryption key frame) ∧
      log' = log ++ [encryption key frame] := by
  simp only [sealFrame, bind_eq_ok, refuseIf_eq_ok, not_not]
  constructor
  · rintro ⟨_, hlen, _, hmax, _, -, _, -, h⟩
    have hsealable : Sealable frame := ⟨hlen.symm, Nat.le_of_not_lt hmax⟩
    have hencrypt := hsealable.encrypt aead log key
    simp only [encryption, outerHeader] at hencrypt
    rw [hencrypt] at h
    obtain ⟨hdatagram, hlog⟩ := Prod.mk.inj (Except.ok.inj h)
    exact ⟨hsealable, hdatagram.symm, hlog.symm⟩
  · rintro ⟨hsealable, rfl, rfl⟩
    have hmax := hsealable.max
    have hciphertext := hsealable.length_ciphertext
    have hencrypt := hsealable.encrypt aead log key
    simp only [encryption, outerHeader] at hencrypt ⊢
    simp only [packetPlaneMaxPayloadLen, maxUdpDatagramLen, datagramOverheadLen, datagramHeaderLen,
      aeadTagLen, headerLen] at hmax
    refine ⟨(), hsealable.length.symm, (), Nat.not_lt.mpr hsealable.max, (), ?_, (), ?_, ?_⟩
    · simp only [length_encode, headerLen, aeadTagLen]
      omega
    · rw [hciphertext]
      simp only [length_encode, headerLen, aeadTagLen, datagramHeaderLen, maxUdpDatagramLen]
      omega
    · rw [hencrypt]
      rfl

lemma Sealable.length_datagram (h : Sealable frame) (key : Key) :
    (outerHeader frame ++ aead.ciphertext (encryption key frame)).length ≤ maxUdpDatagramLen := by
  have hmax := h.max
  have hmessage : (encryption key frame).message.length = headerLen + frame.payload.length :=
    length_encode frame
  rw [List.length_append, aead.length_ciphertext, hmessage, outerHeader, length_encodeDatagramHeader]
  simp only [packetPlaneMaxPayloadLen, maxUdpDatagramLen, datagramOverheadLen, datagramHeaderLen,
    aeadTagLen, headerLen] at hmax ⊢
  omega

/-! ## Opening -/

/-- What was sealed is opened as long as the log keeps it, unless its payload is too long. -/
lemma openFrame_sealed (hsealable : Sealable frame) (hversion : frame.header.version = wireVersion)
    (hlog : encryption key frame ∈ log) {max : ℕ} {read : Wire.Frame} :
    openFrame aead log key (outerHeader frame ++ aead.ciphertext (encryption key frame)) max
      = .ok read ↔ read = frame ∧ frame.payload.length ≤ max := by
  have hheader := decodeDatagramHeader_encode frame.header.sessionId frame.header.sequence
    ((aead.length_ciphertext (encryption key frame)).trans hsealable.length_ciphertext.symm)
  have htake : (outerHeader frame ++ aead.ciphertext (encryption key frame)).take datagramHeaderLen
      = outerHeader frame := List.take_left' (length_encodeDatagramHeader _ _ _)
  have hdecrypt : aead.decrypt log key (datagramNonce frame.header.sessionId frame.header.sequence)
      (outerHeader frame) (aead.ciphertext (encryption key frame)) = some frame.encode :=
    IdealAead.decrypt_of_mem hlog
  rw [openFrame, outerHeader, hheader]
  rw [outerHeader] at htake hdecrypt
  simp only [bind_eq_ok, Except.ok.injEq, exists_eq_left', htake, hdecrypt, refuseIf_eq_ok]
  constructor
  · rintro ⟨frame', hread, _, -, hresult⟩
    obtain rfl := eq_of_decodePlainFrame hread
    obtain rfl := Except.ok.inj hresult
    exact ⟨rfl, (decodePlainFrame_encode hversion hsealable.length).mp hread⟩
  · rintro ⟨rfl, hmax⟩
    exact ⟨read, (decodePlainFrame_encode hversion hsealable.length).mpr hmax, (), by simp, rfl⟩

/-- What is opened came out of the cipher with the ids of the datagram. -/
lemma openFrame_eq_ok {datagram : List UInt8} {max : ℕ} {read : Wire.Frame}
    (h : openFrame aead log key datagram max = .ok read) :
    ∃ outer ciphertext plaintext, decodeDatagramHeader datagram = .ok (outer, ciphertext) ∧
      aead.decrypt log key (datagramNonce outer.sessionId outer.sequence)
        (datagram.take datagramHeaderLen) ciphertext = some plaintext ∧
      decodePlainFrame plaintext max = .ok read ∧ read.header.sessionId = outer.sessionId ∧
      read.header.sequence = outer.sequence := by
  simp only [openFrame, bind_eq_ok] at h
  obtain ⟨⟨outer, ciphertext⟩, houter, h⟩ := h
  simp only at h
  cases hdecrypt : aead.decrypt log key (datagramNonce outer.sessionId outer.sequence)
      (datagram.take datagramHeaderLen) ciphertext with
  | none =>
    rw [hdecrypt] at h
    cases h
  | some plaintext =>
    rw [hdecrypt] at h
    simp only [bind_eq_ok, refuseIf_eq_ok, not_or, not_not] at h
    obtain ⟨frame, hframe, _, hids, hresult⟩ := h
    obtain rfl := Except.ok.inj hresult
    exact ⟨outer, ciphertext, plaintext, houter, hdecrypt, hframe, hids⟩

/-! ## Runs -/

/-- A frame that is to be sealed under a key. -/
structure SealCall where
  key : Key
  frame : Wire.Frame
deriving DecidableEq

/-- The log after a call; one that fails leaves it as it was. -/
def logAfter (aead : ChaCha20Poly1305) (log : List (Encryption Key)) (call : SealCall) :
    List (Encryption Key) :=
  match sealFrame aead log call.key call.frame with
  | .ok (_, log) => log
  | .error _ => log

def logRun (aead : ChaCha20Poly1305) (log : List (Encryption Key)) (calls : List SealCall) :
    List (Encryption Key) :=
  calls.foldl (logAfter aead) log

lemma logAfter_eq (aead : ChaCha20Poly1305) (log : List (Encryption Key)) (call : SealCall) :
    logAfter aead log call =
      if Sealable call.frame then log ++ [encryption call.key call.frame] else log := by
  cases hseal : sealFrame aead log call.key call.frame with
  | ok result =>
    obtain ⟨hsealable, -, hlog⟩ := sealFrame_eq_ok.mp hseal
    rw [logAfter, hseal, if_pos hsealable]
    exact hlog
  | error e =>
    have hnot : ¬ Sealable call.frame := by
      intro hsealable
      rw [sealFrame_eq_ok.mpr ⟨hsealable, rfl, rfl⟩] at hseal
      cases hseal
    rw [logAfter, hseal, if_neg hnot]

lemma mem_logRun {calls : List SealCall} {e : Encryption Key} :
    e ∈ logRun aead log calls ↔ e ∈ log ∨
      ∃ call ∈ calls, Sealable call.frame ∧ e = encryption call.key call.frame := by
  induction calls generalizing log with
  | nil => simp [logRun]
  | cons call calls ih =>
    rw [logRun, List.foldl_cons, ← logRun, ih, logAfter_eq]
    split_ifs with hsealable <;> simp [hsealable, or_assoc]

/-- The ids of a frame are used for one frame only under the key. -/
def FreshIds (calls : List SealCall) (key : Key) : Prop :=
  ∀ frame frame', ⟨key, frame⟩ ∈ calls → ⟨key, frame'⟩ ∈ calls → Sealable frame → Sealable frame' →
    frame.header.sessionId = frame'.header.sessionId →
    frame.header.sequence = frame'.header.sequence → frame = frame'

lemma FreshIds.not_misused {calls : List SealCall} (h : FreshIds calls key) (nonce : List UInt8) :
    ¬ IdealAead.Misused (logRun aead [] calls) key nonce := by
  rintro ⟨e, he, e', he', hkey, hkey', hnonce, hnonce', hne⟩
  simp only [mem_logRun, List.not_mem_nil, false_or] at he he'
  obtain ⟨⟨key₁, frame⟩, hcall, hsealable, rfl⟩ := he
  obtain ⟨⟨key₂, frame'⟩, hcall', hsealable', rfl⟩ := he'
  obtain rfl : key₁ = key := hkey
  obtain rfl : key₂ = key₁ := hkey'
  obtain ⟨hsession, hsequence⟩ := datagramNonce_inj (hnonce.trans hnonce'.symm)
  have hframe := h frame frame' hcall hcall' hsealable hsealable' hsession hsequence
  exact hne (congrArg (encryption key₂) hframe)

/-- **Datagrams are inverse and authentic.**  A frame is sealed exactly when its header has the length
of its payload and the payload fits; the datagram fits into UDP, and whatever is sealed later, it is
opened as the frame if the limit for the payload allows it and not at all otherwise.  In every run, a
datagram that is opened under a key gives a frame that was sealed under it with the ids in the header
of the datagram, unless two frames were sealed under the key with the same ids. -/
theorem datagrams_authentic (aead : ChaCha20Poly1305) :
    (∀ (log : List (Encryption Key)) (key : Key) (frame : Wire.Frame),
      frame.header.version = wireVersion →
      ((∃ datagram log', sealFrame aead log key frame = .ok (datagram, log')) ↔
        frame.header.payloadLen.toNat = frame.payload.length ∧
          frame.payload.length ≤ packetPlaneMaxPayloadLen) ∧
      ∀ datagram log', sealFrame aead log key frame = .ok (datagram, log') →
        datagram.length ≤ maxUdpDatagramLen ∧ ∀ later max,
          (frame.payload.length ≤ max →
            openFrame aead (logRun aead log' later) key datagram max = .ok frame) ∧
          (max < frame.payload.length →
            ∃ e, openFrame aead (logRun aead log' later) key datagram max = .error e)) ∧
    ∀ calls key datagram max frame,
      openFrame aead (logRun aead [] calls) key datagram max = .ok frame → FreshIds calls key →
        ⟨key, frame⟩ ∈ calls ∧ Sealable frame ∧
          ∃ outer ciphertext, decodeDatagramHeader datagram = .ok (outer, ciphertext) ∧
            outer.sessionId = frame.header.sessionId ∧ outer.sequence = frame.header.sequence := by
  constructor
  · intro log key frame hversion
    refine ⟨⟨?_, ?_⟩, ?_⟩
    · rintro ⟨datagram, log', hseal⟩
      obtain ⟨hsealable, -⟩ := sealFrame_eq_ok.mp hseal
      exact ⟨hsealable.length, hsealable.max⟩
    · rintro ⟨hlength, hmax⟩
      exact ⟨_, _, sealFrame_eq_ok.mpr ⟨⟨hlength, hmax⟩, rfl, rfl⟩⟩
    · intro datagram log' hseal
      obtain ⟨hsealable, rfl, rfl⟩ := sealFrame_eq_ok.mp hseal
      refine ⟨hsealable.length_datagram key, fun later max => ?_⟩
      have hlog : encryption key frame ∈ logRun aead (log ++ [encryption key frame]) later :=
        mem_logRun.mpr (.inl (by simp))
      refine ⟨fun hle => (openFrame_sealed hsealable hversion hlog).mpr ⟨rfl, hle⟩, fun hlt => ?_⟩
      cases hopen : openFrame aead (logRun aead (log ++ [encryption key frame]) later) key
          (outerHeader frame ++ aead.ciphertext (encryption key frame)) max with
      | error e => exact ⟨e, rfl⟩
      | ok read =>
        obtain ⟨-, hle⟩ := (openFrame_sealed hsealable hversion hlog).mp hopen
        omega
  · intro calls key datagram max frame hopen hfresh
    obtain ⟨outer, ciphertext, plaintext, houter, hdecrypt, hframe, hids⟩ := openFrame_eq_ok hopen
    obtain ⟨e, he, hkey, -, -, hmessage⟩ :=
      IdealAead.exists_mem_of_decrypt (hfresh.not_misused _) hdecrypt
    simp only [mem_logRun, List.not_mem_nil, false_or] at he
    obtain ⟨⟨key', sealed⟩, hcall, hsealable, rfl⟩ := he
    obtain rfl : key' = key := hkey
    obtain rfl : sealed.encode = plaintext := hmessage
    obtain rfl := eq_of_decodePlainFrame hframe
    exact ⟨hcall, hsealable, outer, ciphertext, houter, hids.1.symm, hids.2.symm⟩

/-- A cipher that hides nothing and only appends a tag; its log is what makes it authentic. -/
def sampleCipher : ChaCha20Poly1305 where
  ciphertext e := e.message ++ List.replicate aeadTagLen 0
  length_ciphertext e := by simp
  ciphertext_inj e message h := List.append_cancel_right h
  forge _ _ _ _ := none

def sampleCall : SealCall := ⟨5, ⟨⟨wireVersion, 0, .keepalive, 7, 9, 2⟩, [1, 2]⟩⟩

/-- The datagram of a sample frame is opened with a limit of two bytes and not with one, and nothing
else is opened in the run that sealed it. -/
theorem sample_datagram_opened :
    (∃ datagram log, sealFrame sampleCipher [] 5 sampleCall.frame = .ok (datagram, log) ∧
      openFrame sampleCipher log 5 datagram 2 = .ok sampleCall.frame ∧
      ∃ e, openFrame sampleCipher log 5 datagram 1 = .error e) ∧
    ∀ datagram max frame,
      openFrame sampleCipher (logRun sampleCipher [] [sampleCall]) 5 datagram max = .ok frame →
        frame = sampleCall.frame := by
  obtain ⟨hsealed, hopened⟩ := datagrams_authentic sampleCipher
  constructor
  · obtain ⟨hseal, hopen⟩ := hsealed [] 5 sampleCall.frame rfl
    obtain ⟨datagram, log, hok⟩ := hseal.mpr ⟨rfl, by decide⟩
    obtain ⟨-, hlimits⟩ := hopen datagram log hok
    exact ⟨datagram, log, hok, (hlimits [] 2).1 (by decide), (hlimits [] 1).2 (by decide)⟩
  · intro datagram max frame hopen
    have hfresh : FreshIds [sampleCall] 5 := by
      intro frame frame' h h' _ _ _ _
      exact (SealCall.mk.inj (List.mem_singleton.mp h)).2.trans
        (SealCall.mk.inj (List.mem_singleton.mp h')).2.symm
    obtain ⟨hcall, -⟩ := hopened [sampleCall] 5 datagram max frame hopen hfresh
    exact (SealCall.mk.inj (List.mem_singleton.mp hcall)).2

end P2pVpn.PacketPlane.Datagram
