/-
# Frames

What peers send each other is put into frames: a header of seventeen bytes, with the length of the
payload in its last two, and the payload.  A header of the supported version is read back from its
bytes (`Header.decode_encode`).  Session ids and sequence numbers are `u32` and `u64`.
-/
import P2pVpn.Lib.Bytes
import P2pVpn.Lib.Except

namespace P2pVpn.Wire

open Lib

def wireVersion : UInt8 := 1
def headerLen : ℕ := 17
def maxPayloadLen : ℕ := 65535

inductive PayloadType where
  | ipPacket
  | keepalive
  | pathProbe
deriving DecidableEq, Repr

def PayloadType.byte : PayloadType → UInt8
  | ipPacket => 0
  | keepalive => 1
  | pathProbe => 2

structure Header where
  version : UInt8
  flags : UInt8
  payloadType : PayloadType
  sessionId : UInt32
  sequence : UInt64
  payloadLen : UInt16
deriving DecidableEq, Repr

inductive DecodeError where
  | truncated (actual expected : ℕ)
  | unsupportedVersion (version : UInt8)
  | unknownPayloadType (byte : UInt8)
deriving DecidableEq, Repr

/-- `PayloadType::try_from`. -/
def PayloadType.tryFrom (byte : UInt8) : Except DecodeError PayloadType :=
  if byte = 0 then .ok ipPacket
  else if byte = 1 then .ok keepalive
  else if byte = 2 then .ok pathProbe
  else .error (.unknownPayloadType byte)

namespace Header

def encode (header : Header) : List UInt8 :=
  [header.version, header.flags, header.payloadType.byte] ++ toBeBytes 4 header.sessionId.toNat ++
    toBeBytes 8 header.sequence.toNat ++ toBeBytes 2 header.payloadLen.toNat

def decode (input : List UInt8) : Except DecodeError Header := do
  refuseIf (input.length < headerLen) (.truncated input.length headerLen)
  let version := input.getD 0 0
  refuseIf (version ≠ wireVersion) (.unsupportedVersion version)
  let payloadType ← PayloadType.tryFrom (input.getD 2 0)
  pure
    { version := version
      flags := input.getD 1 0
      payloadType := payloadType
      sessionId := UInt32.ofNat (fromBeBytes (slice 3 7 input))
      sequence := UInt64.ofNat (fromBeBytes (slice 7 15 input))
      payloadLen := UInt16.ofNat (fromBeBytes (slice 15 17 input)) }

end Header

structure Frame where
  header : Header
  payload : List UInt8
deriving DecidableEq, Repr

inductive FrameError where
  | payloadTooLarge (actual max : ℕ)
deriving DecidableEq, Repr

namespace Frame

def encode (frame : Frame) : List UInt8 := frame.header.encode ++ frame.payload

def new (payloadType : PayloadType) (sessionId : UInt32) (sequence : UInt64) (payload : List UInt8) :
    Except FrameError Frame := do
  refuseIf (payload.length > maxPayloadLen) (.payloadTooLarge payload.length maxPayloadLen)
  pure ⟨⟨wireVersion, 0, payloadType, sessionId, sequence, UInt16.ofNat payload.length⟩, payload⟩

def packet : UInt32 → UInt64 → List UInt8 → Except FrameError Frame := new .ipPacket

end Frame

/-! ## Headers are read back -/

@[simp] lemma PayloadType.tryFrom_byte (payloadType : PayloadType) :
    tryFrom payloadType.byte = .ok payloadType := by
  cases payloadType <;> rfl

@[simp] lemma Header.length_encode (header : Header) : header.encode.length = headerLen := by
  simp [Header.encode, headerLen]

/-- **A header of the supported version** is read back from its bytes. -/
theorem Header.decode_encode {header : Header} (hversion : header.version = wireVersion) :
    Header.decode header.encode = .ok header := by
  have hsession : slice 3 7 header.encode = toBeBytes 4 header.sessionId.toNat := by
    simp only [Header.encode, List.append_assoc]
    exact slice_append _ rfl (by simp)
  have hsequence : slice 7 15 header.encode = toBeBytes 8 header.sequence.toNat := by
    simp only [Header.encode]
    rw [List.append_assoc]
    exact slice_append _ (by simp) (by simp)
  have hlen : slice 15 17 header.encode = toBeBytes 2 header.payloadLen.toNat := by
    have h : slice 15 17 (header.encode ++ []) = toBeBytes 2 header.payloadLen.toNat := by
      simp only [Header.encode]
      rw [List.append_assoc]
      exact slice_append _ (by simp) (by simp)
    rwa [List.append_nil] at h
  have hbytes : header.encode.getD 0 0 = header.version ∧ header.encode.getD 1 0 = header.flags ∧
      header.encode.getD 2 0 = header.payloadType.byte := by
    simp [Header.encode]
  simp only [Header.decode, hsession, hsequence, hlen, hbytes, hversion, Header.length_encode,
    PayloadType.tryFrom_byte, uint16_fromBeBytes, uint32_fromBeBytes, uint64_fromBeBytes]
  rw [← hversion]
  simp only [refuseIf, Nat.lt_irrefl, ne_eq, not_true_eq_false, if_false]
  rfl

end P2pVpn.Wire
