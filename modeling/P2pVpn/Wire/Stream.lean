/-
# Frames on a stream

Frames are written to a stream one after the other, and each is read or, in pieces of 256 bytes,
skipped.  Skipping leaves or refuses what reading does, and what was written is read back
(`stream_frames_read_back`).
-/
import P2pVpn.Wire.Frame

namespace P2pVpn.Wire

open Lib

inductive ReadError where
  | unexpectedEof
  | header (error : DecodeError)
  | payloadTooLong (actual max : ℕ)

/-- The next bytes of a stream, and the rest of it. -/
def readExact (count : ℕ) (input : List UInt8) : Except ReadError (List UInt8 × List UInt8) :=
  if input.length < count then .error .unexpectedEof else .ok (input.take count, input.drop count)

def readFuturesHeader (max : ℕ) (input : List UInt8) : Except ReadError (Header × List UInt8) := do
  let bytes ← readExact headerLen input
  let header ← (Header.decode bytes.1).mapError .header
  refuseIf (header.payloadLen.toNat > max) (.payloadTooLong header.payloadLen.toNat max)
  pure (header, bytes.2)

def readFuturesFrame (max : ℕ) (input : List UInt8) : Except ReadError (Frame × List UInt8) := do
  let header ← readFuturesHeader max input
  let payload ← readExact header.1.payloadLen.toNat header.2
  pure (⟨header.1, payload.1⟩, payload.2)

/-- The loop of `discard_futures_frame`. -/
def discardPayload (remaining : ℕ) (input : List UInt8) : Except ReadError (List UInt8) :=
  if remaining = 0 then .ok input
  else do
    let bytes ← readExact (min remaining 256) input
    discardPayload (remaining - min remaining 256) bytes.2

def discardFuturesFrame (max : ℕ) (input : List UInt8) : Except ReadError (List UInt8) := do
  let header ← readFuturesHeader max input
  discardPayload header.1.payloadLen.toNat header.2

/-- Some frames in turn. -/
def readFrames (max : ℕ) : ℕ → List UInt8 → Except ReadError (List Frame × List UInt8)
  | 0, input => .ok ([], input)
  | count + 1, input => do
      let first ← readFuturesFrame max input
      let others ← readFrames max count first.2
      pure (first.1 :: others.1, others.2)

/-- Skipping piece by piece is reading all at once. -/
lemma discardPayload_eq (remaining : ℕ) (input : List UInt8) :
    discardPayload remaining input = (readExact remaining input).map Prod.snd := by
  induction remaining using Nat.strong_induction_on generalizing input with
  | _ remaining ih =>
    rw [discardPayload]
    split_ifs with hzero
    · simp [hzero, readExact, Except.map]
    · by_cases hshort : input.length < min remaining 256
      · simp [readExact, hshort, show input.length < remaining by omega, Except.map, bind, Except.bind]
      · have hstep : readExact (min remaining 256) input = .ok _ := if_neg hshort
        rw [hstep]
        refine (ih _ (by omega) _).trans ?_
        have hiff : input.length - min remaining 256 < remaining - min remaining 256 ↔
            input.length < remaining := by omega
        simp only [readExact, List.length_drop, hiff]
        split_ifs
        · rfl
        · simp [Except.map, show min remaining 256 + (remaining - min remaining 256) = remaining by omega]

lemma readExact_append {count : ℕ} {bytes : List UInt8} (h : bytes.length = count)
    (rest : List UInt8) : readExact count (bytes ++ rest) = .ok (bytes, rest) := by
  subst h
  simp [readExact]

lemma readFuturesHeader_encode {header : Header} {max : ℕ} (hversion : header.version = wireVersion)
    (hmax : header.payloadLen.toNat ≤ max) (rest : List UInt8) :
    readFuturesHeader max (header.encode ++ rest) = .ok (header, rest) := by
  rw [readFuturesHeader, readExact_append header.length_encode]
  refine bind_eq_ok.mpr ⟨_, rfl, bind_eq_ok.mpr ⟨header,
    mapError_eq_ok_iff.mpr (Header.decode_encode hversion), bind_eq_ok.mpr ⟨(), ?_, rfl⟩⟩⟩
  exact refuseIf_eq_ok.mpr (not_lt.mpr hmax)

lemma readFuturesFrame_encode {payloadType : PayloadType} {sessionId : UInt32} {sequence : UInt64}
    {payload : List UInt8} {frame : Frame} {max : ℕ}
    (h : Frame.new payloadType sessionId sequence payload = .ok frame) (hmax : payload.length ≤ max)
    (rest : List UInt8) : readFuturesFrame max (frame.encode ++ rest) = .ok (frame, rest) := by
  obtain ⟨_, hfits, h⟩ := bind_eq_ok.mp h
  obtain rfl := Except.ok.inj h
  have hlength : (UInt16.ofNat payload.length).toNat = payload.length :=
    UInt16.toNat_ofNat_of_lt' (Nat.lt_succ_of_le (not_lt.mp (refuseIf_eq_ok.mp hfits)))
  rw [Frame.encode, List.append_assoc]
  exact bind_eq_ok.mpr ⟨_, readFuturesHeader_encode rfl (hlength.trans_le hmax) _,
    bind_eq_ok.mpr ⟨_, readExact_append hlength.symm rest, rfl⟩⟩

/-- **Streams.** On every input, skipping a frame leaves the rest that reading it leaves, and fails with
the same error.  Frames that were made and written one after the other, with payloads within the limit,
are all read back, and what comes after them is left. -/
theorem stream_frames_read_back (max : ℕ) :
    (∀ input, discardFuturesFrame max input = (readFuturesFrame max input).map Prod.snd) ∧
    ∀ frames rest, (∀ frame ∈ frames, frame.payload.length ≤ max ∧ ∃ payloadType sessionId sequence,
        Frame.new payloadType sessionId sequence frame.payload = .ok frame) →
      readFrames max frames.length (frames.flatMap Frame.encode ++ rest) = .ok (frames, rest) := by
  refine ⟨fun input => ?_, fun frames rest hframes => ?_⟩
  · rw [discardFuturesFrame, readFuturesFrame]
    cases readFuturesHeader max input with
    | error error => rfl
    | ok header =>
      refine (discardPayload_eq _ _).trans ?_
      cases h : readExact header.1.payloadLen.toNat header.2 <;> simp [h, bind, Except.bind, Except.map,
        pure, Except.pure]
  · induction frames with
    | nil => rfl
    | cons frame frames ih =>
      obtain ⟨hmax, _, _, _, hnew⟩ := hframes frame List.mem_cons_self
      rw [List.flatMap_cons, List.append_assoc]
      exact bind_eq_ok.mpr ⟨_, readFuturesFrame_encode hnew hmax _, bind_eq_ok.mpr ⟨_,
        ih fun other hother => hframes other (List.mem_cons_of_mem _ hother), rfl⟩⟩

end P2pVpn.Wire
