import Angerona.Lib.Bytes

/-!
    Authenticated ring frames.

    A record is a 12-byte header (schema, sensor, sequence, little-endian), the payload and a tag
    over all of it. The tag is HMAC-SHA256 under the ring's 32-byte key; only its length and that it
    is a function of the message are used. -/

namespace Angerona.Ring
open Bytes

inductive RingError where
  /-- `FrameError`. -/
  | frame (message : String)
  /-- `ValueError`. -/
  | value (message : String)
  /-- `struct.error`: a header counter does not fit its field. -/
  | struct
  deriving DecidableEq

/-- HMAC-SHA256 under one key. -/
structure Authority where
  tag : List UInt8 → List UInt8
  tag_length : ∀ message, (tag message).length = 32

/-- `b"Angerona-IPC-Ring-v2\x00"`. -/
def frameAad : List UInt8 :=
  [65, 110, 103, 101, 114, 111, 110, 97, 45, 73, 80, 67, 45, 82, 105, 110, 103, 45, 118, 50, 0]

def recHdr : ℕ := 12
def macSize : ℕ := 32
def schemaVersion : ℤ := 1
def maxSlotSize : ℕ := 65536

/-- `0xFFFFFFFFFFFFFFFF`. -/
def maxU64 : ℕ := 2 ^ 64 - 1

/-- `struct.pack("<HHQ", ...)`. -/
def packHeader (schema sensorId sequence : ℕ) : List UInt8 :=
  le 2 schema ++ le 2 sensorId ++ le 8 sequence

/-- `encode_frame`, for a valid key and a bytes payload. -/
def encodeFrame (a : Authority) (payload : List UInt8) (schemaVer sensorId : ℤ) (sequence : ℕ) :
    Except RingError (List UInt8) :=
  if schemaVer ≠ schemaVersion ∨ sensorId < 0 ∨ 65535 < sensorId ∨ maxU64 < sequence then
    .error (.frame "IPC frame metadata is invalid or unsupported")
  else
    let header := packHeader schemaVer.toNat sensorId.toNat sequence
    .ok (header ++ payload ++ a.tag (frameAad ++ header ++ payload))

/-- A frame as `decode_frame` returns it. -/
structure Frame where
  schema : ℕ
  sensorId : ℕ
  seq : ℕ
  payload : List UInt8
  deriving DecidableEq

/-- `decode_frame`, for a valid key. -/
def decodeFrame (a : Authority) (record : List UInt8) (expectedSequence : ℕ) :
    Except RingError Frame :=
  if record.length < recHdr + macSize ∨ maxSlotSize - 4 < record.length ∨
      maxU64 < expectedSequence then
    .error (.frame "IPC frame length or expected sequence is invalid")
  else
    let schema := unle (record.take 2)
    let sensorId := unle ((record.drop 2).take 2)
    let sequence := unle ((record.drop 4).take 8)
    if (schema : ℤ) ≠ schemaVersion then .error (.frame "IPC frame schema is unsupported")
    else if sequence ≠ expectedSequence then
      .error (.frame "IPC frame sequence is stale, replayed, or out of position")
    else
      let payload := (record.drop recHdr).take (record.length - recHdr - macSize)
      let supplied := record.drop (record.length - macSize)
      if supplied ≠ a.tag (frameAad ++ record.take recHdr ++ payload) then
        .error (.frame "IPC frame authentication failed")
      else .ok ⟨schema, sensorId, sequence, payload⟩

/-! ### Round trip -/

theorem length_packHeader (schema sensorId sequence : ℕ) :
    (packHeader schema sensorId sequence).length = recHdr := by simp [packHeader, recHdr]

/-- What a successful encoding is. -/
theorem encodeFrame_ok {a : Authority} {payload record : List UInt8} {schemaVer sensorId : ℤ}
    {sequence : ℕ} (h : encodeFrame a payload schemaVer sensorId sequence = .ok record) :
    schemaVer = schemaVersion ∧ 0 ≤ sensorId ∧ sensorId ≤ 65535 ∧ sequence ≤ maxU64 ∧
      record = packHeader 1 sensorId.toNat sequence ++ payload ++
        a.tag (frameAad ++ packHeader 1 sensorId.toNat sequence ++ payload) := by
  rw [encodeFrame] at h
  split at h
  · simp at h
  · rename_i hc
    simp only [not_or, not_not, not_lt] at hc
    obtain ⟨h1, h2, h3, h4⟩ := hc
    subst h1
    exact ⟨rfl, h2, h3, h4, (Except.ok.inj h).symm⟩

theorem encodeFrame_length {a : Authority} {payload record : List UInt8} {schemaVer sensorId : ℤ}
    {sequence : ℕ} (h : encodeFrame a payload schemaVer sensorId sequence = .ok record) :
    record.length = recHdr + payload.length + macSize := by
  obtain ⟨-, -, -, -, rfl⟩ := encodeFrame_ok h
  simp [length_packHeader, a.tag_length, macSize, Nat.add_assoc]

/-- A record that fits a slot decodes, at its own sequence number, to what was encoded. -/
theorem decode_encode {a : Authority} {payload record : List UInt8} {schemaVer sensorId : ℤ}
    {sequence : ℕ} (h : encodeFrame a payload schemaVer sensorId sequence = .ok record)
    (hfit : record.length ≤ maxSlotSize - 4) :
    decodeFrame a record sequence = .ok ⟨1, sensorId.toNat, sequence, payload⟩ := by
  have hlen := encodeFrame_length h
  obtain ⟨-, hpos, hle, hseq, rfl⟩ := encodeFrame_ok h
  have hhdr := length_packHeader 1 sensorId.toNat sequence
  generalize ht : a.tag (frameAad ++ packHeader 1 sensorId.toNat sequence ++ payload) = t at *
  have htlen : t.length = macSize := by rw [← ht, a.tag_length, macSize]
  have hschema : unle (((packHeader 1 sensorId.toNat sequence) ++ payload ++ t).take 2) = 1 := by
    rw [packHeader, List.append_assoc, List.append_assoc, List.append_assoc,
      List.take_left' (length_le 2 1)]
    exact unle_le (by decide)
  have hsensor : unle ((((packHeader 1 sensorId.toNat sequence) ++ payload ++ t).drop 2).take 2) =
      sensorId.toNat := by
    rw [packHeader, List.append_assoc, List.append_assoc, List.append_assoc,
      List.drop_left' (length_le 2 1), List.take_left' (length_le 2 _)]
    exact unle_le (by omega)
  have hsequence : unle ((((packHeader 1 sensorId.toNat sequence) ++ payload ++ t).drop 4).take 8) =
      sequence := by
    rw [packHeader, List.append_assoc, List.append_assoc, List.drop_left' (by simp),
      List.take_left' (length_le 8 _)]
    refine unle_le ?_
    rw [maxU64] at hseq
    omega
  have hpayload : (((packHeader 1 sensorId.toNat sequence) ++ payload ++ t).drop recHdr).take
      (recHdr + payload.length + macSize - recHdr - macSize) = payload := by
    rw [List.append_assoc, List.drop_left' hhdr, List.take_left' (by omega)]
  have htag : ((packHeader 1 sensorId.toNat sequence) ++ payload ++ t).drop
      (recHdr + payload.length + macSize - macSize) = t :=
    List.drop_left' (by rw [List.length_append, hhdr]; omega)
  have hheader : ((packHeader 1 sensorId.toNat sequence) ++ payload ++ t).take recHdr =
      packHeader 1 sensorId.toNat sequence := by
    rw [List.append_assoc, List.take_left' hhdr]
  simp only [decodeFrame, hlen, hschema, hsensor, hsequence, hpayload, htag, hheader, ht]
  rw [if_neg (by omega), if_neg (by decide), if_neg (by simp), if_neg (by simp)]

/-- Whatever the bytes, a decoded frame carries the expected sequence number. -/
theorem decodeFrame_seq {a : Authority} {record : List UInt8} {expected : ℕ} {frame : Frame}
    (h : decodeFrame a record expected = .ok frame) : frame.seq = expected := by
  simp only [decodeFrame] at h
  split at h
  · simp at h
  split at h
  · simp at h
  split at h
  · simp at h
  rename_i hseq
  split at h
  · simp at h
  rw [← Except.ok.inj h]
  exact not_not.mp hseq

end Angerona.Ring
