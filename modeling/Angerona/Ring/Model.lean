import Angerona.Ring.Frame
import Mathlib.Logic.Function.Basic

/-!
    The shared telemetry ring: header, slots, and the calls of its two ends.

    The mapped file is a 64-byte header and `slot_count` slots. Frame `q` lives in slot
    `q % slot_count`. A call is a function from the ring before to its result and the ring after;
    the ring after is given for a call that raises too. -/

namespace Angerona.Ring

def ringMagic : ℕ := 0x41524E47
def ringVersion : ℕ := 2
def hdrPad : ℕ := 64
def maxSlotCount : ℕ := 65536

/-- A layout `_validate_layout` accepts. -/
structure Layout where
  slotCount : ℕ
  slotSize : ℕ
  slotCount_min : 2 ≤ slotCount
  slotCount_max : slotCount ≤ maxSlotCount
  slotSize_min : 64 ≤ slotSize
  slotSize_max : slotSize ≤ maxSlotSize
  total : hdrPad + slotCount * slotSize ≤ 64 * 1024 * 1024

/-- A slot: the length prefix and the bytes after it. -/
structure Slot where
  recLen : ℕ
  bytes : List UInt8
  deriving DecidableEq

/-- `bytes(mm[off + 4 : off + 4 + rec_len])`. -/
def Slot.record (s : Slot) : List UInt8 := s.bytes.take s.recLen

/-- `struct.pack_into("<I", mm, off, len(rec))`. -/
def Slot.putLength (s : Slot) (n : ℕ) : Slot := { s with recLen := n }

/-- `mm[off + 4 : off + 4 + len(rec)] = rec`; what follows in the slot stays. -/
def Slot.putBytes (s : Slot) (record : List UInt8) : Slot :=
  { s with bytes := record ++ s.bytes.drop record.length }

/-- The mapped file. -/
structure Mapped where
  magic : ℕ
  version : ℕ
  slots : ℕ
  size : ℕ
  writeSeq : ℕ
  readSeq : ℕ
  drops : ℕ
  bpFlag : Bool
  slot : ℕ → Slot

/-- `_init_header` over a file with any slot contents. -/
def Mapped.init (l : Layout) (slot : ℕ → Slot) : Mapped :=
  ⟨ringMagic, ringVersion, l.slotCount, l.slotSize, 0, 0, 0, false, slot⟩

namespace Mapped

/-- `_slot_off`, as a slot index. -/
def index (l : Layout) (q : ℕ) : ℕ := q % l.slotCount

def occupancy (m : Mapped) : ℕ := m.writeSeq - m.readSeq

def advanceRead (m : Mapped) (newRead : ℕ) : Mapped := { m with readSeq := newRead }

/-- `_bump_drops`, which raises when the counter no longer fits. -/
def bumpDrops (m : Mapped) : Except RingError Mapped :=
  if m.drops + 1 ≤ maxU64 then .ok { m with drops := m.drops + 1 } else .error .struct

def setBackpressure (m : Mapped) (on : Bool) : Mapped := { m with bpFlag := on }

/-- `occupancy / slot_count >= 0.85`: the quotients of a valid layout stay clear of the rounding of
    0.85, so the comparison is exact. -/
def pressed (l : Layout) (occupancy : ℕ) : Bool := 17 * l.slotCount ≤ 20 * occupancy

def putSlot (m : Mapped) (i : ℕ) (f : Slot → Slot) : Mapped :=
  { m with slot := Function.update m.slot i (f (m.slot i)) }

/-- The header checks that `read_batch` and `backpressure` share. -/
def Damaged (l : Layout) (m : Mapped) : Prop :=
  m.magic ≠ ringMagic ∨ m.version ≠ ringVersion ∨ m.slots ≠ l.slotCount ∨
    m.size ≠ l.slotSize ∨ m.writeSeq < m.readSeq

instance (l : Layout) (m : Mapped) : Decidable (m.Damaged l) := by
  unfold Damaged
  infer_instance

end Mapped

/-! ### The producer -/

/-- The slot and header stores of `write` once the record is known to fit. -/
def Mapped.store (l : Layout) (record : List UInt8) (m : Mapped) : Except RingError Bool × Mapped :=
  let w := m.writeSeq
  let m := (m.putSlot (Mapped.index l w) (·.putLength record.length)).putSlot (Mapped.index l w)
    (·.putBytes record)
  if w + 1 ≤ maxU64 then
    let m := { m with writeSeq := w + 1 }
    (.ok true, m.setBackpressure (Mapped.pressed l m.occupancy))
  else (.error .struct, m)

/-- `RingWriter.write`. -/
def Mapped.write (l : Layout) (a : Authority) (payload : List UInt8) (schemaVer sensorId : ℤ)
    (m : Mapped) : Except RingError Bool × Mapped :=
  let w := m.writeSeq
  match encodeFrame a payload schemaVer sensorId w with
  | .error e => (.error e, m)
  | .ok record =>
    if l.slotSize < record.length + 4 then
      match m.bumpDrops with
      | .error e => (.error e, m)
      | .ok m => (.ok false, m)
    else if m.readSeq + l.slotCount ≤ w then
      -- lapping the consumer: the oldest frame is given up before its slot is reused
      let m := m.advanceRead (w - l.slotCount + 1)
      match m.bumpDrops with
      | .error e => (.error e, m)
      | .ok m => m.store l record
    else m.store l record

/-- `RingWriter.backpressure`. -/
def Mapped.backpressure (l : Layout) (m : Mapped) : Except RingError Bool × Mapped :=
  if m.Damaged l then (.error (.frame "IPC ring header failed integrity validation"), m)
  else
    let on := Mapped.pressed l (m.writeSeq - m.readSeq)
    (.ok on, m.setBackpressure on)

/-! ### The consumer -/

/-- A frame of a batch. -/
structure BatchFrame extends Frame where
  missed : ℕ
  deriving DecidableEq

/-- The locals of `read_batch`'s loop, and the reader's failure count. -/
structure Scan where
  r : ℕ
  out : List BatchFrame
  failures : ℕ

/-- What one turn of the loop does with the slot it has read. -/
def Scan.turn (l : Layout) (a : Authority) (missed : ℕ) (slot : Slot) (s : Scan) : Scan :=
  if slot.recLen < recHdr + macSize ∨ l.slotSize - 4 < slot.recLen then
    { s with r := s.r + 1, failures := s.failures + 1 }
  else
    match decodeFrame a slot.record s.r with
    | .error _ => { s with r := s.r + 1, failures := s.failures + 1 }
    | .ok frame =>
      { s with r := s.r + 1, out := s.out ++ [⟨frame, if s.out.isEmpty then missed else 0⟩] }

/-- The loop, `budget` turns at most. -/
def Mapped.scan (l : Layout) (a : Authority) (m : Mapped) (w missed : ℕ) : ℕ → Scan → Scan
  | 0, s => s
  | budget + 1, s =>
    if s.r < w then
      m.scan l a w missed budget (s.turn l a missed (m.slot (Mapped.index l s.r)))
    else s

/-- What `read_batch` leaves: its result, the ring, and the reader's `authentication_failures`. -/
structure Batch where
  result : Except RingError (List BatchFrame)
  ring : Mapped
  failures : ℕ

/-- `RingReader.read_batch`. -/
def Mapped.readBatch (l : Layout) (a : Authority) (maxFrames : ℤ) (failures : ℕ) (m : Mapped) :
    Batch :=
  if maxFrames < 1 ∨ maxSlotCount < maxFrames then
    ⟨.error (.value "IPC batch limit is outside the ring budget"), m, failures⟩
  else
    let frameBudget := min maxFrames.toNat l.slotCount
    if m.Damaged l then
      ⟨.error (.frame "IPC ring header failed integrity validation"), m, failures + 1⟩
    else
      let w := m.writeSeq
      -- more than a full lap behind: on to the oldest slot still intact
      let missed := if l.slotCount < w - m.readSeq then (w - l.slotCount) - m.readSeq else 0
      let r := if l.slotCount < w - m.readSeq then w - l.slotCount else m.readSeq
      let s := m.scan l a w missed frameBudget ⟨r, [], failures⟩
      ⟨.ok s.out, m.advanceRead s.r, s.failures⟩

end Angerona.Ring
