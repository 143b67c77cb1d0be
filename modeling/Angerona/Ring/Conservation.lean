import Angerona.Lib.DropQueue
import Angerona.Lib.Transition
import Angerona.Ring.Model
import Mathlib.Data.Nat.ModEq

/-!
    Whole calls on one ring lose nothing but what the producer overwrites.

    A session is the ring with the histories of its two ends. Between calls the ring represents a
    bounded queue that gives up its oldest element when full: an accepted write is a push, a batch
    is a pop. -/

namespace Angerona.Ring
open Bytes DropQueue Transition

/-- A call of `write` that returned True: its arguments and the sequence number it took. -/
structure Write where
  seq : ℕ
  schemaVer : ℤ
  sensorId : ℤ
  payload : List UInt8
  deriving DecidableEq

/-- The write a frame reports. -/
def Frame.asWrite (f : Frame) : Write := ⟨f.seq, f.schema, f.sensorId, f.payload⟩

/-! ### Sessions -/

structure Session where
  mem : Mapped
  /-- The reader's `authentication_failures`. -/
  failures : ℕ
  accepted : List Write
  returned : List Frame
  /-- The unread sequence numbers the producer moved `read_seq` past. -/
  overwritten : List ℕ
  /-- How many writes returned False. -/
  refused : ℕ

def Session.start (l : Layout) (slot : ℕ → Slot) : Session :=
  ⟨.init l slot, 0, [], [], [], 0⟩

inductive Call where
  | write (payload : List UInt8) (schemaVer sensorId : ℤ)
  | readBatch (maxFrames : ℤ)
  | backpressure

namespace Session

variable (l : Layout) (a : Authority)

def write (payload : List UInt8) (schemaVer sensorId : ℤ) (s : Session) : Session :=
  let (result, mem) := s.mem.write l a payload schemaVer sensorId
  { s with
    mem
    accepted :=
      if result = .ok true then s.accepted ++ [⟨s.mem.writeSeq, schemaVer, sensorId, payload⟩]
      else s.accepted
    overwritten := s.overwritten ++ List.range' s.mem.readSeq (mem.readSeq - s.mem.readSeq)
    refused := if result = .ok false then s.refused + 1 else s.refused }

/-- The frames a batch returns; none when it raises. -/
def frames (result : Except RingError (List BatchFrame)) : List Frame :=
  match result with
  | .ok out => out.map BatchFrame.toFrame
  | .error _ => []

def readBatch (maxFrames : ℤ) (s : Session) : Session :=
  let batch := s.mem.readBatch l a maxFrames s.failures
  { s with
    mem := batch.ring
    failures := batch.failures
    returned := s.returned ++ frames batch.result }

def call : Call → Session → Session
  | .write payload schemaVer sensorId, s => s.write l a payload schemaVer sensorId
  | .readBatch maxFrames, s => s.readBatch l a maxFrames
  | .backpressure, s => { s with mem := (s.mem.backpressure l).2 }

/-- The call is not cut off halfway by a counter that no longer fits its 64 bits. -/
def Whole : Call → Session → Prop
  | .write payload schemaVer sensorId, s =>
    (s.mem.write l a payload schemaVer sensorId).1 ≠ .error .struct
  | _, _ => True

instance (c : Call) (s : Session) : Decidable (s.Whole l a c) := by
  cases c <;> unfold Whole <;> infer_instance

/-- The frames one batch over all slots would return now. -/
def readable (s : Session) : List Frame :=
  frames (s.mem.readBatch l a l.slotCount s.failures).result

/-- One whole call by either end. -/
def Step (s : Session) (c : Call) (t : Session) : Prop := s.Whole l a c ∧ t = s.call l a c

end Session

/-! ### What a write does -/

/-- A slot after the two stores of a record. -/
def Slot.filled (s : Slot) (record : List UInt8) : Slot :=
  (s.putLength record.length).putBytes record

theorem Slot.record_filled (s : Slot) (record : List UInt8) : (s.filled record).record = record :=
  List.take_left

namespace Mapped

variable {l : Layout} {a : Authority} {m : Mapped} {payload record : List UInt8}
  {schemaVer sensorId : ℤ}

/-- The oldest frame given up, when the ring is full. -/
def lapped (l : Layout) (m : Mapped) : Mapped :=
  if m.readSeq + l.slotCount ≤ m.writeSeq then
    { m with readSeq := m.writeSeq - l.slotCount + 1, drops := m.drops + 1 }
  else m

/-- The record stored at `write_seq`, and the header moved on. -/
def stored (l : Layout) (record : List UInt8) (m : Mapped) : Mapped :=
  { m with
    slot := Function.update m.slot (index l m.writeSeq)
      ((m.slot (index l m.writeSeq)).filled record)
    writeSeq := m.writeSeq + 1
    bpFlag := pressed l (m.writeSeq + 1 - m.readSeq) }

theorem store_whole (h : (m.store l record).1 ≠ .error .struct) :
    m.store l record = (.ok true, m.stored l record) := by
  simp only [store, putSlot] at h ⊢
  split at h
  · rename_i hfit
    rw [if_pos hfit]
    simp [stored, Slot.filled, setBackpressure, occupancy]
  · exact absurd rfl h

theorem bumpDrops_cases (m : Mapped) : m.bumpDrops = .error .struct ∨
    m.bumpDrops = .ok { m with drops := m.drops + 1 } := by
  rw [bumpDrops]
  split
  · exact Or.inr rfl
  · exact Or.inl rfl

/-- A whole write raises on its arguments, refuses an oversize record, or stores the record. -/
theorem write_cases (h : (m.write l a payload schemaVer sensorId).1 ≠ .error .struct) :
    (∃ e, encodeFrame a payload schemaVer sensorId m.writeSeq = .error e ∧
      m.write l a payload schemaVer sensorId = (.error e, m)) ∨
    (∃ record, encodeFrame a payload schemaVer sensorId m.writeSeq = .ok record ∧
      l.slotSize < record.length + 4 ∧ m.write l a payload schemaVer sensorId =
        (.ok false, { m with drops := m.drops + 1 })) ∨
    (∃ record, encodeFrame a payload schemaVer sensorId m.writeSeq = .ok record ∧
      record.length + 4 ≤ l.slotSize ∧ m.write l a payload schemaVer sensorId =
        (.ok true, (m.lapped l).stored l record)) := by
  rcases henc : encodeFrame a payload schemaVer sensorId m.writeSeq with e | record
  · exact Or.inl ⟨e, rfl, by rw [write, henc]⟩
  right
  simp only [write, henc] at h ⊢
  rcases Nat.lt_or_ge l.slotSize (record.length + 4) with hbig | hfit
  · left
    rw [if_pos hbig] at h ⊢
    refine ⟨record, rfl, hbig, ?_⟩
    rcases m.bumpDrops_cases with hb | hb
    · simp [hb] at h
    · rw [hb]
  · right
    rw [if_neg (by omega)] at h ⊢
    refine ⟨record, rfl, hfit, ?_⟩
    rcases Nat.lt_or_ge m.writeSeq (m.readSeq + l.slotCount) with hroom | hfull
    · rw [if_neg (by omega)] at h ⊢
      rw [lapped, if_neg (by omega)]
      exact store_whole h
    · rw [if_pos hfull] at h ⊢
      rw [lapped, if_pos hfull]
      rcases (m.advanceRead (m.writeSeq - l.slotCount + 1)).bumpDrops_cases with hb | hb
      · simp [hb] at h
      · rw [hb] at h ⊢
        exact store_whole h

/-- A whole write is refused exactly if its record does not fit. -/
theorem write_refused_iff (h : (m.write l a payload schemaVer sensorId).1 ≠ .error .struct) :
    (m.write l a payload schemaVer sensorId).1 = .ok false ↔
      ∃ record, encodeFrame a payload schemaVer sensorId m.writeSeq = .ok record ∧
        l.slotSize < record.length + 4 := by
  constructor
  · intro hfalse
    rcases write_cases h with ⟨e, -, hw⟩ | ⟨record, henc, hbig, -⟩ | ⟨record, -, -, hw⟩
    · rw [hw] at hfalse
      cases hfalse
    · exact ⟨record, henc, hbig⟩
    · rw [hw] at hfalse
      cases hfalse
  · rintro ⟨record, henc, hbig⟩
    rcases write_cases h with ⟨e, herr, -⟩ | ⟨record', -, -, hw⟩ | ⟨record', henc', hfit, -⟩
    · rw [henc] at herr
      cases herr
    · rw [hw]
    · obtain rfl := Except.ok.inj (henc.symm.trans henc')
      omega

end Mapped

/-! ### The queue the ring represents -/

/-- The slot holds the record of a write, which fits. -/
def Holds (l : Layout) (a : Authority) (slot : Slot) (w : Write) : Prop :=
  encodeFrame a w.payload w.schemaVer w.sensorId w.seq = .ok slot.record ∧
    slot.recLen = slot.record.length ∧ slot.record.length + 4 ≤ l.slotSize

/-- Between calls, the unread slots hold the pending writes in order, and the histories of the
    session are those of the queue. -/
structure Tracks (l : Layout) (a : Authority) (s : Session) (q : DropQueue Write) : Prop where
  intact : ¬s.mem.Damaged l
  accepted : s.accepted = q.accepted
  returned : s.returned.map Frame.asWrite = q.delivered
  overwritten : s.overwritten = q.lost.map Write.seq
  failures : s.failures = 0
  drops : s.mem.drops = q.lost.length + s.refused
  occupancy : s.mem.readSeq + q.pending.length = s.mem.writeSeq
  bounded : q.pending.length ≤ l.slotCount
  below : ∀ w ∈ q.accepted, w.seq < s.mem.writeSeq
  ordered : q.accepted.Pairwise fun v w => v.seq < w.seq
  held : ∀ i w, q.pending[i]? = some w → w.seq = s.mem.readSeq + i ∧
    Holds l a (s.mem.slot (Mapped.index l (s.mem.readSeq + i))) w

/-- Unread frames within one lap have different slots. -/
theorem index_ne {l : Layout} {p q : ℕ} (hpq : p < q) (hlap : q < p + l.slotCount) :
    Mapped.index l p ≠ Mapped.index l q := by
  intro h
  have hdvd : l.slotCount ∣ q - p := (Nat.modEq_iff_dvd' hpq.le).mp h
  have hle := Nat.le_of_dvd (by omega) hdvd
  omega

theorem Holds.decode {l : Layout} {a : Authority} {slot : Slot} {w : Write}
    (h : Holds l a slot w) : ∃ frame : Frame, decodeFrame a slot.record w.seq = .ok frame ∧
      frame.asWrite = w := by
  obtain ⟨henc, -, hfit⟩ := h
  obtain ⟨hschema, hpos, -, -, -⟩ := encodeFrame_ok henc
  refine ⟨_, decode_encode henc (by have := l.slotSize_max; omega), ?_⟩
  rcases w with ⟨seq, schemaVer, sensorId, payload⟩
  simp only [Frame.asWrite, Write.mk.injEq, true_and, and_true]
  exact ⟨hschema.symm, Int.toNat_of_nonneg hpos⟩

/-! ### What a batch does -/

section Batch

variable {l : Layout} {a : Authority}

/-- A turn over a held slot returns its write. -/
theorem turn_held {slot : Slot} {v : Write} {s : Scan} (h : Holds l a slot v) (hseq : v.seq = s.r) :
    ∃ frame : Frame, frame.asWrite = v ∧
      s.turn l a 0 slot = ⟨s.r + 1, s.out ++ [⟨frame, 0⟩], s.failures⟩ := by
  obtain ⟨frame, hdec, hframe⟩ := h.decode
  obtain ⟨henc, hlen, hfit⟩ := h
  have hmin := encodeFrame_length henc
  refine ⟨frame, hframe, ?_⟩
  rw [Scan.turn, if_neg (by omega), ← hseq, hdec]
  simp

/-- The loop returns the pending writes its budget allows, in order. -/
theorem scan_held {m : Mapped} {w : ℕ} : ∀ (budget : ℕ) (pending : List Write) (s : Scan),
    s.r + pending.length = w →
    (∀ i v, pending[i]? = some v → v.seq = s.r + i ∧
      Holds l a (m.slot (Mapped.index l (s.r + i))) v) →
    ∃ out : List BatchFrame, (out.map BatchFrame.toFrame).map Frame.asWrite = pending.take budget ∧
      m.scan l a w 0 budget s =
        ⟨s.r + (pending.take budget).length, s.out ++ out, s.failures⟩
  | 0, _, s, _, _ => ⟨[], by simp [Mapped.scan]⟩
  | budget + 1, [], s, hlen, _ => ⟨[], by simp [Mapped.scan, ← hlen]⟩
  | budget + 1, v :: pending, s, hlen, hheld => by
    obtain ⟨hseq, hv⟩ := hheld 0 v rfl
    obtain ⟨frame, hframe, hturn⟩ := turn_held hv hseq
    rw [List.length_cons] at hlen
    obtain ⟨out, hout, hscan⟩ := scan_held (m := m) (w := w) budget pending
      ⟨s.r + 1, s.out ++ [⟨frame, 0⟩], s.failures⟩ (by simp only; omega) fun i u hu => by
        have := hheld (i + 1) u (by simpa using hu)
        rwa [show s.r + (i + 1) = s.r + 1 + i by omega] at this
    refine ⟨⟨frame, 0⟩ :: out, by simp [hframe, hout], ?_⟩
    rw [Mapped.scan, if_pos (by omega), show s.r = s.r + 0 from rfl, hturn, hscan]
    simp [Nat.add_assoc, Nat.add_comm 1]

variable {s : Session} {q : DropQueue Write} {maxFrames : ℤ}

/-- A batch within its limits pops as many writes as it has frames. -/
theorem Tracks.batch (h : Tracks l a s q) (hmin : 1 ≤ maxFrames) (hmax : maxFrames ≤ maxSlotCount) :
    ∃ out : List BatchFrame, (out.map BatchFrame.toFrame).map Frame.asWrite =
        q.pending.take (min maxFrames.toNat l.slotCount) ∧
      s.mem.readBatch l a maxFrames s.failures = ⟨.ok out, s.mem.advanceRead (s.mem.readSeq +
        (q.pending.take (min maxFrames.toNat l.slotCount)).length), s.failures⟩ := by
  have hocc := h.occupancy
  have hlap : ¬l.slotCount < s.mem.writeSeq - s.mem.readSeq := by
    have := h.bounded
    omega
  obtain ⟨out, hout, hscan⟩ := scan_held (min maxFrames.toNat l.slotCount) q.pending
    ⟨s.mem.readSeq, [], s.failures⟩ hocc h.held
  refine ⟨out, hout, ?_⟩
  rw [Mapped.readBatch, if_neg (by omega), if_neg h.intact]
  simp only [if_neg hlap]
  rw [hscan, List.nil_append]

theorem Tracks.readBatch (h : Tracks l a s q) (maxFrames : ℤ) :
    ∃ k, Tracks l a (s.readBatch l a maxFrames) (q.pop k) := by
  rcases Decidable.em (1 ≤ maxFrames ∧ maxFrames ≤ maxSlotCount) with ⟨hmin, hmax⟩ | hbad
  · obtain ⟨out, hout, hbatch⟩ := h.batch hmin hmax
    generalize hk : min maxFrames.toNat l.slotCount = k at hout hbatch
    refine ⟨k, ?_⟩
    have hocc := h.occupancy
    have hbound := h.bounded
    have hlen := congrArg List.length (List.take_append_drop k q.pending)
    rw [List.length_append] at hlen
    rw [Session.readBatch, hbatch]
    simp only [Session.frames]
    have hintact := h.intact
    refine ⟨?_, h.accepted, ?_, h.overwritten, h.failures, h.drops, ?_, ?_, h.below, h.ordered, ?_⟩
    · simp only [Mapped.Damaged, Mapped.advanceRead, not_or] at hintact ⊢
      obtain ⟨h1, h2, h3, h4, -⟩ := hintact
      exact ⟨h1, h2, h3, h4, by omega⟩
    · rw [List.map_append, hout, h.returned, DropQueue.pop]
    · simp only [Mapped.advanceRead, DropQueue.pop]
      omega
    · simp only [DropQueue.pop, List.length_drop]
      omega
    · intro i v hv
      simp only [DropQueue.pop, List.getElem?_drop] at hv
      have hk' : k ≤ q.pending.length := by
        have := (List.getElem?_eq_some_iff.mp hv).1
        omega
      obtain ⟨hseq, hheld⟩ := h.held (k + i) v hv
      simp only [Mapped.advanceRead, List.length_take, Nat.min_eq_left hk', Nat.add_assoc]
      exact ⟨hseq, hheld⟩
  · refine ⟨0, ?_⟩
    rw [Session.readBatch, Mapped.readBatch, if_pos (by omega)]
    have hpop : q.pop 0 = q := by simp [DropQueue.pop]
    simpa [Session.frames, hpop] using h

/-- What one batch over all slots would return is what is pending. -/
theorem Tracks.readable (h : Tracks l a s q) :
    (s.readable l a).map Frame.asWrite = q.pending := by
  have hmin := l.slotCount_min
  have hmax := l.slotCount_max
  obtain ⟨out, hout, hbatch⟩ := @Tracks.batch l a s q l.slotCount h (by omega) (by omega)
  rw [Session.readable, hbatch, Session.frames, hout, Int.toNat_natCast, Nat.min_self]
  exact List.take_of_length_le h.bounded

end Batch

/-! ### What a write does to the queue -/

section Write

variable {l : Layout} {a : Authority} {s : Session} {q : DropQueue Write}

/-- The lap of a write, as a change of the session. -/
def Session.lap (l : Layout) (s : Session) : Session :=
  { s with
    mem := s.mem.lapped l
    overwritten := s.overwritten ++
      List.range' s.mem.readSeq ((s.mem.lapped l).readSeq - s.mem.readSeq) }

/-- The stores of a write, as a change of the session. -/
def Session.store (l : Layout) (record : List UInt8) (w : Write) (s : Session) : Session :=
  { s with
    mem := s.mem.stored l record
    accepted := s.accepted ++ [w] }

/-- Lapping the consumer sheds the oldest pending write and leaves a free slot. -/
theorem Tracks.lap (h : Tracks l a s q) : Tracks l a (s.lap l) (q.shed l.slotCount) ∧
    (q.shed l.slotCount).pending.length < l.slotCount := by
  have hmin := l.slotCount_min
  have hocc := h.occupancy
  have hbound := h.bounded
  rcases Nat.lt_or_ge q.pending.length l.slotCount with hroom | hfull
  · have hmem : s.mem.lapped l = s.mem := by rw [Mapped.lapped, if_neg (by omega)]
    have hlap : s.lap l = s := by simp [Session.lap, hmem]
    rw [hlap, DropQueue.shed, if_neg (by omega)]
    exact ⟨h, hroom⟩
  · have hmem : s.mem.lapped l =
        { s.mem with readSeq := s.mem.readSeq + 1, drops := s.mem.drops + 1 } := by
      rw [Mapped.lapped, if_pos (by omega),
        show s.mem.writeSeq - l.slotCount + 1 = s.mem.readSeq + 1 by omega]
    rw [DropQueue.shed, if_pos hfull, Session.lap, hmem]
    obtain ⟨y, ys, hp⟩ : ∃ y ys, q.pending = y :: ys :=
      List.exists_cons_of_length_pos (by omega)
    have hlen : ys.length + 1 = q.pending.length := by simp [hp]
    have hintact := h.intact
    refine ⟨⟨?_, h.accepted, h.returned, ?_, h.failures, ?_, ?_, ?_, h.below, h.ordered, ?_⟩, ?_⟩
    · simp only [Mapped.Damaged, not_or] at hintact ⊢
      obtain ⟨h1, h2, h3, h4, -⟩ := hintact
      exact ⟨h1, h2, h3, h4, by omega⟩
    · have hy := (h.held 0 y (by simp [hp])).1
      simp [h.overwritten, hp, hy]
    · simp only [h.drops, hp, List.take_succ_cons, List.take_zero, List.length_append,
        List.length_singleton]
      omega
    · simp only [hp, List.drop_one, List.tail_cons]
      omega
    · simp only [hp, List.drop_one, List.tail_cons]
      omega
    · intro i v hv
      have hv' := h.held (i + 1) v (by simpa [hp] using hv)
      rwa [show s.mem.readSeq + (i + 1) = s.mem.readSeq + 1 + i by omega] at hv'
    · simp only [hp, List.drop_one, List.tail_cons]
      omega

/-- Storing a record that fits enqueues its write. -/
theorem Tracks.store (h : Tracks l a s q) (hroom : q.pending.length < l.slotCount) {w : Write}
    {record : List UInt8} (hseq : w.seq = s.mem.writeSeq)
    (henc : encodeFrame a w.payload w.schemaVer w.sensorId w.seq = .ok record)
    (hfit : record.length + 4 ≤ l.slotSize) :
    Tracks l a (s.store l record w) (q.enqueue w) := by
  have hocc := h.occupancy
  have hintact := h.intact
  refine ⟨?_, ?_, h.returned, h.overwritten, h.failures, h.drops, ?_, ?_, ?_, ?_, ?_⟩
  · simp only [Mapped.Damaged, Session.store, Mapped.stored, not_or] at hintact ⊢
    obtain ⟨h1, h2, h3, h4, -⟩ := hintact
    exact ⟨h1, h2, h3, h4, by omega⟩
  · simp only [Session.store, DropQueue.enqueue, h.accepted]
  · simp only [Session.store, Mapped.stored, DropQueue.enqueue, List.length_append,
      List.length_singleton]
    omega
  · simp only [DropQueue.enqueue, List.length_append, List.length_singleton]
    omega
  · intro v hv
    simp only [Session.store, Mapped.stored]
    rcases List.mem_append.mp hv with hv | hv
    · have := h.below v hv
      omega
    · rw [List.mem_singleton.mp hv, hseq]
      exact Nat.lt_succ_self _
  · refine List.pairwise_append.mpr ⟨h.ordered, List.pairwise_singleton _ _, fun v hv u hu => ?_⟩
    rw [List.mem_singleton.mp hu, hseq]
    exact h.below v hv
  · intro i v hv
    simp only [Session.store, Mapped.stored, DropQueue.enqueue] at hv ⊢
    rcases Nat.lt_or_ge i q.pending.length with hi | hi
    · -- an older slot: within one lap it is not the one written
      rw [List.getElem?_append_left hi] at hv
      rw [Function.update_of_ne (index_ne (by omega) (by omega))]
      exact h.held i v hv
    · have hi' : i = q.pending.length := by
        have := (List.getElem?_eq_some_iff.mp hv).1
        simp only [List.length_append, List.length_singleton] at this
        omega
      subst hi'
      obtain rfl : w = v := by simpa using hv
      rw [hocc, Function.update_self]
      refine ⟨hseq, ?_⟩
      rw [Holds, Slot.record_filled]
      exact ⟨henc, rfl, hfit⟩

/-- A whole write is a push, or leaves the queue alone. -/
theorem Tracks.write (h : Tracks l a s q) {payload : List UInt8} {schemaVer sensorId : ℤ}
    (hwhole : s.Whole l a (.write payload schemaVer sensorId)) :
    Tracks l a (s.write l a payload schemaVer sensorId) q ∨
      ∃ w, w.seq = s.mem.writeSeq ∧
        Tracks l a (s.write l a payload schemaVer sensorId) (q.push l.slotCount w) := by
  rcases Mapped.write_cases hwhole with ⟨e, -, hw⟩ | ⟨record, -, -, hw⟩ | ⟨record, henc, hfit, hw⟩
  · left
    rw [Session.write, hw]
    simpa using h
  · left
    rw [Session.write, hw]
    simp only [Nat.sub_self, List.range'_zero, List.append_nil]
    exact ⟨h.intact, h.accepted, h.returned, h.overwritten, h.failures,
      by simp [h.drops, Nat.add_assoc], h.occupancy, h.bounded, h.below, h.ordered, h.held⟩
  · right
    obtain ⟨hlap, hroom⟩ := h.lap
    have hseq : ((s.lap l).mem).writeSeq = s.mem.writeSeq := by
      simp only [Session.lap, Mapped.lapped]
      split
      · rfl
      · rfl
    refine ⟨⟨s.mem.writeSeq, schemaVer, sensorId, payload⟩, rfl, ?_⟩
    have hstore := hlap.store hroom (w := ⟨s.mem.writeSeq, schemaVer, sensorId, payload⟩) hseq.symm
      henc hfit
    rw [Session.write, hw]
    simpa [Session.store, Session.lap, Mapped.stored, DropQueue.push] using hstore

end Write

/-! ### Runs -/

section Runs

variable {l : Layout} {a : Authority} {s t : Session} {q : DropQueue Write} {c : Call}

/-- The session represents some sound queue. -/
def Represents (l : Layout) (a : Authority) (s : Session) : Prop := ∃ q, q.Sound ∧ Tracks l a s q

theorem Represents.start (l : Layout) (a : Authority) (slot : ℕ → Slot) :
    Represents l a (.start l slot) := by
  refine ⟨.empty, .empty, ?_, rfl, rfl, rfl, rfl, rfl, rfl, Nat.zero_le _, ?_, .nil, ?_⟩
  · simp [Mapped.Damaged, Session.start, Mapped.init]
  · simp [DropQueue.empty]
  · simp [DropQueue.empty]

theorem Tracks.backpressure (h : Tracks l a s q) : Tracks l a (s.call l a .backpressure) q := by
  rw [Session.call, Mapped.backpressure, if_neg h.intact]
  exact ⟨h.intact, h.accepted, h.returned, h.overwritten, h.failures, h.drops, h.occupancy,
    h.bounded, h.below, h.ordered, h.held⟩

theorem Represents.step (h : Represents l a s) (hstep : s.Step l a c t) : Represents l a t := by
  obtain ⟨q, hsound, hq⟩ := h
  obtain ⟨hwhole, rfl⟩ := hstep
  cases c with
  | write payload schemaVer sensorId =>
    rcases hq.write hwhole with hq' | ⟨w, hseq, hq'⟩
    · exact ⟨q, hsound, hq'⟩
    · refine ⟨_, hsound.push _ fun hmem => ?_, hq'⟩
      have := hq.below w hmem
      omega
  | readBatch maxFrames =>
    obtain ⟨k, hq'⟩ := hq.readBatch maxFrames
    exact ⟨_, hsound.pop k, hq'⟩
  | backpressure => exact ⟨q, hsound, hq.backpressure⟩

/-- Lost writes are told apart by their sequence numbers. -/
theorem Tracks.not_overwritten (h : Tracks l a s q) (hsound : q.Sound) :
    s.accepted.filter (fun w => w.seq ∉ s.overwritten) = q.delivered ++ q.pending := by
  rw [h.accepted, h.overwritten, ← hsound.split]
  refine List.filter_congr fun w hw => ?_
  have hinj : (q.accepted.map Write.seq).Nodup :=
    List.pairwise_map.mpr (h.ordered.imp fun hlt => Nat.ne_of_lt hlt)
  have hiff : w.seq ∈ q.lost.map Write.seq ↔ w ∈ q.lost := by
    refine ⟨fun hmem => ?_, List.mem_map_of_mem⟩
    obtain ⟨v, hv, hvw⟩ := List.mem_map.mp hmem
    rwa [← List.inj_on_of_nodup_map hinj (hsound.lost_mem v hv) hw hvw]
  simp only [hiff]

/-- CORRECT: whatever whole calls the two ends make in whatever order, what was returned, followed
    by what is still readable, is exactly the accepted writes that were not overwritten, in order;
    no frame fails authentication, the counters balance, and the next write is refused exactly if
    its record does not fit its slot. -/
theorem run_conserves {slot : ℕ → Slot} {calls : List Call}
    (h : Run (Session.Step l a) (.start l slot) calls s) :
    (s.returned ++ s.readable l a).map Frame.asWrite =
        s.accepted.filter (fun w => w.seq ∉ s.overwritten) ∧
      s.accepted.Pairwise (fun v w => v.seq < w.seq) ∧
      s.returned.Pairwise (fun f g => f.seq < g.seq) ∧
      s.failures = 0 ∧
      s.accepted.length = s.returned.length + (s.readable l a).length + s.overwritten.length ∧
      s.mem.drops = s.overwritten.length + s.refused ∧
      ∀ payload schemaVer sensorId, s.Whole l a (.write payload schemaVer sensorId) →
        ((s.mem.write l a payload schemaVer sensorId).1 = .ok false ↔
          ∃ record, encodeFrame a payload schemaVer sensorId s.mem.writeSeq = .ok record ∧
            l.slotSize < record.length + 4) := by
  obtain ⟨q, hsound, hq⟩ := h.invariant (fun _ _ _ hs hstep => hs.step hstep)
    (Represents.start l a slot)
  have hsplit := hq.not_overwritten hsound
  have hret := congrArg List.length hq.returned
  have hread := congrArg List.length hq.readable
  rw [List.length_map] at hret hread
  refine ⟨?_, hq.accepted ▸ hq.ordered, ?_, hq.failures, ?_, ?_,
    fun _ _ _ hwhole => Mapped.write_refused_iff hwhole⟩
  · rw [List.map_append, hq.returned, hq.readable, hsplit]
  · have hdel : q.delivered.Pairwise fun v w => v.seq < w.seq := by
      refine hq.ordered.sublist ?_
      have hsub : (q.delivered ++ q.pending).Sublist q.accepted :=
        hsound.split ▸ List.filter_sublist
      exact (List.sublist_append_left _ _).trans hsub
    rw [← hq.returned] at hdel
    exact (List.pairwise_map (f := Frame.asWrite) (R := fun v w => v.seq < w.seq)).mp hdel
  · rw [hq.accepted, hq.overwritten, List.length_map, hsound.count, ← hret, ← hread]
  · rw [hq.drops, hq.overwritten, List.length_map]

end Runs

/-- Two slots of 64 bytes. -/
def smallLayout : Layout := ⟨2, 64, by decide, by decide, by decide, by decide, by decide⟩

/-- A checksum over the message in place of the digest. -/
def checksum : Authority := ⟨fun message => le 32 (message.foldl (fun n b => n + b.toNat) 0),
  fun _ => length_le 32 _⟩

def blank : ℕ → Slot := fun _ => ⟨0, []⟩

/-- Three writes lap a ring of two slots, a batch of one follows, then an oversize write. -/
def lapSession : Session :=
  ((((Session.start smallLayout blank).write smallLayout checksum [1] 1 7).write smallLayout checksum
    [2] 1 7).write smallLayout checksum [3] 1 7).readBatch smallLayout checksum 1
    |>.write smallLayout checksum (List.replicate 64 0) 1 7

theorem run_conserves_lap :
    (lapSession.returned ++ lapSession.readable smallLayout checksum).map Frame.asWrite =
        [⟨1, 1, 7, [2]⟩, ⟨2, 1, 7, [3]⟩] ∧ lapSession.mem.drops = 2 := by
  have h : Run (Session.Step smallLayout checksum) (.start smallLayout blank) _ lapSession :=
    ((((Run.nil.snoc (a := .write [1] 1 7) ⟨by decide +kernel, rfl⟩).snoc
      (a := .write [2] 1 7) ⟨by decide +kernel, rfl⟩).snoc
      (a := .write [3] 1 7) ⟨by decide +kernel, rfl⟩).snoc (a := .readBatch 1) ⟨trivial, rfl⟩).snoc
      (a := .write (List.replicate 64 0) 1 7) ⟨by decide +kernel, rfl⟩
  obtain ⟨hframes, -, -, -, -, hdrops, -⟩ := run_conserves h
  rw [hframes, hdrops]
  decide +kernel

end Angerona.Ring
