import Angerona.Ring.Conservation

/-!
    One producer and one consumer, step by step.

    Every load and store of a header field or a slot is a step of its own. The producer moves
    `read_seq` when it laps the consumer, from a value it loaded earlier; the consumer moves it at
    the end of a batch. Nothing orders the two stores. -/

namespace Angerona.Ring
open Transition

/-! ### The producer's steps -/

/-- Where `write` stands, with its locals. Each state is named after its next step. -/
inductive Producer where
  | idle
  | loadRefusedDrops
  | storeRefusedDrops (drops : ℕ)
  | loadRead (w : ℕ) (record : List UInt8)
  | advanceRead (w : ℕ) (record : List UInt8) (newRead : ℕ)
  | loadDrops (w : ℕ) (record : List UInt8)
  | storeDrops (w : ℕ) (record : List UInt8) (drops : ℕ)
  | storeLength (w : ℕ) (record : List UInt8)
  | storeBytes (w : ℕ) (record : List UInt8)
  | storeWrite (w : ℕ)
  | occupancyWrite
  | occupancyRead (w : ℕ)
  | storeFlag (on : Bool)

namespace Producer

variable (l : Layout) (a : Authority)

/-- The first step of `write`: `write_seq` is loaded and the record built. -/
def start (payload : List UInt8) (schemaVer sensorId : ℤ) (m : Mapped) : Producer :=
  match encodeFrame a payload schemaVer sensorId m.writeSeq with
  | .error _ => .idle
  | .ok record =>
    if l.slotSize < record.length + 4 then .loadRefusedDrops else .loadRead m.writeSeq record

/-- The next step. A store of a counter that no longer fits raises, which ends the call. -/
def step : Producer → Mapped → Producer × Mapped
  | .idle, m => (.idle, m)
  | .loadRefusedDrops, m => (.storeRefusedDrops m.drops, m)
  | .storeRefusedDrops d, m => (.idle, if d + 1 ≤ maxU64 then { m with drops := d + 1 } else m)
  | .loadRead w record, m =>
    if m.readSeq + l.slotCount ≤ w then (.advanceRead w record (w - l.slotCount + 1), m)
    else (.storeLength w record, m)
  | .advanceRead w record newRead, m => (.loadDrops w record, m.advanceRead newRead)
  | .loadDrops w record, m => (.storeDrops w record m.drops, m)
  | .storeDrops w record d, m =>
    if d + 1 ≤ maxU64 then (.storeLength w record, { m with drops := d + 1 }) else (.idle, m)
  | .storeLength w record, m =>
    (.storeBytes w record, m.putSlot (Mapped.index l w) (·.putLength record.length))
  | .storeBytes w record, m => (.storeWrite w, m.putSlot (Mapped.index l w) (·.putBytes record))
  | .storeWrite w, m =>
    if w + 1 ≤ maxU64 then (.occupancyWrite, { m with writeSeq := w + 1 }) else (.idle, m)
  | .occupancyWrite, m => (.occupancyRead m.writeSeq, m)
  | .occupancyRead w, m => (.storeFlag (Mapped.pressed l (w - m.readSeq)), m)
  | .storeFlag on, m => (.idle, m.setBackpressure on)

end Producer

/-! ### The consumer's steps -/

/-- Where `read_batch` stands, with its locals. -/
inductive Consumer where
  | idle
  /-- The header is loaded up to `write_seq`. -/
  | loadRead (budget w : ℕ)
  /-- At the loop's test. -/
  | test (w missed budget : ℕ) (scan : Scan)
  /-- The slot's length is loaded, its bytes are not. -/
  | loadBytes (w missed budget recLen : ℕ) (scan : Scan)

structure World where
  mem : Mapped
  producer : Producer
  consumer : Consumer
  failures : ℕ
  returned : List Frame

namespace World

variable (l : Layout) (a : Authority)

def start (slot : ℕ → Slot) : World := ⟨.init l slot, .idle, .idle, 0, []⟩

/-- The last step of a batch: its cursor is stored and its frames are returned. -/
def finish (s : World) (scan : Scan) : World :=
  { s with
    mem := s.mem.advanceRead scan.r
    consumer := .idle
    failures := scan.failures
    returned := s.returned ++ scan.out.map BatchFrame.toFrame }

/-- The consumer's next step. -/
def consume (s : World) : World :=
  match s.consumer with
  | .idle => s
  | .loadRead budget w =>
    let r := s.mem.readSeq
    if Mapped.Damaged l { s.mem with writeSeq := w } then
      { s with consumer := .idle, failures := s.failures + 1 }
    else
      let missed := if l.slotCount < w - r then (w - l.slotCount) - r else 0
      let first := if l.slotCount < w - r then w - l.slotCount else r
      { s with consumer := .test w missed budget ⟨first, [], s.failures⟩ }
  | .test w missed budget scan =>
    if scan.r < w ∧ 0 < budget then
      let recLen := (s.mem.slot (Mapped.index l scan.r)).recLen
      { s with consumer := .loadBytes w missed budget recLen scan }
    else s.finish scan
  | .loadBytes w missed budget recLen scan =>
    let slot : Slot := ⟨recLen, (s.mem.slot (Mapped.index l scan.r)).bytes⟩
    { s with consumer := .test w missed (budget - 1) (scan.turn l a missed slot) }

/-- The first step of `read_batch`: the limit is checked and `write_seq` loaded. -/
def startBatch (maxFrames : ℤ) (s : World) : World :=
  if maxFrames < 1 ∨ maxSlotCount < maxFrames then s
  else { s with consumer := .loadRead (min maxFrames.toNat l.slotCount) s.mem.writeSeq }

end World

inductive Action where
  /-- The producer enters `write`. -/
  | write (payload : List UInt8) (schemaVer sensorId : ℤ)
  /-- The producer takes its next step. -/
  | produce
  /-- The consumer enters `read_batch`. -/
  | readBatch (maxFrames : ℤ)
  /-- The consumer takes its next step. -/
  | consume

/-- One step of one of the two; an end enters a call only when it is not in one. -/
def World.act (l : Layout) (a : Authority) (s : World) : Action → Option World
  | .write payload schemaVer sensorId =>
    match s.producer with
    | .idle => some { s with producer := .start l a payload schemaVer sensorId s.mem }
    | _ => none
  | .produce =>
    let next := s.producer.step l s.mem
    some { s with producer := next.1, mem := next.2 }
  | .readBatch maxFrames =>
    match s.consumer with
    | .idle => some (s.startBatch l maxFrames)
    | _ => none
  | .consume => some (s.consume l a)

/-- One step of one end. -/
def World.Step (l : Layout) (a : Authority) (s : World) (α : Action) (t : World) : Prop :=
  s.act l a α = some t

/-! ### Calls that are not interrupted -/

section Whole

variable {l : Layout} {a : Authority} {m : Mapped}

/-- Steps of the producer alone. -/
def Producer.steps (l : Layout) : ℕ → Producer × Mapped → Producer × Mapped
  | 0, s => s
  | n + 1, s => Producer.steps l n (s.1.step l s.2)

theorem Producer.steps_idle (n : ℕ) (m : Mapped) :
    Producer.steps l n (.idle, m) = (.idle, m) := by
  induction n with
  | zero => rfl
  | succ n ih => exact ih

theorem Producer.steps_add (n k : ℕ) (s : Producer × Mapped) :
    Producer.steps l (n + k) s = Producer.steps l k (Producer.steps l n s) := by
  induction n generalizing s with
  | zero => rw [Nat.zero_add, Producer.steps]
  | succ n ih => rw [Nat.succ_add, Producer.steps, ih, Producer.steps]

/-- The last six steps are the slot and header stores. -/
theorem Producer.steps_store (record : List UInt8) (m : Mapped) :
    Producer.steps l 6 (.storeLength m.writeSeq record, m) = (.idle, (m.store l record).2) := by
  have hslot : ∀ m', Producer.steps l 4 (.storeWrite m.writeSeq, m') =
      if m.writeSeq + 1 ≤ maxU64 then
        Producer.steps l 3 (.occupancyWrite, { m' with writeSeq := m.writeSeq + 1 })
      else (.idle, m') := by
    intro m'
    rw [Producer.steps, Producer.step]
    split
    · rfl
    · exact Producer.steps_idle 3 m'
  rw [Producer.steps, Producer.step, Producer.steps, Producer.step, hslot, Mapped.store]
  split
  · rfl
  · rfl

/-- Giving up the oldest frame takes four steps, or ends the call when the counter is full. -/
theorem Producer.steps_lap (record : List UInt8) {m : Mapped}
    (hfull : m.readSeq + l.slotCount ≤ m.writeSeq) :
    Producer.steps l 4 (.loadRead m.writeSeq record, m) =
      match (m.advanceRead (m.writeSeq - l.slotCount + 1)).bumpDrops with
      | .error _ => (.idle, m.advanceRead (m.writeSeq - l.slotCount + 1))
      | .ok m' => (.storeLength m.writeSeq record, m') := by
  rw [Producer.steps, Producer.step, if_pos hfull, Producer.steps, Producer.step, Producer.steps,
    Producer.step, Producer.steps, Producer.step, Mapped.bumpDrops]
  split
  · rfl
  · rfl

/-- A write whose steps are not interleaved with the consumer's is the whole call. -/
theorem Producer.steps_write (payload : List UInt8) (schemaVer sensorId : ℤ) (m : Mapped) :
    Producer.steps l 10 (.start l a payload schemaVer sensorId m, m) =
      (.idle, (m.write l a payload schemaVer sensorId).2) := by
  rw [Producer.start, Mapped.write]
  rcases encodeFrame a payload schemaVer sensorId m.writeSeq with e | record
  · exact Producer.steps_idle 10 m
  rcases Nat.lt_or_ge l.slotSize (record.length + 4) with hbig | hfit
  · simp only [if_pos hbig]
    rw [Producer.steps, Producer.step, Producer.steps, Producer.step, Producer.steps_idle,
      Mapped.bumpDrops]
    split
    · rfl
    · rfl
  · simp only [if_neg (Nat.not_lt.mpr hfit)]
    rcases Nat.lt_or_ge m.writeSeq (m.readSeq + l.slotCount) with hroom | hfull
    · have hload : Producer.steps l 1 (.loadRead m.writeSeq record, m) =
          (.storeLength m.writeSeq record, m) := by
        rw [Producer.steps, Producer.step, if_neg (Nat.not_le.mpr hroom), Producer.steps]
      rw [if_neg (by omega), Producer.steps_add 1 9, hload, Producer.steps_add 6 3,
        Producer.steps_store, Producer.steps_idle]
    · rw [if_pos hfull, Producer.steps_add 4 6, Producer.steps_lap record hfull]
      rcases hb : (m.advanceRead (m.writeSeq - l.slotCount + 1)).bumpDrops with e | m'
      · exact Producer.steps_idle 6 _
      · have hw : m'.writeSeq = m.writeSeq := by
          rw [Mapped.bumpDrops] at hb
          split at hb
          · rw [← Except.ok.inj hb]
            rfl
          · simp at hb
        simp only [← hw]
        exact Producer.steps_store record m'

/-- The consumer moved on, nothing stored. -/
def World.moved (s : World) (c : Consumer) : World := { s with consumer := c }

/-- From the loop's test on, the consumer alone does what the loop does. -/
theorem World.consume_loop {w missed : ℕ} : ∀ (budget : ℕ) (scan : Scan) (s : World),
    ∃ n, (World.consume l a)^[n] (s.moved (.test w missed budget scan)) =
      s.finish (s.mem.scan l a w missed budget scan)
  | 0, scan, s => ⟨1, by simp [World.consume, World.moved, World.finish, Mapped.scan]⟩
  | budget + 1, scan, s => by
    rcases Nat.lt_or_ge scan.r w with hr | hr
    · -- one turn takes two steps: the length, then the bytes
      obtain ⟨n, hn⟩ := World.consume_loop budget
        (scan.turn l a missed (s.mem.slot (Mapped.index l scan.r))) s
      have htwo : (World.consume l a)^[2] (s.moved (.test w missed (budget + 1) scan)) =
          s.moved (.test w missed budget
            (scan.turn l a missed (s.mem.slot (Mapped.index l scan.r)))) := by
        simp [World.consume, World.moved, hr]
      refine ⟨n + 2, ?_⟩
      rw [Function.iterate_add_apply, htwo, hn, Mapped.scan, if_pos hr]
    · refine ⟨1, ?_⟩
      simp [World.consume, World.moved, World.finish, Mapped.scan, Nat.not_lt.mpr hr]

/-- A batch whose steps are not interleaved with the producer's is the whole call. -/
theorem World.consume_batch {s : World} (hc : s.consumer = .idle) (maxFrames : ℤ) :
    ∃ n, (World.consume l a)^[n] (s.startBatch l maxFrames) =
      { s with
        mem := (s.mem.readBatch l a maxFrames s.failures).ring
        consumer := .idle
        failures := (s.mem.readBatch l a maxFrames s.failures).failures
        returned :=
          s.returned ++ Session.frames (s.mem.readBatch l a maxFrames s.failures).result } := by
  rw [World.startBatch, Mapped.readBatch]
  split
  · exact ⟨0, by simp [Session.frames, ← hc]⟩
  · split
    · rename_i hbad
      refine ⟨1, ?_⟩
      simp [World.consume, Session.frames, hbad]
    · rename_i hgood
      obtain ⟨n, hn⟩ := World.consume_loop _ _ s
      refine ⟨n + 1, ?_⟩
      rw [Function.iterate_succ_apply]
      simp only [World.consume, if_neg hgood]
      exact hn

end Whole

/-! ### Order -/

section Order

variable {l : Layout} {a : Authority} {s t : World} {α : Action}

/-- Sequence numbers increase along the frames, and stay below a cursor. -/
def Ascends (frames : List Frame) (cursor : ℕ) : Prop :=
  frames.Pairwise (fun f g => f.seq < g.seq) ∧ ∀ f ∈ frames, f.seq < cursor

theorem Ascends.mono {frames : List Frame} {c d : ℕ} (h : Ascends frames c) (hcd : c ≤ d) :
    Ascends frames d := ⟨h.1, fun f hf => (h.2 f hf).trans_le hcd⟩

theorem Ascends.snoc {frames : List Frame} {f : Frame} (h : Ascends frames f.seq) :
    Ascends (frames ++ [f]) (f.seq + 1) := by
  refine ⟨List.pairwise_append.mpr ⟨h.1, List.pairwise_singleton _ _, fun g hg k hk => ?_⟩,
    fun g hg => ?_⟩
  · rw [List.mem_singleton.mp hk]
    exact h.2 g hg
  · rcases List.mem_append.mp hg with hg | hg
    · exact (h.2 g hg).trans (Nat.lt_succ_self _)
    · rw [List.mem_singleton.mp hg]
      exact Nat.lt_succ_self _

/-- What is returned stays below the cursor the consumer reads from next: the stored one between
    batches, its own inside a batch. -/
def World.Ordered (s : World) : Prop :=
  match s.consumer with
  | .idle | .loadRead _ _ => Ascends s.returned s.mem.readSeq
  | .test _ _ _ scan | .loadBytes _ _ _ _ scan =>
    Ascends (s.returned ++ scan.out.map BatchFrame.toFrame) scan.r

/-- Whatever is in the slot, a turn of the loop keeps the order. -/
theorem turn_ascends {before : List Frame} {missed : ℕ} {slot : Slot} {scan : Scan}
    (h : Ascends (before ++ scan.out.map BatchFrame.toFrame) scan.r) :
    Ascends (before ++ (scan.turn l a missed slot).out.map BatchFrame.toFrame)
      (scan.turn l a missed slot).r := by
  rw [Scan.turn]
  split
  · exact h.mono (Nat.le_succ _)
  · rcases hdec : decodeFrame a slot.record scan.r with e | frame
    · exact h.mono (Nat.le_succ _)
    · have hseq := decodeFrame_seq hdec
      simp only [List.map_append, List.map_singleton, ← List.append_assoc]
      rw [← hseq] at h ⊢
      exact h.snoc

/-- The consumer is inside its loop: it has its own cursor. -/
def Consumer.Scanning : Consumer → Prop
  | .idle | .loadRead _ _ => False
  | .test _ _ _ _ | .loadBytes _ _ _ _ _ => True

/-- The step does not move the stored `read_seq` back under a consumer outside its loop: a producer
    about to give up the oldest frame finds the cursor no further than where it will put it. -/
def World.NoRewind (s : World) (α : Action) : Prop :=
  match α, s.producer with
  | .produce, .advanceRead _ _ newRead => s.consumer.Scanning ∨ s.mem.readSeq ≤ newRead
  | _, _ => True

/-- Only its lap moves the stored cursor in the producer's steps. -/
theorem Producer.step_readSeq (p : Producer) (m : Mapped) :
    (p.step l m).2.readSeq = m.readSeq ∨
      ∃ w record newRead, p = .advanceRead w record newRead ∧ (p.step l m).2.readSeq = newRead := by
  cases p with
  | advanceRead w record newRead => exact Or.inr ⟨w, record, newRead, rfl, rfl⟩
  | storeRefusedDrops d => left; simp only [Producer.step]; split <;> rfl
  | loadRead w record => left; simp only [Producer.step]; split <;> rfl
  | storeDrops w record d => left; simp only [Producer.step]; split <;> rfl
  | storeWrite w => left; simp only [Producer.step]; split <;> rfl
  | _ => exact Or.inl rfl

theorem World.Ordered.produce (h : s.Ordered) (hguard : s.NoRewind .produce) :
    World.Ordered
      { s with producer := (s.producer.step l s.mem).1, mem := (s.producer.step l s.mem).2 } := by
  have hcursor : ¬s.consumer.Scanning → s.mem.readSeq ≤ (s.producer.step l s.mem).2.readSeq := by
    intro hc
    rcases Producer.step_readSeq (l := l) s.producer s.mem with hr | ⟨w, record, newRead, hp, hr⟩
    · exact hr.ge
    · simp only [World.NoRewind, hp] at hguard
      rw [hr]
      exact hguard.resolve_left hc
  rcases hc : s.consumer with _ | ⟨budget, w⟩ | ⟨w, missed, budget, scan⟩ |
    ⟨w, missed, budget, recLen, scan⟩
  · simp only [World.Ordered, hc] at h ⊢
    exact h.mono (hcursor (by simp [hc, Consumer.Scanning]))
  · simp only [World.Ordered, hc] at h ⊢
    exact h.mono (hcursor (by simp [hc, Consumer.Scanning]))
  · simpa only [World.Ordered, hc] using h
  · simpa only [World.Ordered, hc] using h

/-- The consumer's steps keep the order whatever the producer has done in between. -/
theorem World.Ordered.consume (h : s.Ordered) : (s.consume l a).Ordered := by
  rcases hc : s.consumer with _ | ⟨budget, w⟩ | ⟨w, missed, budget, scan⟩ |
    ⟨w, missed, budget, recLen, scan⟩
  · rwa [World.consume, hc]
  · simp only [World.Ordered, hc] at h
    simp only [World.consume, hc]
    split
    · exact h
    · simp only [World.Ordered, List.map_nil, List.append_nil]
      refine h.mono ?_
      split
      · omega
      · exact le_rfl
  · simp only [World.Ordered, hc] at h
    simp only [World.consume, hc]
    split
    · exact h
    · exact h
  · simp only [World.Ordered, hc] at h
    simp only [World.consume, hc]
    exact turn_ascends h

theorem World.Ordered.step (h : s.Ordered) (hguard : s.NoRewind α) (hstep : s.Step l a α t) :
    t.Ordered := by
  cases α with
  | write payload schemaVer sensorId =>
    simp only [World.Step, World.act] at hstep
    split at hstep
    · obtain rfl := Option.some.inj hstep
      exact h
    · simp at hstep
  | produce =>
    obtain rfl := Option.some.inj hstep
    exact h.produce hguard
  | readBatch maxFrames =>
    simp only [World.Step, World.act] at hstep
    split at hstep
    · rename_i hc
      obtain rfl := Option.some.inj hstep
      rw [World.startBatch]
      split
      · exact h
      · simpa only [World.Ordered, hc] using h
    · simp at hstep
  | consume =>
    obtain rfl := Option.some.inj hstep
    exact h.consume

/-- CORRECT: along every interleaving in which no lap moves the stored cursor back under a consumer
    outside its loop, the returned sequence numbers strictly increase. -/
theorem returned_ascends {slot : ℕ → Slot} {actions : List Action}
    (h : Run (Guarded World.NoRewind (World.Step l a)) (.start l slot) actions s) :
    s.returned.Pairwise fun f g => f.seq < g.seq := by
  have hord : s.Ordered := h.invariant (fun _ _ _ hs hstep => hs.step hstep.1 hstep.2)
    ⟨.nil, by simp [World.start]⟩
  rcases hc : s.consumer with _ | ⟨budget, w⟩ | ⟨w, missed, budget, scan⟩ |
    ⟨w, missed, budget, recLen, scan⟩
  · simp only [World.Ordered, hc] at hord
    exact hord.1
  · simp only [World.Ordered, hc] at hord
    exact hord.1
  · simp only [World.Ordered, hc] at hord
    exact (List.pairwise_append.mp hord.1).1
  · simp only [World.Ordered, hc] at hord
    exact (List.pairwise_append.mp hord.1).1

instance (s : World) (α : Action) : Decidable (s.NoRewind α) := by
  unfold World.NoRewind Consumer.Scanning
  split
  · split <;> infer_instance
  · infer_instance

/-- A step, or nothing where it would move the stored cursor back. -/
def World.guardedAct (l : Layout) (a : Authority) (s : World) (α : Action) : Option World :=
  if s.NoRewind α then s.act l a α else none

theorem World.guardedAct_run {actions : List Action} (h : actions.foldlM (guardedAct l a) s = some t) :
    Run (Guarded World.NoRewind (World.Step l a)) s actions t := by
  refine (Run.of_exec h).mono fun s α t hst => ?_
  rw [World.guardedAct] at hst
  split at hst
  · rename_i hguard
    exact ⟨hguard, hst⟩
  · simp at hst

end Order

/-- A write of one byte with its `n` steps, none of them interrupted. -/
def wholeWrite (b : UInt8) (n : ℕ) : List Action := .write [b] 1 7 :: List.replicate n .produce

/-- A batch over both slots with its steps. -/
def wholeBatch : List Action := .readBatch 2 :: List.replicate 6 .consume

def lapActions : List Action := wholeWrite 1 7 ++ wholeWrite 2 7 ++ wholeWrite 3 10 ++ wholeBatch

/-- The third write laps the idle consumer. -/
theorem returned_ascends_lap : ∃ s, Run (Guarded World.NoRewind (World.Step smallLayout checksum))
      (.start smallLayout blank) lapActions s ∧ s.returned.map Frame.seq = [1, 2] ∧
      s.returned.Pairwise fun f g => f.seq < g.seq := by
  have h : (lapActions.foldlM (World.guardedAct smallLayout checksum) (.start smallLayout blank)).map
      (fun s : World => s.returned.map Frame.seq) = some [1, 2] := by
    decide +kernel
  obtain ⟨s, hs, hseq⟩ := Option.map_eq_some_iff.mp h
  exact ⟨s, World.guardedAct_run hs, hseq, returned_ascends (World.guardedAct_run hs)⟩

/-- The third write loads `read_seq` and pauses; a batch drains the ring; the write goes on. -/
def rewindActions : List Action :=
  wholeWrite 1 7 ++ wholeWrite 2 7 ++ wholeWrite 3 1 ++ wholeBatch ++
    List.replicate 9 Action.produce ++ wholeBatch

/-- The paused write lowers the cursor the batch has stored, and the next batch returns frame 1
    again. -/
theorem rewind_returns_twice : ∃ s, Run (World.Step smallLayout checksum) (.start smallLayout blank)
      rewindActions s ∧ s.returned.map Frame.seq = [0, 1, 1, 2] ∧
      ¬s.returned.Pairwise fun f g => f.seq < g.seq := by
  have h : (rewindActions.foldlM (World.act smallLayout checksum) (.start smallLayout blank)).map
      (fun s : World => s.returned.map Frame.seq) = some [0, 1, 1, 2] := by
    decide +kernel
  obtain ⟨s, hs, hseq⟩ := Option.map_eq_some_iff.mp h
  refine ⟨s, Run.of_exec hs, hseq, fun hasc => ?_⟩
  have hmap : (s.returned.map Frame.seq).Pairwise (· < ·) := List.pairwise_map.mpr hasc
  rw [hseq] at hmap
  revert hmap
  decide

end Angerona.Ring
