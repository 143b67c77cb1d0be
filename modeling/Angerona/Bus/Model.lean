import Angerona.Lib.History

/-!
    The event bus: its two bounded lanes and the cursors over them.

    `deliver` is the locked section of `_deliver`, for an event that is already copied, signed and
    admitted. The general lane keeps the newest events without their revisions; the priority lane
    keeps HIGH and CRITICAL events with their global and lane revisions. -/

namespace Angerona.Bus
open History

inductive Severity where
  | info
  | low
  | medium
  | high
  | critical
  deriving DecidableEq

/-- The integer value of a severity. -/
def Severity.rank : Severity → ℕ
  | .info => 0
  | .low => 1
  | .medium => 2
  | .high => 3
  | .critical => 4

/-- An event; `content` stands for the fields the bus never reads. -/
structure Event (α : Type) where
  severity : Severity
  content : α
  deriving DecidableEq

variable {α : Type}

/-- `event.severity >= Severity.HIGH`. -/
def Event.isPriority (event : Event α) : Bool := Severity.high.rank ≤ event.severity.rank

structure EventBus (α : Type) where
  ringSize : ℕ
  prioritySize : ℕ
  ring : List (Event α)
  priorityRing : List (ℕ × ℕ × Event α)
  revision : ℕ
  priorityRevision : ℕ

namespace EventBus

/-- `max(1, int(priority_ring_size))`, with its default. -/
def priorityCapacity (ringSize : ℕ) (priorityRingSize : Option ℤ) : ℕ :=
  (max 1 (priorityRingSize.getD (max 64 ringSize))).toNat

/-- `__init__`; a deque takes no negative `maxlen`. -/
def new (ringSize : ℕ) (priorityRingSize : Option ℤ) : EventBus α :=
  ⟨ringSize, priorityCapacity ringSize priorityRingSize, [], [], 0, 0⟩

/-- `_deliver`. -/
def deliver (bus : EventBus α) (event : Event α) : EventBus α :=
  let bus :=
    { bus with ring := push bus.ringSize bus.ring event, revision := bus.revision + 1 }
  if event.isPriority then
    { bus with
      priorityRevision := bus.priorityRevision + 1
      priorityRing := push bus.prioritySize bus.priorityRing
        (bus.revision, bus.priorityRevision + 1, event) }
  else bus

/-- `priority_records_since`. -/
def priorityRecordsSince (bus : EventBus α) (previous : ℤ) : ℕ × List (ℕ × Event α) × Bool :=
  let current := bus.priorityRevision
  if previous = current then (current, [], false)
  else if previous < 0 ∨ current < previous then
    (current, bus.priorityRing.reverse.map (·.2), true)
  else
    let delta := (current - previous).toNat
    let retained := bus.priorityRing.length
    (current, (bus.priorityRing.reverse.take (min delta retained)).map (·.2),
      decide (retained < delta))

/-- `(current - offset, event) for offset, event in enumerate(newest)`. -/
def stamped (current : ℕ) (newest : List (Event α)) : List (ℕ × Event α) :=
  newest.zipIdx.map fun p => (current - p.2, p.1)

/-- `events_by_revision.setdefault(revision, event)`. -/
def setDefault (events : List (ℕ × Event α)) (entry : ℕ × Event α) : List (ℕ × Event α) :=
  if events.any (·.1 = entry.1) then events else events ++ [entry]

/-- The entries of the dictionary, sorted by key in reverse. -/
def sortedReverse (events : List (ℕ × Event α)) : List (ℕ × Event α) :=
  events.insertionSort fun a b => b.1 ≤ a.1

/-- The priority lane's events under their global revisions. -/
def globalRecords (bus : EventBus α) : List (ℕ × Event α) :=
  bus.priorityRing.map fun entry => (entry.1, entry.2.2)

/-- `records_since`. -/
def recordsSince (bus : EventBus α) (previous : ℤ) : ℕ × List (ℕ × Event α) × Bool :=
  let current := bus.revision
  if previous = current then (current, [], false)
  else if previous < 0 ∨ current < previous then
    (current, sortedReverse (bus.globalRecords.foldl setDefault (stamped current bus.ring.reverse)),
      true)
  else
    let delta := (current - previous).toNat
    let retained := bus.ring.length
    if retained < delta then
      (current, sortedReverse
        ((bus.globalRecords.filter fun entry => previous < entry.1).foldl setDefault
          ((stamped current bus.ring.reverse).filter fun entry => previous < entry.1)), true)
    else (current, stamped current (bus.ring.reverse.take (min delta retained)), false)

end EventBus

/-! ### The lanes as views of the history -/

/-- The HIGH and CRITICAL events of a history. -/
def priorityEvents (hist : List (Event α)) : List (Event α) := hist.filter Event.isPriority

/-- They with their global and lane revisions. -/
def priorityLane (hist : List (Event α)) : List (ℕ × ℕ × Event α) :=
  (numbered ((numbered hist).filter fun p => p.2.isPriority)).map fun p => (p.2.1, p.1, p.2.2)

/-- The bus holds the newest part of the history in each lane. -/
structure Retains (bus : EventBus α) (hist : List (Event α)) : Prop where
  ring : bus.ring = hist.rtake bus.ringSize
  revision : bus.revision = hist.length
  priorityRing : bus.priorityRing = (priorityLane hist).rtake bus.prioritySize
  priorityRevision : bus.priorityRevision = (priorityEvents hist).length

theorem length_priorityLane (hist : List (Event α)) :
    (priorityLane hist).length = (priorityEvents hist).length := by
  have hmap : priorityEvents hist =
      ((numbered hist).filter fun p => p.2.isPriority).map (·.2) := by
    have hsnd : (numbered hist).map (·.2) = hist := by
      simp [numbered, numberedFrom, Function.comp_def]
    rw [priorityEvents]
    conv_lhs => rw [← hsnd]
    rw [List.filter_map]
    rfl
  rw [priorityLane, List.length_map, length_numbered, hmap, List.length_map]

/-- A priority event is appended to the lane under the next two revisions. -/
theorem priorityLane_concat_pos (hist : List (Event α)) {event : Event α}
    (h : event.isPriority = true) : priorityLane (hist ++ [event]) =
      priorityLane hist ++ [(hist.length + 1, (priorityEvents hist).length + 1, event)] := by
  have hlen := length_priorityLane hist
  rw [priorityLane, List.length_map, length_numbered] at hlen
  rw [priorityLane, numbered_concat, List.filter_append, List.filter_cons_of_pos (by simpa using h),
    List.filter_nil, numbered_concat, List.map_append, hlen]
  rfl

theorem priorityLane_concat_neg (hist : List (Event α)) {event : Event α}
    (h : event.isPriority = false) : priorityLane (hist ++ [event]) = priorityLane hist := by
  rw [priorityLane, numbered_concat, List.filter_append, List.filter_cons_of_neg (by simpa using h),
    List.filter_nil, List.append_nil, priorityLane]

theorem retains_new (ringSize : ℕ) (priorityRingSize : Option ℤ) :
    Retains (EventBus.new ringSize priorityRingSize : EventBus α) [] :=
  ⟨(List.rtake_nil _).symm, rfl, (List.rtake_nil _).symm, rfl⟩

/-- Delivery extends the history by the event. -/
theorem Retains.deliver {bus : EventBus α} {hist : List (Event α)} (h : Retains bus hist)
    (event : Event α) : Retains (bus.deliver event) (hist ++ [event]) := by
  obtain ⟨h1, h2, h3, h4⟩ := h
  cases hp : event.isPriority with
  | true =>
    simp only [EventBus.deliver, hp, if_true]
    refine ⟨by rw [h1, push_rtake], by simp [h2], ?_, ?_⟩
    · rw [h3, h2, h4, push_rtake, priorityLane_concat_pos hist hp]
    · simp [h4, priorityEvents, hp]
  | false =>
    simp only [EventBus.deliver, hp, Bool.false_eq_true, if_false]
    refine ⟨by rw [h1, push_rtake], by simp [h2], ?_, ?_⟩
    · rw [h3, priorityLane_concat_neg hist hp]
    · simp [h4, priorityEvents, hp]

/-- The bus after a sequence of publications retains that sequence. -/
theorem Retains.deliverAll {bus : EventBus α} {hist : List (Event α)} (h : Retains bus hist) :
    ∀ events : List (Event α), Retains (events.foldl EventBus.deliver bus) (hist ++ events) := by
  intro events
  induction events generalizing bus hist with
  | nil => rwa [List.append_nil]
  | cons event events ih =>
    rw [List.foldl_cons, List.append_cons]
    exact ih (h.deliver event)

theorem retains_publications (ringSize : ℕ) (priorityRingSize : Option ℤ)
    (hist : List (Event α)) :
    Retains (hist.foldl EventBus.deliver (EventBus.new ringSize priorityRingSize)) hist :=
  (retains_new ringSize priorityRingSize).deliverAll hist

theorem deliver_sizes (bus : EventBus α) (event : Event α) :
    (bus.deliver event).ringSize = bus.ringSize ∧
      (bus.deliver event).prioritySize = bus.prioritySize := by
  cases hp : event.isPriority with
  | true => simp [EventBus.deliver, hp]
  | false => simp [EventBus.deliver, hp]

theorem deliverAll_sizes (bus : EventBus α) (events : List (Event α)) :
    (events.foldl EventBus.deliver bus).ringSize = bus.ringSize ∧
      (events.foldl EventBus.deliver bus).prioritySize = bus.prioritySize := by
  induction events generalizing bus with
  | nil => exact ⟨rfl, rfl⟩
  | cons event events ih =>
    obtain ⟨h1, h2⟩ := ih (bus.deliver event)
    obtain ⟨h3, h4⟩ := deliver_sizes bus event
    exact ⟨h1.trans h3, h2.trans h4⟩

end Angerona.Bus
