import Mathlib
import Angerona.Lib.Dict
import Angerona.Lib.Transition
import Angerona.Bus.Records

/-!
    The delivery loop of the active response module, `process_pending_once` (`modules/soar_engine.py`),
    on a bus that others publish on meanwhile.

    A call reads what the bus still holds after its cursor, oldest first, and evaluates one event after
    the other. An event whose evaluation raises keeps the cursor and ends the call, until the third
    time: then it is given up, an alert says so, and the cursor moves on. What is counted of failures
    is kept for the events of the batch only.

    The module's own alerts are published on the same bus, and the publisher can raise: a mesh refuses
    an event when it is frozen or the admission was revoked. -/

namespace Angerona.Soar
open History Bus Transition

variable {α κ : Type} [DecidableEq κ]

/-- What the module remembers from one call to the next. -/
structure ActiveResponse (κ : Type) where
  priorityCursor : ℕ
  generalCursor : ℕ
  priorityOverflowCount : ℕ
  /-- `_delivery_failures`, by the signature of the event. -/
  failures : Dict κ ℕ
  deadLettered : ℕ

def ActiveResponse.fresh : ActiveResponse κ := ⟨0, 0, 0, Dict.empty, 0⟩

inductive Outcome where
  | done
  | failed
  /-- The third failure: the event is given up. -/
  | dead
  deriving DecidableEq

namespace ActiveResponse

/-- `_pending_security_events` after the general lane was read: the snapshot of the priority lane, and
    whether it overflowed. -/
def snapshot (bus : EventBus α) (s : ActiveResponse κ) : ActiveResponse κ × ℕ × Bool :=
  let (current, _, overflow) := bus.priorityRecordsSince s.priorityCursor
  ({ s with
      priorityOverflowCount := if overflow then s.priorityOverflowCount + 1 else s.priorityOverflowCount },
    current, overflow)

/-- The failures that are kept for a batch. -/
def prune (key : Event α → κ) (events : List (ℕ × Event α)) (s : ActiveResponse κ) : ActiveResponse κ :=
  let retained := events.map fun p => key p.2
  { s with failures := s.failures.keep fun i => retained.contains i.1 }

/-- `_commit_delivery`. -/
def commit (s : ActiveResponse κ) (revision : ℕ) : ActiveResponse κ := { s with generalCursor := revision }

/-- One event of the batch; `raised` says whether `_process_one_event` raises. The cursor does not move
    to an event that is given up before its alert is published. -/
def evaluate (s : ActiveResponse κ) (revision : ℕ) (key : κ) (raised : Bool) : ActiveResponse κ × Outcome :=
  if !raised then (commit { s with failures := s.failures.erase key } revision, .done)
  else
    let attempts := (s.failures.get? key).getD 0 + 1
    if attempts < 3 then ({ s with failures := s.failures.set key attempts }, .failed)
    else ({ s with failures := s.failures.erase key, deadLettered := s.deadLettered + 1 }, .dead)

end ActiveResponse

/-! ### Calls among publications -/

/-- Where a call stands. -/
inductive Phase (α : Type) where
  | idle
  /-- The general lane was read. -/
  | fetched (events : List (ℕ × Event α))
  /-- The priority lane has overflowed; the alert about it comes next. -/
  | overflowed (events : List (ℕ × Event α)) (priority : ℕ)
  /-- Both lanes were read; `priority` is the snapshot of the priority lane. -/
  | delivering (events : List (ℕ × Event α)) (priority : ℕ)
  /-- An event was given up; the alert about it comes next, and then the cursor moves to it. -/
  | buried (revision : ℕ) (events : List (ℕ × Event α)) (priority : ℕ)

inductive Label (α : Type) where
  | publish (e : Event α)
  | fetch
  | snapshot
  | evaluate (raised : Bool)
  /-- `emit` publishes the module's alert. -/
  | alert (content : α)
  /-- `emit` raises. -/
  | refuse
  | finish

structure World (α κ : Type) where
  bus : EventBus α
  soar : ActiveResponse κ
  phase : Phase α
  /-- The events published so far. -/
  hist : List (Event α)
  /-- The number of publications before the last batch was read. -/
  fetchedAt : ℕ
  /-- The evaluations so far. -/
  log : List (ℕ × Outcome)
  /-- The number of calls that have returned. -/
  calls : ℕ

namespace World

/-- A module that starts on a bus on which `hist` was published. -/
def start (ringSize : ℕ) (priorityRingSize : Option ℤ) (hist : List (Event α)) : World α κ :=
  ⟨hist.foldl EventBus.deliver (EventBus.new ringSize priorityRingSize), ActiveResponse.fresh, .idle, hist, 0, [], 0⟩

def published (w : World α κ) (e : Event α) : World α κ :=
  { w with bus := w.bus.deliver e, hist := w.hist ++ [e] }

variable (key : Event α → κ)

/-- One step of a call, or a publication. -/
def step (w : World α κ) : Label α → Option (World α κ)
  | .publish e => some (w.published e)
  | .fetch =>
    match w.phase with
    | .idle => some { w with
        phase := .fetched (w.bus.recordsSince w.soar.generalCursor).2.1.reverse
        fetchedAt := w.hist.length }
    | _ => none
  | .snapshot =>
    match w.phase with
    | .fetched events =>
      let (soar, priority, overflow) := w.soar.snapshot w.bus
      if overflow then some { w with soar := soar, phase := .overflowed events priority }
      else some { w with soar := soar.prune key events, phase := .delivering events priority }
    | _ => none
  | .evaluate raised =>
    match w.phase with
    | .delivering ((revision, e) :: rest) priority =>
      let (soar, outcome) := w.soar.evaluate revision (key e) raised
      let w' := { w with soar := soar, log := w.log ++ [(revision, outcome)] }
      match outcome with
      | .done => some { w' with phase := .delivering rest priority }
      -- the break out of the batch
      | .failed => some { w' with phase := .idle, calls := w.calls + 1 }
      | .dead => some { w' with phase := .buried revision rest priority }
    | _ => none
  | .alert content =>
    match w.phase with
    | .overflowed events priority => some { w.published ⟨.high, content⟩ with
        soar := w.soar.prune key events
        phase := .delivering events priority }
    | .buried revision rest priority => some { w.published ⟨.high, content⟩ with
        soar := w.soar.commit revision
        phase := .delivering rest priority }
    | _ => none
  -- the call raises with what it has changed
  | .refuse =>
    match w.phase with
    | .overflowed _ _ => some { w with phase := .idle }
    | .buried _ _ _ => some { w with phase := .idle }
    | _ => none
  | .finish =>
    match w.phase with
    | .delivering [] priority => some { w with
        soar := { w.soar with priorityCursor := priority }
        phase := .idle
        calls := w.calls + 1 }
    | _ => none

/-- No two published events have one signature. -/
def Distinct (w : World α κ) : Label α → Prop
  | .publish e => key e ∉ w.hist.map key
  | .alert content => key ⟨.high, content⟩ ∉ w.hist.map key
  | _ => True

instance (w : World α κ) : DecidablePred (w.Distinct key)
  | .publish _ => inferInstanceAs (Decidable (_ ∉ _))
  | .alert _ => inferInstanceAs (Decidable (_ ∉ _))
  | .fetch => isTrue trivial
  | .snapshot => isTrue trivial
  | .evaluate _ => isTrue trivial
  | .refuse => isTrue trivial
  | .finish => isTrue trivial

def Step (w : World α κ) (l : Label α) (w' : World α κ) : Prop :=
  w.Distinct key l ∧ w.step key l = some w'

/-- An event was given up, and the alert about it comes next. -/
def burying (w : World α κ) : Bool :=
  match w.phase with
  | .buried _ _ _ => true
  | _ => false

/-- The publisher takes the alerts about events that were given up. -/
def Announced (w : World α κ) : Label α → Prop
  | .refuse => w.burying = false
  | _ => True

instance (w : World α κ) : DecidablePred w.Announced
  | .refuse => inferInstanceAs (Decidable (_ = _))
  | .publish _ => isTrue trivial
  | .fetch => isTrue trivial
  | .snapshot => isTrue trivial
  | .evaluate _ => isTrue trivial
  | .alert _ => isTrue trivial
  | .finish => isTrue trivial

/-- The events of the batch that are still to be evaluated. -/
def pending (w : World α κ) : List (ℕ × Event α) :=
  match w.phase with
  | .idle => []
  | .fetched events => events
  | .overflowed events _ => events
  | .delivering events _ => events
  | .buried _ events _ => events

/-- The last publication that was settled or passed over: the cursor, or the event that it moves to. -/
def reached (w : World α κ) : ℕ :=
  match w.phase with
  | .buried revision _ _ => revision
  | _ => w.soar.generalCursor

/-- Publication `r` is `e`, and one of the lanes still holds it. -/
def Held (w : World α κ) (r : ℕ) (e : Event α) : Prop :=
  (r, e) ∈ numbered w.hist ∧ StillHeld w.bus.ringSize w.bus.prioritySize w.hist r e

end World

/-! ### What was done with an event -/

/-- The outcomes of the evaluations of one publication, in order. -/
def outcomes (log : List (ℕ × Outcome)) (r : ℕ) : List Outcome :=
  (log.filter fun l => l.1 = r).map Prod.snd

/-- Failed at most twice, and not more. -/
def Open (os : List Outcome) : Prop := ∃ a ≤ 2, os = List.replicate a .failed

/-- Succeeded once, after at most two failures, or given up at the third failure. -/
def Settled (os : List Outcome) : Prop :=
  (∃ a ≤ 2, os = List.replicate a .failed ++ [.done]) ∨ os = [.failed, .failed, .dead]

/-- What holds of the evaluations in every state: in the order of publication, a failed one before any
    later one; each event settled once or still open; and what is passed over is gone from both lanes. -/
structure World.Delivered (w : World α κ) : Prop where
  ordered : w.log.Pairwise fun a b => a.1 < b.1 ∨ (a.1 = b.1 ∧ a.2 = .failed)
  published : ∀ l ∈ w.log, 0 < l.1 ∧ l.1 ≤ w.hist.length
  courses : ∀ r, Open (outcomes w.log r) ∨ Settled (outcomes w.log r)
  retried : ∀ r e, (r, e) ∈ numbered w.hist → Open (outcomes w.log r) →
    (∃ l ∈ w.log, r < l.1) → ¬w.Held r e
  skipped : ∀ r e, (r, e) ∈ numbered w.hist → r ≤ w.soar.generalCursor →
    Settled (outcomes w.log r) ∨ ¬w.Held r e
  deadLettered : w.soar.deadLettered = w.log.countP fun l => l.2 = .dead

end Angerona.Soar
