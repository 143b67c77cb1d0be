import Angerona.Lib.Dict
import Angerona.Lib.Effect
import Angerona.Lib.Transition
import Mathlib.Algebra.Order.Field.Basic

/-!
    The breach review (`core/breach_state.py`): cases, their containment and the active case.

    A run is made of the parts of `process_once` in any order, and of `request_action`. What they
    learn from outside (the clock, the stop flag, the configuration, the response worker and its
    receipts, the authority of the process) is their input; every answer is possible. What is only
    displayed (summaries, messages, detail rows) is left out. -/

namespace Angerona.Breach
open Effect

/-! ### Cases -/

inductive Containment where
  | notRequested
  | requested
  | held
  | lockedDown
  | unknown
  | lifted
  deriving DecidableEq

/-- `"locked-down"` or `"unknown"`. -/
def Containment.standing : Containment → Bool
  | .lockedDown => true
  | .unknown => true
  | _ => false

/-- An unresolved lockdown. -/
def Containment.restricted (c : Containment) : Bool := c = .requested || c.standing

/-- `_ACTIONS`. -/
inductive Action where
  | investigate
  | trace
  | isolate
  | kill
  | patch
  | liftLockdown
  | reviewResolved
  deriving DecidableEq

/-- What `verified_breach` authenticates: the time of the event and its authorized actions. -/
structure Evidence (T : Type) where
  ts : T
  isolateHost : Bool
  terminateProcess : Bool
  deriving DecidableEq

structure Case (T : Type) where
  evidence : Option (Evidence T)
  /-- Whether `time.localtime` takes the time of a recovered receipt. -/
  dated : Bool
  containment : Containment
  resolved : Bool
  autoRequested : Bool
  /-- `case.get("receipt_available")`. -/
  receiptAvailable : Option Bool
  deriving DecidableEq

inductive Stage where
  | monitoring
  | breached
  | resolved
  deriving DecidableEq

/-- `BreachDisplaySnapshot`. -/
structure Snapshot (Id : Type) where
  active : Bool
  state : Stage
  caseId : Option Id
  containment : Containment
  sequence : ℕ
  /-- The actions that are enabled. -/
  enabled : List Action
  deriving DecidableEq

/-! ### The response worker -/

/-- `breach_action_result`, once it is no longer queued. -/
inductive Result where
  | applied (scopeVerified : Bool)
  | unknown
  | lifted
  | other
  deriving DecidableEq

/-- What an automatic request was decided by. -/
structure Judged (Id T : Type) where
  now : T
  /-- `breach_lifted_cases`. -/
  lifted : List Id
  deriving DecidableEq

/-- A call of `request_breach_action`. -/
structure Request (Id Rid T : Type) where
  caseId : Id
  /-- The case as it stood. -/
  found : Case T
  action : Action
  requestId : Rid
  automatic : Option (Judged Id T)
  reviewed : List Id
  admitted : Bool
  deriving DecidableEq

inductive ReceiptStatus where
  | applied
  | recoveryRequired
  | other
  deriving DecidableEq

/-- A record of `list_actions`. -/
structure Record (Id : Type) where
  /-- The case of a verified managed isolation; `none` for any other record. -/
  caseId : Option Id
  undone : Bool
  status : ReceiptStatus
  /-- The scope and the policy were verified, and the rule set is valid. -/
  proven : Bool
  /-- `time.localtime` takes its `trigger_ts`. -/
  dated : Bool

/-- A receipt of a lockdown that is still in force. -/
def Record.active {Id : Type} (r : Record Id) : Bool :=
  !r.undone && (r.status = .applied || r.status = .recoveryRequired)

/-! ### The controller -/

/-- Why a containment was written. -/
inductive Cause where
  /-- An isolation was admitted. -/
  | queued
  /-- A request was not admitted. -/
  | refused
  | result (action : Action) (r : Result)
  /-- The receipts of the case, and whether one is active. -/
  | receipts (active : Bool)
  deriving DecidableEq

inductive Event (Id Rid T : Type) where
  | asked (r : Request Id Rid T)
  | moved (id : Id) (next : Containment) (cause : Cause)
  | published (s : Snapshot Id)
  | evicted (id : Id)
  deriving DecidableEq

structure World (Id Rid T : Type) where
  cases : Dict Id (Case T)
  active : Option Id
  /-- `_published_cases`. -/
  published : List Id
  snapshot : Snapshot Id
  /-- The case and the action of each request without a result. -/
  pending : Dict Rid (Id × Action)
  /-- The queue of operator requests, each with the cases it was reviewed with. -/
  requests : List (Id × Action × List Id)
  dropped : ℕ
  lastSync : T
  /-- What happened, oldest first. -/
  log : List (Event Id Rid T)

/-- What one publication reads. -/
structure Display (T : Type) where
  /-- `protect_authority`. -/
  allowed : Bool
  /-- The response worker is ready. -/
  ready : Bool
  /-- The response worker can lift. -/
  liftReady : Bool
  now : T

/-- What one submission reads. -/
structure Answer (Rid T : Type) where
  stopped : Bool
  /-- What `request_breach_action` returns; `none` without a response worker. -/
  worker : Option Bool
  requestId : Rid
  display : Display T

/-- What `_accept_event` reads. -/
structure Arrival (Id Rid T : Type) where
  stopped : Bool
  /-- What `verified_breach` authenticates, before it looks at the age. -/
  found : Option (Id × Evidence T)
  now : T
  /-- `breach_auto_isolate_enabled`. -/
  enabled : Bool
  lifted : List Id
  answer : Answer Rid T
  shown : Display T
  shownActive : Display T

/-- What one group of receipts reads. -/
structure Review (T : Type) where
  stopped : Bool
  /-- The effective policy and the rules are in force, or a stop came first; `none` when the check
      raises. -/
  native : Option Bool
  display : Display T

/-- What `_sync_receipts` reads. -/
structure Sync (Id T : Type) where
  now : T
  synced : T
  /-- There is an initialized worker, and no stop. -/
  ready : Bool
  records : List (Record Id)
  allowed : Bool
  review : Id → Review T
  shownActive : Display T

/-- What a case of the last loop of `process_once` reads. -/
structure Retry (Id Rid T : Type) where
  enabled : Bool
  lifted : List Id
  now : T
  answer : Answer Rid T

section Operations

variable {Id Rid T : Type}

abbrev Deed (Id Rid T α : Type) := Effect Unit (World Id Rid T) α

def note (e : Event Id Rid T) : Deed Id Rid T Unit :=
  modify fun w => { w with log := w.log ++ [e] }

variable [DecidableEq Id]

/-- The case, where there is one. -/
def onCase {α : Type} (id : Id) (missing : α) (f : Case T → Deed Id Rid T α) : Deed Id Rid T α := do
  let w ← read
  (w.cases.get? id).elim (pure missing) f

def edit (id : Id) (f : Case T → Case T) : Deed Id Rid T Unit :=
  onCase id () fun c => modify fun w => { w with cases := w.cases.set id (f c) }

/-- `case["containment"] = next`. -/
def contain (id : Id) (next : Containment) (cause : Cause) : Deed Id Rid T Unit :=
  onCase id () fun c => modify fun w => { w with
    cases := w.cases.set id { c with containment := next }
    log := w.log ++ [.moved id next cause] }

/-! ### Publishing -/

variable [DecidableEq Rid] [Field T] [LinearOrder T]

/-- At most thirty seconds old. -/
def Evidence.Fresh (e : Evidence T) (now : T) : Prop := -1 ≤ now - e.ts ∧ now - e.ts ≤ 30

instance (e : Evidence T) (now : T) : Decidable (e.Fresh now) :=
  inferInstanceAs (Decidable (_ ∧ _))

/-- The actions that `_publish` enables. -/
def Case.offers (c : Case T) (d : Display T) : List Action :=
  let may (authorized : Evidence T → Bool) : Prop :=
    d.allowed ∧ d.ready ∧ (∃ e ∈ c.evidence, e.Fresh d.now ∧ authorized e) ∧ ¬c.resolved
  [.investigate, .trace] ++
  (if may Evidence.isolateHost ∧ c.containment ≠ .lockedDown then [.isolate] else []) ++
  (if may Evidence.terminateProcess then [.kill] else []) ++
  (if d.allowed ∧ d.liftReady ∧ c.receiptAvailable.getD (c.containment = .lockedDown) ∧
    c.containment.standing then [.liftLockdown] else []) ++
  (if ¬c.containment.restricted ∧ ¬c.resolved then [.reviewResolved] else [])

def Case.shown (c : Case T) (id : Id) (d : Display T) (sequence : ℕ) : Snapshot Id where
  active := !c.resolved
  state := if c.resolved then .resolved else .breached
  caseId := some id
  containment := c.containment
  sequence
  enabled := c.offers d

/-- `_publish`. -/
def publish (id : Id) (d : Display T) : Deed Id Rid T Unit := do
  let w ← read
  if w.active ≠ some id then pure ()
  else onCase id () fun c => do
    check (c.evidence.isSome ∨ c.dated) ()
    let shown := c.shown id d (w.snapshot.sequence + 1)
    modify fun w => { w with
      published := (w.cases.items.filter fun i => !i.2.resolved).map Prod.fst
      snapshot := shown }
    note (.published shown)

/-! ### Requests to the worker -/

/-- What the answer of the worker does to the case. -/
def answered (id : Id) (action : Action) (c : Case T) (a : Answer Rid T) : Deed Id Rid T Unit :=
  if a.worker = some true then do
    modify fun w => { w with pending := w.pending.set a.requestId (id, action) }
    if action = .isolate then contain id .requested .queued else pure ()
  else if c.containment.standing then pure ()
  else contain id .held .refused

/-- `_submit`. -/
def submit (id : Id) (action : Action) (automatic : Option (Judged Id T)) (reviewed : List Id)
    (a : Answer Rid T) : Deed Id Rid T Bool :=
  if a.stopped then pure false
  else onCase id false fun c => do
    a.worker.elim (pure ()) fun admitted =>
      note (.asked ⟨id, c, action, a.requestId, automatic, reviewed, admitted⟩)
    answered id action c a
    publish id a.display
    pure (a.worker = some true)

/-- `case["auto_requested"] = self._submit(case, "isolate", automatic=True)`. -/
def submitAuto (id : Id) (j : Judged Id T) (a : Answer Rid T) : Deed Id Rid T Unit := do
  let admitted ← submit id .isolate (some j) [] a
  edit id fun c => { c with autoRequested := admitted }

/-- `request_action`. -/
def requestAction (id : Id) (action : Action) (stopped : Bool) : Deed Id Rid T Unit :=
  modify fun w =>
    if ¬stopped ∧ w.active = some id ∧ action ∈ w.snapshot.enabled ∧ w.requests.length < 16 then
      { w with requests := w.requests ++ [(id, action, w.published)] }
    else w

/-- What an operator request does to its case. -/
def serve (id : Id) (action : Action) (reviewed : List Id) (c : Case T) (a : Answer Rid T) :
    Deed Id Rid T Unit :=
  if action = .reviewResolved then
    if c.containment.restricted then pure ()
    else edit id fun c => { c with resolved := true }
  else if action = .liftLockdown then do
    let _ ← submit id action none reviewed a
    pure ()
  else if (action = .isolate ∨ action = .kill) ∧ ¬c.resolved then do
    let _ ← submit id action none [] a
    pure ()
  else pure ()

/-- A request from the queue, and `_process_request`. -/
def processRequest (a : Answer Rid T) (d : Display T) : Deed Id Rid T Unit := do
  let w ← read
  w.requests.head?.elim (pure ()) fun (id, action, reviewed) => do
    modify fun w => { w with requests := w.requests.tail }
    onCase id () fun c => do
      serve id action reviewed c a
      publish id d

/-! ### Evidence -/

/-- The case that may go: neither pending nor restricted, and active only when it is resolved. -/
def World.evictable (w : World Id Rid T) : Option Id :=
  (w.cases.items.find? fun i => (w.active ≠ some i.1 ∨ i.2.resolved) ∧
    i.1 ∉ w.pending.values.map Prod.fst ∧ ¬i.2.containment.restricted).map Prod.fst

def maxCases : ℕ := 32

def evict (id : Id) : Deed Id Rid T Unit :=
  modify fun w => { w with cases := w.cases.erase id, log := w.log ++ [.evicted id] }

/-- A new case. -/
def insert (id : Id) (c : Case T) : Deed Id Rid T Unit :=
  modify fun w => { w with cases := w.cases.set id c }

/-- The evidence stays in the bus only. -/
def drop : Deed Id Rid T Bool := do
  modify fun w => { w with dropped := w.dropped + 1 }
  pure false

/-- The evidence gets its case, or is dropped. -/
def enter (id : Id) (e : Evidence T) : Deed Id Rid T Bool := do
  let w ← read
  let opened : Case T := ⟨some e, true, .notRequested, false, false, none⟩
  if (w.cases.get? id).isSome then do
    edit id fun c => { c with evidence := some e }
    pure true
  else if w.cases.size < maxCases then do
    insert id opened
    pure true
  else w.evictable.elim drop fun k => do
    evict k
    insert id opened
    pure true

/-- The active case gives way unless it is an open lockdown. -/
def activate (id : Id) : Deed Id Rid T Unit :=
  modify fun w =>
    if ∃ c ∈ w.active.bind w.cases.get?, ¬c.resolved ∧ c.containment.restricted then w
    else { w with active := some id }

/-- The active case, when it is another one. -/
def publishActive (id : Id) (d : Display T) : Deed Id Rid T Unit := do
  let w ← read
  if w.active ≠ some id then do
    let active ← demand w.active ()
    publish active d
  else pure ()

/-- The last lines of `_accept_event` for a case that is in the map. -/
def respond (i : Arrival Id Rid T) (id : Id) : Deed Id Rid T Unit := do
  activate id
  publish id i.shown
  onCase id () fun c =>
    if i.enabled ∧ id ∉ i.lifted ∧ ¬c.autoRequested ∧ ¬c.resolved then
      submitAuto id ⟨i.now, i.lifted⟩ i.answer
    else pure ()
  publishActive id i.shownActive

/-- `_accept_event`. -/
def acceptEvent (i : Arrival Id Rid T) : Deed Id Rid T Unit :=
  if i.stopped then pure ()
  else i.found.elim (pure ()) fun (id, e) =>
    if e.Fresh i.now then do
      let kept ← enter id e
      if kept then respond i id else pure ()
    else pure ()

/-! ### Results and receipts -/

/-- The containment after the result of an isolation. -/
def Result.containment : Result → Containment
  | .applied true => .lockedDown
  | .unknown => .unknown
  | _ => .held

/-- What a result does to its case. -/
def applyResult (id : Id) (action : Action) (r : Result) : Deed Id Rid T Unit :=
  if action = .isolate then do
    contain id r.containment (.result action r)
    edit id fun c => { c with receiptAvailable := some (r.containment = .lockedDown) }
  else if action = .liftLockdown ∧ r = .lifted then do
    contain id .lifted (.result action r)
    edit id fun c => { c with receiptAvailable := some false }
  else if action = .liftLockdown ∧ r = .unknown then contain id .unknown (.result action r)
  else pure ()

/-- One request of `_sync_results`; `answer` is `none` while there is no result. -/
def syncResult (rid : Rid) (worker : Bool) (answer : Option Result) (d : Display T) :
    Deed Id Rid T Unit := do
  let w ← read
  if ¬worker then pure ()
  else (w.pending.get? rid).elim (pure ()) fun (id, action) =>
    answer.elim (pure ()) fun r => do
      modify fun w => { w with pending := w.pending.erase rid }
      onCase id () fun _ => do
        applyResult id action r
        publish id d

/-- The receipts of the first thirty-two cases. -/
def grouped (records : List (Record Id)) : Dict Id (List (Record Id)) :=
  records.foldl (fun groups r => r.caseId.elim groups fun id =>
      if (groups.get? id).isNone ∧ maxCases ≤ groups.size then groups
      else groups.set id ((groups.get? id).getD [] ++ [r]))
    Dict.empty

/-- A case that is opened by its receipts. -/
def recovered (receipts : List (Record Id)) : Case T where
  evidence := none
  dated := (receipts.head?.map Record.dated).getD true
  containment := if receipts.any Record.active then .unknown else .lifted
  resolved := false
  autoRequested := true
  receiptAvailable := none

/-- The part of the loop that finds the case, or opens it; `false` when there is no room. -/
def recoverCase (id : Id) (receipts : List (Record Id)) : Deed Id Rid T Bool := do
  let w ← read
  if (w.cases.get? id).isSome then pure true
  else if maxCases ≤ w.cases.size then pure false
  else do
    let c : Case T := recovered receipts
    insert id c
    note (.moved id c.containment (.receipts (receipts.any Record.active)))
    modify fun w => if w.active.isNone then { w with active := some id } else w
    pure true

/-- The containment that the receipts of one case show. -/
def judgeReceipts (i : Sync Id T) (id : Id) (active : List (Record Id)) : Deed Id Rid T Unit :=
  if active = [] then do
    edit id fun c => { c with receiptAvailable := some false }
    onCase id () fun c =>
      if c.containment.standing then contain id .lifted (.receipts false) else pure ()
  else do
    edit id fun c => { c with receiptAvailable := some true }
    if i.allowed ∧ ∀ r ∈ active, r.status = .applied ∧ r.proven then do
      let native ← demand (i.review id).native ()
      contain id (if native then .lockedDown else .unknown) (.receipts true)
    else contain id .unknown (.receipts true)

def reviewReceipts (i : Sync Id T) (id : Id) (receipts : List (Record Id)) :
    Deed Id Rid T Unit := do
  judgeReceipts i id (receipts.filter Record.active)
  publish id (i.review id).display

/-- The loop of `_sync_receipts`: the cases with an active receipt; `none` when stopped. -/
def syncGroups (i : Sync Id T) :
    List (Id × List (Record Id)) → List Id → Deed Id Rid T (Option (List Id))
  | [], found => pure (some found)
  | (id, receipts) :: groups, found =>
    if (i.review id).stopped then pure none
    else do
      let room ← recoverCase id receipts
      if room then do
        reviewReceipts i id receipts
        syncGroups i groups (if receipts.any Record.active then found ++ [id] else found)
      else syncGroups i groups found

/-- The last lines of `_sync_receipts`: an active receipt stays reachable. -/
def showReceipt (i : Sync Id T) (found : List Id) : Deed Id Rid T Unit :=
  found.head?.elim (pure ()) fun id => do
    let w ← read
    if ∃ c ∈ w.active.bind w.cases.get?, c.containment.restricted then pure ()
    else do
      modify fun w => { w with active := some id }
      publish id i.shownActive

/-- `_sync_receipts`. -/
def syncReceipts (i : Sync Id T) : Deed Id Rid T Unit := do
  let w ← read
  if i.now - w.lastSync < (2 : ℕ) then pure ()
  else do
    modify fun w => { w with lastSync := i.synced }
    if i.ready then do
      let found ← syncGroups i (grouped i.records).items []
      found.elim (pure ()) (showReceipt i)
    else pure ()

/-- One case of the last loop of `process_once`. -/
def retryIsolation (id : Id) (i : Retry Id Rid T) : Deed Id Rid T Unit :=
  onCase id () fun c => c.evidence.elim (pure ()) fun e =>
    if i.enabled ∧ ¬c.autoRequested ∧ ¬c.resolved ∧ id ∉ i.lifted ∧ e.Fresh i.now then
      submitAuto id ⟨i.now, i.lifted⟩ i.answer
    else pure ()

/-! ### Runs -/

inductive Op (Id Rid T : Type) where
  | request (id : Id) (action : Action) (stopped : Bool)
  | process (a : Answer Rid T) (d : Display T)
  | accept (i : Arrival Id Rid T)
  | result (rid : Rid) (worker : Bool) (answer : Option Result) (d : Display T)
  | receipts (i : Sync Id T)
  | retry (id : Id) (i : Retry Id Rid T)

def Op.deed : Op Id Rid T → Deed Id Rid T Unit
  | .request id action stopped => requestAction id action stopped
  | .process a d => processRequest a d
  | .accept i => acceptEvent i
  | .result rid worker answer d => syncResult rid worker answer d
  | .receipts i => syncReceipts i
  | .retry id i => retryIsolation id i

def World.exec (w : World Id Rid T) (op : Op Id Rid T) : World Id Rid T := (op.deed w).2

def World.start : World Id Rid T where
  cases := Dict.empty
  active := none
  published := []
  snapshot := ⟨false, .monitoring, none, .notRequested, 0, []⟩
  pending := Dict.empty
  requests := []
  dropped := 0
  lastSync := 0
  log := []

/-- The state after a history. -/
def World.after (ops : List (Op Id Rid T)) : World Id Rid T := ops.foldl World.exec World.start

theorem World.after_snoc (ops : List (Op Id Rid T)) (op : Op Id Rid T) :
    World.after (ops ++ [op]) = (World.after ops).exec op := by
  rw [World.after, List.foldl_append]
  rfl

/-! ### One pass -/

/-- The readings of one pass of `process_once`. -/
structure Pass (Id Rid T : Type) where
  stopped : Bool
  answer : Answer Rid T
  shown : Display T
  arrivals : List (Arrival Id Rid T)
  worker : Bool
  result : Rid → Option Result
  shownResult : Rid → Display T
  sync : Sync Id T
  retry : Id → Retry Id Rid T

/-- A loop. -/
def inOrder {α : Type} (f : α → Deed Id Rid T Unit) : List α → Deed Id Rid T Unit
  | [] => pure ()
  | x :: xs => do
    f x
    inOrder f xs

/-- `_sync_results`. -/
def syncResults (i : Pass Id Rid T) : Deed Id Rid T Unit := do
  let w ← read
  inOrder (fun rid => syncResult rid i.worker (i.result rid) (i.shownResult rid))
    (w.pending.items.map Prod.fst)

/-- `process_once`. -/
def processOnce (i : Pass Id Rid T) : Deed Id Rid T Unit :=
  if i.stopped then pure ()
  else do
    processRequest i.answer i.shown
    inOrder acceptEvent i.arrivals
    syncResults i
    syncReceipts i.sync
    let w ← read
    inOrder (fun id => retryIsolation id (i.retry id)) (w.cases.items.map Prod.fst)

/-- Some history leads from one state to the other. -/
def Reaches (w w' : World Id Rid T) : Prop := ∃ ops : List (Op Id Rid T), w' = ops.foldl World.exec w

instance : IsPreorder (World Id Rid T) Reaches where
  refl _ := ⟨[], rfl⟩
  trans w w' w'' h h' := by
    obtain ⟨ops, rfl⟩ := h
    obtain ⟨ops', rfl⟩ := h'
    exact ⟨ops ++ ops', (List.foldl_append).symm⟩

theorem reaches_op (op : Op Id Rid T) : Within Reaches op.deed := fun _ => ⟨[op], rfl⟩

theorem reaches_inOrder {α : Type} {f : α → Deed Id Rid T Unit} (h : ∀ x, Within Reaches (f x))
    (xs : List α) : Within Reaches (inOrder f xs) := by
  induction xs with
  | nil => exact Within.pure ()
  | cons x xs ih =>
    rw [inOrder]
    exact (h x).bind fun _ => ih

/-- A pass is a history of its parts, wherever it stops. -/
theorem processOnce_reaches (i : Pass Id Rid T) : Within Reaches (processOnce i) := by
  rw [processOnce]
  refine Within.ite (fun _ => Within.pure ()) fun _ => Within.bind ?_ fun _ => Within.bind ?_ fun _ =>
    Within.bind ?_ fun _ => Within.bind ?_ fun _ => Within.read.bind fun w => ?_
  · exact reaches_op (.process i.answer i.shown)
  · exact reaches_inOrder (fun a => reaches_op (.accept a)) _
  · rw [syncResults]
    exact Within.read.bind fun _ => reaches_inOrder (fun rid => reaches_op (.result rid _ _ _)) _
  · exact reaches_op (.receipts i.sync)
  · exact reaches_inOrder (fun id => reaches_op (.retry id _)) _

end Operations

end Angerona.Breach
