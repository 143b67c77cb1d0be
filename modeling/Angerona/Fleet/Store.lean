import Mathlib
import Angerona.Fleet.Job
import Angerona.Lib.Table
import Angerona.Lib.Transition
import Angerona.Lib.Wal

/-!
    `DurableJobStore`: any number of instances on one database, statement by statement.

    An instance's lock admits one call at a time; the last read of a transition is made after the
    lock was given back, so other calls of the instance may come before it. Between two statements
    of a call the other instances run. The `serial` of a row is the number of the call that
    inserted it: a job id that was pruned may be created again, which is another job. -/

namespace Angerona.Fleet
open Text PyJson Wal

/-! ### Rows -/

structure Row where
  jobId : Str
  idempotencyKey : Str
  spec : Json
  state : State
  version : ℤ
  updatedAt : PyFloat
  result : Json
  serial : ℕ

/-- What a statement of the store raises besides a held lock. -/
inductive SqlError where
  | unique
  | notNull
  deriving DecidableEq

/-- `INSERT INTO fleet_jobs`. -/
def insertRow (row : Row) (rows : List Row) : Except SqlError (List Row × ℕ) :=
  if rows.any fun r => r.jobId = row.jobId ∨ r.idempotencyKey = row.idempotencyKey then
    .error .unique
  else .ok (rows ++ [row], 1)

/-- The rows of `_prune_locked` that stay: of the terminal ones the last `limit` updated. -/
def keptRows (limit : ℕ) (rows : List Row) : List Row :=
  let kept := ((rows.filter (·.state.terminal)).mergeSort
    fun a b => !a.updatedAt.num.lt b.updatedAt.num).take limit
  rows.filter fun r => !r.state.terminal || kept.any (·.jobId = r.jobId)

def pruneRows (limit : ℕ) (rows : List Row) : Except SqlError (List Row × ℕ) :=
  .ok (keptRows limit rows, rows.length - (keptRows limit rows).length)

/-- `WHERE job_id=? AND version=?`. -/
def Row.matches (jobId : Str) (version : ℤ) (r : Row) : Bool := r.jobId = jobId ∧ r.version = version

def Row.moved (state : State) (stamp : PyFloat) (result : Json) (r : Row) : Row :=
  { r with state := state, version := r.version + 1, updatedAt := stamp, result := result }

/-- The `UPDATE` of `transition`; a stamp that is not a number is stored as `NULL`. -/
def updateRow (jobId : Str) (version : ℤ) (state : State) (stamp : PyFloat) (result : Json)
    (rows : List Row) : Except SqlError (List Row × ℕ) :=
  if stamp = .nan ∧ rows.any (Row.matches jobId version) then .error .notNull
  else .ok (Table.update (Row.matches jobId version) (Row.moved state stamp result) rows,
    Table.rowcount (Row.matches jobId version) rows)

def findJob (jobId : Str) (rows : List Row) : Option Row := rows.find? (·.jobId = jobId)

def findKey (key : Str) (rows : List Row) : Option Row := rows.find? (·.idempotencyKey = key)

structure Record where
  job : FleetJob
  state : State
  version : ℤ
  updatedAt : PyFloat
  result : Value

variable (m : Machine)

/-- `_decode`. -/
def Row.decode (r : Row) : Option Record :=
  (FleetJob.ofSpec m r.spec).map fun job => ⟨job, r.state, r.version, r.updatedAt, r.result.loads⟩

/-! ### Calls in progress -/

structure TransitionArgs where
  jobId : Str
  /-- `none` is a text outside `_STATES`. -/
  newState : Option State
  expectedVersion : ℤ
  now : PyFloat
  /-- `result_receipt or {}`. -/
  receipt : List (Key × Value)

inductive CallError where
  | locked
  | integrity
  | value
  | key
  | conflict
  | assertion
  deriving DecidableEq

/-- A transition as it was applied to its row. -/
structure Applied where
  call : ℕ
  serial : ℕ
  expected : ℤ
  source : State
  target : State
  stamp : PyFloat
  spec : Json

inductive Event where
  | created (call : ℕ) (spec : Json)
  | applied (a : Applied)
  | returned (call : ℕ) (record : Record)
  | raised (call : ℕ) (e : CallError)

/-- What the instance does next, in the call that holds its lock. -/
inductive Phase where
  | ready
  /-- `create` has inserted the row. -/
  | prune (call : ℕ) (row : Row) (job : FleetJob)
  | commitCreate (call : ℕ) (row : Row) (job : FleetJob)
  /-- The insertion was refused. -/
  | existing (call : ℕ) (job : FleetJob)
  /-- `transition` has read the row and decided on the state and the receipt. -/
  | update (call : ℕ) (a : TransitionArgs) (read : Row) (state : State) (receipt : Json)
  | commitUpdate (call : ℕ) (jobId : Str) (a : Applied)

/-- The call a phase belongs to. -/
def Phase.call : Phase → Option ℕ
  | .ready => none
  | .prune c _ _ | .commitCreate c _ _ | .existing c _ | .update c _ _ _ _ | .commitUpdate c _ _ =>
    some c

structure World (ι : Type) where
  db : Database ι (List Row)
  phase : ι → Phase
  /-- The transitions that have committed and not returned, with their job ids. -/
  returning : ι → List (ℕ × Str)
  log : List Event
  /-- The number of calls made. -/
  calls : ℕ

variable {ι : Type} [DecidableEq ι]

def World.start : World ι := ⟨.start [], fun _ => .ready, fun _ => [], [], 0⟩

/-- The call of an instance goes on with another database and phase. -/
def World.goOn (w : World ι) (i : ι) (db : Database ι (List Row)) (p : Phase) : World ι :=
  { w with db := db, phase := Function.update w.phase i p }

/-- The call of an instance ends. -/
def World.finish (w : World ι) (i : ι) (db : Database ι (List Row)) (events : List Event) : World ι :=
  { w with db := db, phase := Function.update w.phase i .ready, log := w.log ++ events }

/-! ### Steps -/

/-- A new row of `create`. -/
def newRow (job : FleetJob) (spec : Json) (now : Double) (serial : ℕ) : Row :=
  { jobId := job.jobId, idempotencyKey := job.idempotencyKey, spec := spec, state := .created,
    version := 1, updatedAt := .finite now, result := .obj [], serial := serial }

/-- `create` up to its `INSERT`. -/
def World.create (w : World ι) (i : ι) (job : FleetJob) (spec : Json) (now : Double) : World ι :=
  let row := newRow job spec now w.calls
  match w.db.write i (insertRow row) with
  | (.ok _, db) => w.goOn i db (.prune w.calls row job)
  | (.error .locked, db) => w.finish i db [.raised w.calls .locked]
  | (.error (.failed _), db) => w.goOn i db (.existing w.calls job)

/-- `stamp >= expires_at`. -/
def reached (stamp : PyFloat) (expires : Double) : Bool :=
  !stamp.num.lt (PyFloat.finite expires).num && stamp ≠ .nan

/-- The state that `transition` asks for, from what it has read. -/
def effectiveState (stamp : PyFloat) (expires : Double) (state : State) : State :=
  if reached stamp expires && !state.terminal then .expired else state

/-- The checks of `transition` on the row it has read. -/
def checkTransition (a : TransitionArgs) (found : Option Row) : Except CallError (Row × State × Json) :=
  match a.newState, found with
  | none, _ => .error .value
  | some _, none => .error .key
  | some state, some row =>
    match row.decode m with
    | none => .error .value
    | some record =>
      if record.version ≠ a.expectedVersion then .error .conflict
      else
        let state := effectiveState a.now record.job.expiresAt state
        if state ∉ record.state.next then .error .value
        else
          let receipt := if a.receipt = [] then record.result else .dict a.receipt
          match m.bounded receipt with
          | some t => .ok (row, state, t)
          | none => .error .value

/-- `transition` up to its `UPDATE`. -/
def World.transition (w : World ι) (i : ι) (a : TransitionArgs) : World ι :=
  let db := w.db.select i
  match checkTransition m a (findJob a.jobId (w.db.view i)) with
  | .ok (row, state, receipt) => w.goOn i db (.update w.calls a row state receipt)
  | .error e => w.finish i db [.raised w.calls e]

/-- `create` when the key or the id is taken. -/
def World.existing (w : World ι) (i : ι) (call : ℕ) (job : FleetJob) : World ι :=
  let db := w.db.select i
  match findKey job.idempotencyKey (w.db.view i) with
  | none => w.finish i db [.raised call .value]
  | some row =>
    match row.decode m with
    | none => w.finish i db [.raised call .value]
    | some record =>
      if record.job.digest m ≠ job.digest m then w.finish i db [.raised call .value]
      else w.finish i db [.returned call record]

/-- What an update did to the row it matched. -/
def appliedTo (call : ℕ) (a : TransitionArgs) (state : State) (r : Row) : Applied :=
  { call := call, serial := r.serial, expected := r.version, source := r.state, target := state,
    stamp := a.now, spec := r.spec }

/-- The `UPDATE` of `transition`. -/
def World.update (w : World ι) (i : ι) (call : ℕ) (a : TransitionArgs) (state : State)
    (receipt : Json) : World ι :=
  match w.db.write i (updateRow a.jobId a.expectedVersion state a.now receipt),
      ((w.db.acquired i).bind fun v => v.content.find? (Row.matches a.jobId a.expectedVersion)) with
  | (.ok 1, db), some r => w.goOn i db (.commitUpdate call a.jobId (appliedTo call a state r))
  | (.ok _, db), _ => w.finish i db [.raised call .conflict]
  | (.error .locked, db), _ => w.finish i db [.raised call .locked]
  | (.error (.failed _), db), _ => w.finish i db [.raised call .integrity]

-- `max_jobs` of each instance
variable (maxJobs : ι → ℕ)

/-- The next statement of the call in progress. -/
def World.next (w : World ι) (i : ι) : World ι :=
  match w.phase i with
  | .ready => w
  | .prune call row job =>
    match w.db.write i (pruneRows (max 100 (min (maxJobs i) 500000))) with
    | (.ok _, db) => w.goOn i db (.commitCreate call row job)
    | (.error _, db) => w.finish i db [.raised call .locked]
  | .commitCreate call row job =>
    w.finish i (w.db.commit i) [.created call row.spec,
      .returned call ⟨job, row.state, row.version, row.updatedAt, row.result.loads⟩]
  | .existing call job => w.existing m i call job
  | .update call a _ state receipt => w.update i call a state receipt
  | .commitUpdate call jobId a =>
    { w.finish i (w.db.commit i) [.applied a] with
      returning := Function.update w.returning i (w.returning i ++ [(call, jobId)]) }

/-- The last read of a transition. -/
def World.read (w : World ι) (i : ι) (call : ℕ) (jobId : Str) : World ι :=
  let db := w.db.select i
  let w := { w with
    returning := Function.update w.returning i ((w.returning i).erase (call, jobId)) }
  match (findJob jobId (w.db.view i)).map (Row.decode m) with
  | none => w.finish i db [.raised call .assertion]
  | some none => w.finish i db [.raised call .value]
  | some (some record) => w.finish i db [.returned call record]

inductive Label (ι : Type) where
  /-- A call of `create` with a job that its class accepts. -/
  | create (i : ι) (job : FleetJob) (now : Double)
  | transition (i : ι) (a : TransitionArgs)
  | next (i : ι)
  | read (i : ι) (call : ℕ) (jobId : Str)

/-- One statement of one instance; a call starts, and a transition reads its answer, when the
    instance's lock is free. -/
def World.exec (w : World ι) : Label ι → Option (World ι)
  | .create i job now =>
    match w.phase i, job.valid m, job.spec m with
    | .ready, true, some spec => some { w.create i job spec now with calls := w.calls + 1 }
    | _, _, _ => none
  | .transition i a =>
    match w.phase i with
    | .ready => some { w.transition m i a with calls := w.calls + 1 }
    | _ => none
  | .next i => some (w.next m maxJobs i)
  | .read i call jobId =>
    match w.phase i with
    | .ready => if (call, jobId) ∈ w.returning i then some (w.read m i call jobId) else none
    | _ => none

end Angerona.Fleet
