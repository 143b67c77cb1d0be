import Angerona.Lib.Binary64
import Angerona.Lib.Table
import Angerona.Lib.Text
import Mathlib.Data.List.Sort

/-!
    The durable outbox: a signed table of items and its transactions.

    Every row carries two tags: one over the payload and one over the whole delivery state. Each
    operation is one SQLite transaction, modelled as a function that returns the committed table or
    the exception that rolled it back. `written` is not part of the database: it records the state
    of every inserted or updated row, newest first.

    The sentinels that let an operation skip the audit of all rows are not modelled; whether an
    operation audits is an argument of it. -/

namespace Angerona.Outbox
open Text

/-! ### Rows -/

inductive State where
  | pending
  | leased
  | deadLetter
  | delivered
  deriving DecidableEq

/-- A row of `durable_outbox`, in column order. -/
structure Row (Tag : Type) where
  itemId : Str
  payloadJson : Str
  payloadSha256 : Str
  signature : Tag
  state : State
  attempts : ℕ
  nextAttempt : Double
  leaseOwner : Str
  leaseUntil : Double
  lastError : Str
  createdAt : Double
  sizeBytes : ℕ
  stateSignature : Tag

/-- What `_signature` authenticates. -/
structure PayloadBody where
  itemId : Str
  payloadJson : Str
  createdAt : Double

/-- What `_state_signature` authenticates. -/
structure StateBody (Tag : Type) where
  itemId : Str
  payloadSha256 : Str
  payloadSignature : Tag
  createdAt : Double
  state : State
  attempts : ℕ
  nextAttempt : Double
  leaseOwner : Str
  leaseUntil : Double
  lastError : Str
  sizeBytes : ℕ

/-- The libraries the outbox calls: JSON both ways, SHA-256, and HMAC under the outbox key as an
    injective tag on the two signed bodies. -/
structure Platform (Tag P J : Type) where
  isMapping : P → Bool
  /-- `_canonical(dict(payload))`; `none` when it raises. -/
  canonical : P → Option Str
  /-- `json.loads`; `none` when it raises. -/
  loads : Str → Option J
  isObject : J → Bool
  sha256 : Str → Str
  payloadTag : PayloadBody → Tag
  stateTag : StateBody Tag → Tag
  loads_canonical : ∀ p s, isMapping p = true → canonical p = some s →
    ∃ j, loads s = some j ∧ isObject j = true
  payloadTag_injective : Function.Injective payloadTag
  stateTag_injective : Function.Injective stateTag

structure Limits where
  maxItems : ℕ
  maxBytes : ℕ
  maxAttempts : ℕ
  deliveredTombstones : ℕ
  maxAttempts_pos : 1 ≤ maxAttempts
  maxAttempts_le : maxAttempts ≤ 100

/-- `MAX_ITEM_BYTES`. -/
def maxItemBytes : ℕ := 256 * 1024

/-- `max(low, min(value, high))`. -/
def clamp (low high value : ℤ) : ℕ := (max low (min value high)).toNat

/-- The clamps of `DurableOutbox.__init__`. -/
def Limits.ofArgs (maxItems maxBytes maxAttempts deliveredTombstones : ℤ) : Limits where
  maxItems := clamp 100 500000 maxItems
  maxBytes := clamp maxItemBytes (2 * 1024 ^ 3) maxBytes
  maxAttempts := clamp 1 100 maxAttempts
  deliveredTombstones := clamp 100 100000 deliveredTombstones
  maxAttempts_pos := by simp only [clamp]; omega
  maxAttempts_le := by simp only [clamp]; omega

structure DurableOutbox (Tag P J : Type) extends Platform Tag P J, Limits

inductive OutboxError where
  | value (message : String)
  | type (message : String)
  | key (itemId : Str)
  | full (message : String)
  | integrity (message : String)
  /-- Raised by the JSON codec or the interpreter. -/
  | runtime

def itemError {α : Type} (itemId : Str) (what : String) : Except OutboxError α :=
  .error (.integrity ("outbox item " ++ String.ofList itemId ++ " " ++ what))

variable {Tag P J : Type} [DecidableEq Tag] (o : DurableOutbox Tag P J)

/-- `_signature`. -/
def DurableOutbox.signatureOf (itemId payloadJson : Str) (createdAt : Double) : Tag :=
  o.payloadTag ⟨itemId, payloadJson, createdAt⟩

def Row.body (row : Row Tag) : StateBody Tag :=
  ⟨row.itemId, row.payloadSha256, row.signature, row.createdAt, row.state, row.attempts,
    row.nextAttempt, row.leaseOwner, row.leaseUntil, row.lastError, row.sizeBytes⟩

/-- `_state_signature`. -/
def DurableOutbox.stateSignatureOf (row : Row Tag) : Tag := o.stateTag row.body

/-- `replace(row, state_signature=self._state_signature(row))`. -/
def DurableOutbox.sign (row : Row Tag) : Row Tag :=
  { row with stateSignature := o.stateSignatureOf row }

/-- `_verify_row`, without the checks that the columns have their types. -/
def DurableOutbox.verifyRow (row : Row Tag) : Except OutboxError J :=
  if row.itemId = [] ∨ 160 < row.itemId.length then
    .error (.integrity "outbox row has an invalid item identity")
  else if 100 < row.attempts then itemError row.itemId "has invalid attempts"
  else if 160 < row.leaseOwner.length ∨ 1000 < row.lastError.length then
    itemError row.itemId "has oversized state"
  else if row.state = .leased ∧ row.leaseOwner = [] then itemError row.itemId "has no lease owner"
  else if row.state ≠ .leased ∧ (row.leaseOwner ≠ [] ∨ row.leaseUntil.val ≠ 0) then
    itemError row.itemId "has a stray lease"
  else if row.state = .delivered ∧ row.lastError ≠ [] then
    itemError row.itemId "has invalid delivered state"
  else if maxItemBytes < utf8Length row.payloadJson ∨ row.sizeBytes ≠ utf8Length row.payloadJson then
    itemError row.itemId "failed its size check"
  else if o.sha256 row.payloadJson ≠ row.payloadSha256 then
    itemError row.itemId "failed its content digest"
  else if o.signatureOf row.itemId row.payloadJson row.createdAt ≠ row.signature then
    itemError row.itemId "failed authentication"
  else match o.loads row.payloadJson with
    | none => itemError row.itemId "is invalid JSON"
    | some payload =>
      if o.isObject payload = false then itemError row.itemId "payload is not an object"
      else if o.stateSignatureOf row ≠ row.stateSignature then
        itemError row.itemId "failed mutable-state authentication"
      else .ok payload

/-! ### Statements -/

structure Db (Tag : Type) where
  rows : List (Row Tag)
  written : List (Str × State)

def Db.empty : Db Tag := ⟨[], []⟩

/-- `_verify_all_rows_locked`, when the sentinels ask for it. -/
def DurableOutbox.verifyIfChanged (audit : Bool) (db : Db Tag) : Except OutboxError Unit :=
  if audit then db.rows.forM fun row => (o.verifyRow row).map fun _ => () else .ok ()

/-- `WHERE item_id=? AND state_signature=?`. -/
def Row.isVersion (itemId : Str) (stateSignature : Tag) (row : Row Tag) : Bool :=
  row.itemId = itemId ∧ row.stateSignature = stateSignature

/-- The `SET` part of the update; real columns hold no negative zero. -/
def Row.overwrite (updated row : Row Tag) : Row Tag :=
  { row with
    state := updated.state
    attempts := updated.attempts
    nextAttempt := updated.nextAttempt.stored
    leaseOwner := updated.leaseOwner
    leaseUntil := updated.leaseUntil.stored
    lastError := updated.lastError
    stateSignature := updated.stateSignature }

/-- `_update_state_locked`, for the changed row before it is signed. -/
def DurableOutbox.updateState (db : Db Tag) (row changed : Row Tag) :
    Except OutboxError (Db Tag) :=
  let updated := o.sign changed
  let version := Row.isVersion updated.itemId row.stateSignature
  if Table.rowcount version db.rows ≠ 1 then
    itemError row.itemId "changed during its state transition"
  else .ok ⟨Table.update version updated.overwrite db.rows,
    (updated.itemId, updated.state) :: db.written⟩

/-- `SELECT … WHERE state='delivered' ORDER BY created_at DESC`, ties in row order. -/
def tombstones (rows : List (Row Tag)) : List (Row Tag) :=
  (rows.filter fun row => row.state = .delivered).insertionSort
    fun a b => b.createdAt ≤ a.createdAt

def DurableOutbox.deleteVersion (db : Db Tag) (row : Row Tag) : Except OutboxError (Db Tag) := do
  let _ ← o.verifyRow row
  let version := Row.isVersion row.itemId row.stateSignature
  if Table.rowcount version db.rows ≠ 1 then
    itemError row.itemId "changed during tombstone pruning"
  else .ok { db with rows := Table.delete version db.rows }

/-- `_prune_tombstones_locked`. -/
def DurableOutbox.pruneTombstones (db : Db Tag) : Except OutboxError (Db Tag) :=
  ((tombstones db.rows).drop o.deliveredTombstones).foldlM o.deleteVersion db

/-- `WHERE state!='delivered'`. -/
def retained (rows : List (Row Tag)) : List (Row Tag) :=
  rows.filter fun row => row.state ≠ .delivered

/-- `SUM(size_bytes)`. -/
def bytes (rows : List (Row Tag)) : ℕ := (rows.map (·.sizeBytes)).sum

/-- The row as its columns give it back. -/
def Row.stored (row : Row Tag) : Row Tag :=
  { row with
    nextAttempt := row.nextAttempt.stored
    leaseUntil := row.leaseUntil.stored
    createdAt := row.createdAt.stored }

/-- `INSERT INTO durable_outbox` of a row whose key is free. -/
def Db.insert (db : Db Tag) (row : Row Tag) : Db Tag :=
  ⟨db.rows ++ [row.stored], (row.itemId, row.state) :: db.written⟩

def findRow (db : Db Tag) (itemId : Str) : Option (Row Tag) :=
  db.rows.find? fun row => row.itemId = itemId

/-! ### Enqueue -/

/-- The signed pending row that `enqueue` and `enqueue_many` build for one item. -/
def DurableOutbox.prepare (itemId : Str) (payload : P) (now : Double) :
    Except OutboxError (Row Tag) :=
  let identifier := strip itemId
  if identifier = [] ∨ 160 < identifier.length then
    .error (.value "outbox item ID is empty or oversized")
  else if o.isMapping payload = false then .error (.type "outbox payload must be a mapping")
  else match o.canonical payload with
    | none => .error .runtime
    | some serialized =>
      if maxItemBytes < utf8Length serialized then .error (.value "outbox item exceeds 256 KiB")
      else match o.loads serialized with
        | none => .error .runtime
        | some _ => .ok (o.sign
          { itemId := identifier
            payloadJson := serialized
            payloadSha256 := o.sha256 serialized
            signature := o.signatureOf identifier serialized now
            state := .pending
            attempts := 0
            nextAttempt := .zero
            leaseOwner := []
            leaseUntil := .zero
            lastError := []
            createdAt := now
            sizeBytes := utf8Length serialized
            stateSignature := o.signatureOf identifier serialized now })

def capacityError {α : Type} : Except OutboxError α :=
  .error (.full "outbox pending/dead-letter capacity is exhausted")

def conflictError {α : Type} : Except OutboxError α :=
  .error (.value "outbox item ID conflicts with another payload")

/-- The replay check of an existing row: it authenticates and holds the same payload. -/
def DurableOutbox.checkReplay (existing row : Row Tag) : Except OutboxError Unit := do
  let _ ← o.verifyRow existing
  if existing.payloadJson ≠ row.payloadJson then conflictError else .ok ()

/-- `enqueue`; the result says whether the item is new. -/
def DurableOutbox.enqueue (audit : Bool) (itemId : Str) (payload : P) (now : Double) (db : Db Tag) :
    Except OutboxError (Db Tag × Bool) := do
  let row ← o.prepare itemId payload now
  o.verifyIfChanged audit db
  match findRow db row.itemId with
  | some existing => do
    o.checkReplay existing row
    .ok (db, false)
  | none => do
    let db ← o.pruneTombstones db
    if o.maxItems ≤ (retained db.rows).length ∨
        o.maxBytes < bytes (retained db.rows) + row.sizeBytes then capacityError
    else .ok (db.insert row, true)

/-- One entry of the batch: the first entry of an identifier is kept. -/
def DurableOutbox.prepareEntry (prepared : List (Row Tag)) (entry : Str × P × Double) :
    Except OutboxError (List (Row Tag)) := do
  let row ← o.prepare entry.1 entry.2.1 entry.2.2
  match prepared.find? fun previous => previous.itemId = row.itemId with
  | some previous =>
    if previous.payloadJson ≠ row.payloadJson then conflictError else .ok prepared
  | none => .ok (prepared ++ [row])

/-- One prepared row: a replay is checked, a new row is an addition. -/
def DurableOutbox.addEntry (db : Db Tag) (additions : List (Row Tag)) (row : Row Tag) :
    Except OutboxError (List (Row Tag)) :=
  match findRow db row.itemId with
  | some existing => (o.checkReplay existing row).map fun _ => additions
  | none => .ok (additions ++ [row])

/-- `enqueue_many`; the result is the number of new items. -/
def DurableOutbox.enqueueMany (audit : Bool) (entries : List (Str × P × Double)) (db : Db Tag) :
    Except OutboxError (Db Tag × ℕ) :=
  if 100 < entries.length then .error (.value "outbox batch exceeds 100 entries")
  else do
    let prepared ← entries.foldlM o.prepareEntry []
    if prepared = [] then .ok (db, 0)
    else do
      o.verifyIfChanged audit db
      let additions ← prepared.foldlM (o.addEntry db) []
      if additions = [] then .ok (db, 0)
      else do
        let db ← o.pruneTombstones db
        if o.maxItems < (retained db.rows).length + additions.length ∨
            o.maxBytes < bytes (retained db.rows) + bytes additions then capacityError
        else .ok (additions.foldl Db.insert db, additions.length)

/-! ### Claim -/

structure OutboxItem (J : Type) where
  itemId : Str
  payload : J
  createdAt : Double
  attempts : ℕ

/-- A float argument. -/
inductive PyFloat where
  | finite (d : Double)
  | inf
  | negInf
  | nan

def oneSecond : Double := .ofNat 1 Double.one_fits
def oneHour : Double := .ofNat 3600 Double.hour_fits

/-- `max(1.0, min(float(lease_seconds), 3600.0))`. -/
def clampLease : PyFloat → Double
  | .finite d => if oneHour < d then oneHour else if oneSecond < d then d else oneSecond
  | .inf => oneHour
  | .negInf => oneSecond
  | .nan => oneSecond

/-- `str(owner).strip()[:160]`. -/
def workerOf (owner : Str) : Str := (strip owner).take 160

/-- `ORDER BY created_at,item_id`. -/
def Row.earlier (a b : Row Tag) : Prop :=
  a.createdAt < b.createdAt ∨ (a.createdAt ≤ b.createdAt ∧ ¬b.itemId < a.itemId)

instance : DecidableRel (@Row.earlier Tag) := fun a b =>
  inferInstanceAs (Decidable (a.createdAt < b.createdAt ∨
    (a.createdAt ≤ b.createdAt ∧ ¬b.itemId < a.itemId)))

def ordered (rows : List (Row Tag)) : List (Row Tag) := rows.insertionSort Row.earlier

def Row.release (row : Row Tag) : Row Tag :=
  { row with state := .pending, leaseOwner := [], leaseUntil := .zero }

def Row.lease (worker : Str) (deadline : Double) (row : Row Tag) : Row Tag :=
  { row with state := .leased, leaseOwner := worker, leaseUntil := deadline }

/-- The body of the loop over expired leases. -/
def DurableOutbox.expireRow (db : Db Tag) (raw : Row Tag) : Except OutboxError (Db Tag) := do
  let _ ← o.verifyRow raw
  o.updateState db raw raw.release

/-- The body of the loop over ready rows; an infinite deadline cannot be signed. -/
def DurableOutbox.leaseRow (worker : Str) (stamp lease : Double) (db : Db Tag) (raw : Row Tag) :
    Except OutboxError (Db Tag) := do
  let _ ← o.verifyRow raw
  match stamp.add lease with
  | none => .error .runtime
  | some deadline => o.updateState db raw (raw.lease worker deadline)

/-- `as_item`. -/
def DurableOutbox.asItem (raw : Row Tag) : Except OutboxError (OutboxItem J) := do
  let payload ← o.verifyRow raw
  .ok ⟨raw.itemId, payload, raw.createdAt, raw.attempts⟩

def expired (stamp : Double) (rows : List (Row Tag)) : List (Row Tag) :=
  rows.filter fun row => row.state = .leased ∧ row.leaseUntil ≤ stamp

def ready (stamp : Double) (limit : ℕ) (rows : List (Row Tag)) : List (Row Tag) :=
  (ordered (rows.filter fun row => row.state = .pending ∧ row.nextAttempt ≤ stamp)).take limit

def held (worker : Str) (limit : ℕ) (rows : List (Row Tag)) : List (Row Tag) :=
  (ordered (rows.filter fun row => row.state = .leased ∧ row.leaseOwner = worker)).take limit

/-- `claim`. -/
def DurableOutbox.claim (audit : Bool) (owner : Str) (now : Double) (limit : ℤ) (lease : PyFloat)
    (db : Db Tag) : Except OutboxError (Db Tag × List (OutboxItem J)) :=
  let worker := workerOf owner
  if worker = [] then .error (.value "lease owner is required")
  else do
    o.verifyIfChanged audit db
    let db ← (expired now db.rows).foldlM o.expireRow db
    let db ← (ready now (clamp 1 1000 limit) db.rows).foldlM
      (o.leaseRow worker now (clampLease lease)) db
    let items ← (held worker (clamp 1 1000 limit) db.rows).mapM o.asItem
    .ok (db, items)

/-! ### Settling -/

/-- `_required_row_locked`. -/
def DurableOutbox.requiredRow (db : Db Tag) (itemId : Str) : Except OutboxError (Row Tag) :=
  match findRow db itemId with
  | none => .error (.key itemId)
  | some raw => (o.verifyRow raw).map fun _ => raw

def Row.deliver (row : Row Tag) : Row Tag :=
  { row with state := .delivered, leaseOwner := [], leaseUntil := .zero, lastError := [] }

/-- `complete_pending`. -/
def DurableOutbox.completePending (audit : Bool) (itemId : Str) (db : Db Tag) :
    Except OutboxError (Db Tag) := do
  o.verifyIfChanged audit db
  let row ← o.requiredRow db itemId
  if row.state ≠ .pending ∧ row.state ≠ .leased then .error (.key itemId)
  else do
    let db ← o.updateState db row row.deliver
    o.pruneTombstones db

/-- `acknowledge`. -/
def DurableOutbox.acknowledge (audit : Bool) (itemId owner : Str) (db : Db Tag) :
    Except OutboxError (Db Tag) := do
  o.verifyIfChanged audit db
  let row ← o.requiredRow db itemId
  if row.state ≠ .leased ∨ row.leaseOwner ≠ owner then .error (.key itemId)
  else do
    let db ← o.updateState db row row.deliver
    o.pruneTombstones db

/-- `min(3600.0, float(2 ** min(attempts, 12)))`. -/
def backoffSeconds (attempts : ℕ) : ℕ := min 3600 (2 ^ min attempts 12)

theorem backoffSeconds_le (attempts : ℕ) : backoffSeconds attempts ≤ 3600 := Nat.min_le_left _ _

def backoff (attempts : ℕ) : Double :=
  .ofNat (backoffSeconds attempts) ((backoffSeconds_le attempts).trans (by decide))

def Row.fail (dead : Bool) (nextAttempt : Double) (error : Str) (row : Row Tag) : Row Tag :=
  { row with
    state := if dead then .deadLetter else .pending
    attempts := row.attempts + 1
    nextAttempt := nextAttempt
    leaseOwner := []
    leaseUntil := .zero
    lastError := error.take 1000 }

/-- `retry`. -/
def DurableOutbox.retry (audit : Bool) (itemId owner error : Str) (now : Double) (db : Db Tag) :
    Except OutboxError (Db Tag) := do
  o.verifyIfChanged audit db
  let row ← o.requiredRow db itemId
  if row.state ≠ .leased ∨ row.leaseOwner ≠ owner then .error (.key itemId)
  else
    let dead := decide (o.maxAttempts ≤ row.attempts + 1)
    match now.add (if dead then .zero else backoff (row.attempts + 1)) with
    | none => .error .runtime
    | some nextAttempt => o.updateState db row (row.fail dead nextAttempt error)

/-! ### Runs -/

inductive Call (P : Type) where
  | enqueue (itemId : Str) (payload : P) (now : Double)
  | enqueueMany (entries : List (Str × P × Double))
  | claim (owner : Str) (now : Double) (limit : ℤ) (lease : PyFloat)
  | acknowledge (itemId owner : Str)
  | retry (itemId owner error : Str) (now : Double)
  | completePending (itemId : Str)

/-- The table a call commits. -/
def DurableOutbox.commit (audit : Bool) (db : Db Tag) : Call P → Except OutboxError (Db Tag)
  | .enqueue itemId payload now => (o.enqueue audit itemId payload now db).map (·.1)
  | .enqueueMany entries => (o.enqueueMany audit entries db).map (·.1)
  | .claim owner now limit lease => (o.claim audit owner now limit lease db).map (·.1)
  | .acknowledge itemId owner => o.acknowledge audit itemId owner db
  | .retry itemId owner error now => o.retry audit itemId owner error now db
  | .completePending itemId => o.completePending audit itemId db

/-- A call commits its table, or raises and is rolled back. -/
def DurableOutbox.Step (db : Db Tag) (call : Bool × Call P) (db' : Db Tag) : Prop :=
  o.commit call.1 db call.2 = .ok db' ∨ (∃ e, o.commit call.1 db call.2 = .error e ∧ db' = db)

end Angerona.Outbox
