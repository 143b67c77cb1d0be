import Angerona.Lib.Table
import Angerona.Remediation.Receipts

/-!
    The tables of the remediation log and the SQLite transactions over them.

    `remediation_transactions` holds one row for each mutation of the host, with the digest of its
    owner's capability until it ends. `remediation_reconciliation_claims` holds the claims on rows
    that need recovery, `remediation_log` the receipts. Each function here is the body of one SQLite
    transaction: the tables it commits, or the exception that rolls it back. Rows are in the order
    of their ids, which are never used twice. -/

namespace Angerona.Remediation
open Text PyJson Raising

/-! ### Rows -/

inductive TxState where
  | prepared
  | mutating
  | applied
  | rolledBack
  | recoveryRequired
  deriving DecidableEq

/-- `UNRESOLVED_TRANSACTION_STATES`. -/
def TxState.unresolved : TxState → Bool
  | .prepared | .mutating | .recoveryRequired => true
  | .applied | .rolledBack => false

/-- A row of `remediation_transactions`. -/
structure TxRow where
  id : ℕ
  trigger : Str
  mitre : Str
  actionKey : Str
  actionTitle : Str
  hostLevel : Bool
  state : TxState
  /-- `owner_capability_sha256`. -/
  owner : Option Str
  record : Json

/-- A row of `remediation_reconciliation_claims`. -/
structure Claim where
  claimId : ℕ
  transactionId : ℕ
  recordSha : Str
  /-- `recovery_capability_sha256`. -/
  capability : Str

/-- A row of `remediation_log` before it has an id. -/
structure Entry where
  trigger : Str
  mitre : Str
  actionKey : Str
  actionTitle : Str
  outcome : Str
  verified : ℤ
  hostLevel : Bool
  record : Option Json
  receipt : Json
  receiptHash : Str

structure LogRow extends Entry where
  id : ℕ

/-- The tables, with the counters of `AUTOINCREMENT`. -/
structure Db where
  transactions : List TxRow
  claims : List Claim
  log : List LogRow
  txSeq : ℕ
  claimSeq : ℕ
  logSeq : ℕ

def Db.empty : Db := ⟨[], [], [], 0, 0, 0⟩

inductive Raised where
  | type (message : String)
  | value (message : String)
  | runtime (message : String)
  /-- `RemediationCircuitOpen`. -/
  | circuitOpen (rows : List (ℕ × TxState))
  /-- `OptionalAuditRejected`. -/
  | rejected (reason : String)
  /-- A unique index refused a row. -/
  | integrity
  /-- Raised by `json.dumps`. -/
  | json (e : JsonError)
  /-- A custody check, a lock or the disk. -/
  | environment

/-- An exception of the JSON encoder, raised on. -/
def ofJson {α : Type} : Except JsonError α → Except Raised α
  | .ok a => .ok a
  | .error e => .error (.json e)

def maxRows : ℕ := 10000
def pruneEvery : ℕ := 500
def maxTransactionRecordBytes : ℕ := 64 * 1024
def maxTransactionFieldChars : ℕ := 256

/-! ### Records -/

variable (P : Platform)

/-- `_encode_transaction_record`. -/
def encodeRecord (record : Value) : Except Raised Json :=
  match record with
  | .dict _ => do
    let encoded ← ofJson (canonical P record)
    if maxTransactionRecordBytes < encoded.length P.repr 0 then
      .error (.value "remediation transaction record exceeds its 64 KiB bound")
    else .ok encoded
  | _ => .error (.type "remediation transaction record must be a mapping")

/-- `_decode_transaction_record`. -/
def decodeRecord (encoded : Json) : Except Raised Dict :=
  if maxTransactionRecordBytes < encoded.length P.repr 0 then
    .error (.value "remediation transaction record is invalid or oversized")
  else
    match encoded.loads with
    | .dict record => .ok record
    | _ => .error (.value "remediation transaction record is not a mapping")

/-- `d.update(fields)`. -/
def setFields (fields : List (Str × Value)) (d : Dict) : Dict :=
  fields.foldl (fun d f => setItem (.str f.1) f.2 d) d

/-- The fields that a terminal result fixes. -/
def terminalFields (result : Str) : Option (List (Str × Value)) :=
  if result = "applied".toList ∨ result = "reconciled_applied".toList then
    some [("ok".toList, .bool true), ("transaction_state".toList, .str "applied".toList),
      ("recovery_required".toList, .bool false), ("verified".toList, .bool true),
      ("rollback_succeeded".toList, .bool false), ("rollback_failed".toList, .bool false)]
  else if result = "apply_failed_no_change".toList ∨ result = "rolled_back".toList ∨
      result = "reconciled_rolled_back".toList then
    some [("ok".toList, .bool false), ("transaction_state".toList, .str "rolled_back".toList),
      ("recovery_required".toList, .bool false),
      ("verified".toList, .bool (result = "reconciled_rolled_back".toList)),
      ("rollback_succeeded".toList, .bool true), ("rollback_failed".toList, .bool false)]
  else if result = "recovery_required".toList ∨ result = "reconciliation_failed".toList then
    some [("transaction_state".toList, .str "recovery_required".toList),
      ("recovery_required".toList, .bool true), ("verified".toList, .bool false),
      ("rollback_succeeded".toList, .bool false), ("rollback_failed".toList, .bool false)]
  else if result = "rollback_failed".toList then
    some [("transaction_state".toList, .str "rollback_failed".toList),
      ("recovery_required".toList, .bool true), ("verified".toList, .bool false),
      ("rollback_succeeded".toList, .bool false), ("rollback_failed".toList, .bool true)]
  else none

/-- `_normalized_terminal_record`. -/
def normalizedRecord (record : Value) (result : Str) : Except Raised Dict :=
  match record with
  | .dict d =>
    match terminalFields result with
    | some fields => .ok (setFields fields d)
    | none => .error (.value "invalid remediation terminal record result")
  | _ => .error (.type "remediation transaction record must be a mapping")

/-- `_bounded_transaction_field`. -/
def boundedField (value : Str) (label : String) : Except Raised Str :=
  if strip value = [] ∨ maxTransactionFieldChars < (strip value).length then
    .error (.value ("remediation transaction " ++ label ++ " is empty or over its bound"))
  else .ok (strip value)

/-- A terminal state with the outcome and the verification its receipt records. -/
structure Completion where
  target : TxState
  outcome : Str
  verified : ℤ

/-- `_ORDINARY_TERMINAL_RESULTS`. -/
def ordinaryResult (result : Str) : Option Completion :=
  if result = "applied".toList then some ⟨.applied, "applied".toList, 1⟩
  else if result = "apply_failed_no_change".toList then
    some ⟨.rolledBack, "apply_failed".toList, 0⟩
  else if result = "rolled_back".toList then some ⟨.rolledBack, "rolled_back".toList, 0⟩
  else if result = "recovery_required".toList then
    some ⟨.recoveryRequired, "recovery_required".toList, 0⟩
  else if result = "rollback_failed".toList then
    some ⟨.recoveryRequired, "rollback_failed".toList, 0⟩
  else none

/-- `_RECOVERY_TERMINAL_RESULTS`. -/
def recoveryResult (result : Str) : Option Completion :=
  if result = "reconciled_applied".toList then
    some ⟨.applied, "reconciled_applied".toList, 1⟩
  else if result = "reconciled_rolled_back".toList then
    some ⟨.rolledBack, "reconciled_rolled_back".toList, 1⟩
  else none

/-! ### Receipts -/

/-- `_receipt_head_locked`. -/
def Db.receiptHead (db : Db) : Str :=
  ((db.log.filter fun row => row.receiptHash ≠ []).getLast?.map (·.receiptHash)).getD genesisHash

/-- `_insert_receipt_locked`, under the unique index on `receipt_hash`. -/
def Db.insertReceipt (entry : Entry) (db : Db) : Except Raised Db :=
  if db.log.any fun row => row.receiptHash = entry.receiptHash then .error .integrity
  else .ok { db with log := db.log ++ [⟨entry, db.logSeq + 1⟩], logSeq := db.logSeq + 1 }

/-- `_prune_locked`. -/
def Db.pruneLog (db : Db) : Db :=
  let newest := (db.log.map (·.id)).foldl max 0
  if maxRows < newest then
    { db with log := Table.delete (fun row => row.id ≤ newest - maxRows) db.log }
  else db

/-- What the clock and the random source give a call. -/
structure Stamp where
  ts : PyFloat
  uuid : Str

/-- The receipt entry of a completed transaction row. -/
def completionEntry (row : TxRow) (trigger : Str) (completion : Completion) (normalized : Dict)
    (encoded : Json) (stamp : Stamp) (previous : Str) : Except Raised Entry := do
  let mitre := orText row.mitre "-".toList
  let (receipt, hash) ← ofJson (createReceipt P
    { ts := stamp.ts, uuid := stamp.uuid, trigger, mitre, actionKey := row.actionKey,
      outcome := completion.outcome, verified := completion.verified, hostLevel := row.hostLevel,
      record := .dict normalized, previousHash := previous })
  let text ← ofJson (canonical P (.dict receipt))
  .ok
    { trigger, mitre, actionKey := row.actionKey, actionTitle := row.actionTitle,
      outcome := completion.outcome, verified := completion.verified, hostLevel := row.hostLevel,
      record := some encoded, receipt := text, receiptHash := hash }

/-! ### Ordinary transactions -/

/-- The rows `_prune_transactions_locked` may delete: the oldest `n` that are terminal. -/
def Db.oldestTerminal (n : ℕ) (db : Db) : List ℕ :=
  ((db.transactions.filter fun row => !row.state.unresolved).take n).map (·.id)

/-- `_prune_transactions_locked`. -/
def Db.pruneTransactions (db : Db) : Except Raised Db :=
  let count := db.transactions.length
  if count + 1 ≤ maxRows then .ok db
  else
    let excess := count + 1 - maxRows
    let kept := Table.delete (fun row => row.id ∈ db.oldestTerminal excess) db.transactions
    if maxRows ≤ kept.length then
      .error (.runtime "remediation transaction journal is full of unresolved state")
    else .ok { db with transactions := kept }

/-- The columns `prepare_transaction` gives a row. -/
structure Intent where
  trigger : Str
  mitre : Str
  actionKey : Str
  actionTitle : Str
  hostLevel : Bool
  record : Json

/-- The transaction of `prepare_transaction`; the id is the one SQLite assigns. -/
def Db.prepare (intent : Intent) (ownerDigest : Str) (db : Db) : Except Raised Db :=
  let active := (db.transactions.filter (·.state.unresolved)).take 8
  if active ≠ [] then .error (.circuitOpen (active.map fun row => (row.id, row.state)))
  else do
    let db ← db.pruneTransactions
    if db.transactions.any fun row => row.owner = some ownerDigest then .error .integrity
    else
      let row : TxRow := ⟨db.txSeq + 1, intent.trigger, intent.mitre, intent.actionKey,
        intent.actionTitle, intent.hostLevel, .prepared, some ownerDigest, intent.record⟩
      .ok { db with transactions := db.transactions ++ [row], txSeq := db.txSeq + 1 }

/-- `WHERE id = ? AND state = ? AND owner_capability_sha256 = ? AND NOT EXISTS (… claims …)`. -/
def Db.owned (db : Db) (id : ℕ) (state : TxState) (ownerDigest : Str) (row : TxRow) : Bool :=
  row.id = id ∧ row.state = state ∧ row.owner = some ownerDigest ∧
    ¬db.claims.any fun claim => claim.transactionId = row.id

/-- The transaction of `transition_transaction`. -/
def Db.transition (id : ℕ) (ownerDigest : Str) (encoded : Json) (db : Db) : Except Raised Db :=
  let owned := db.owned id .prepared ownerDigest
  if Table.rowcount owned db.transactions ≠ 1 then
    .error (.runtime "remediation transaction owner, state, or custody is unavailable")
  else .ok { db with
    transactions := Table.update owned
      (fun row => { row with state := .mutating, record := encoded }) db.transactions }

/-- The transaction of `finish_transaction`. -/
def Db.finish (id : ℕ) (ownerDigest : Str) (completion : Completion) (normalized : Dict)
    (encoded : Json) (stamp : Stamp) (db : Db) : Except Raised Db :=
  match db.transactions.find? fun row => row.id = id with
  | none => .error (.runtime "remediation transaction owner, state, or custody is unavailable")
  | some row =>
    if row.state ≠ .mutating ∨ row.owner.getD [] ≠ ownerDigest then
      .error (.runtime "remediation transaction owner, state, or custody is unavailable")
    else if db.claims.any fun claim => claim.transactionId = id then
      .error (.runtime "remediation transaction custody is unavailable")
    else do
      let entry ← completionEntry P row row.trigger completion normalized encoded stamp
        db.receiptHead
      let owned := db.owned id .mutating ownerDigest
      if Table.rowcount owned db.transactions ≠ 1 then
        .error (.runtime "remediation terminal update lost its owner capability")
      else
        Db.insertReceipt entry { db with
          transactions := Table.update owned
            (fun row => { row with state := completion.target, record := encoded, owner := none })
            db.transactions }

/-! ### Recovery -/

/-- The transaction of `_claim_reconciliation`: the claim, and the id of the row it is on; `none`
    when the row is absent, already claimed, or needs no recovery. -/
def Db.claim (wanted : ℤ) (secret : ℕ) (db : Db) : Except Raised (Option (ℕ × Db)) :=
  match db.transactions.find? fun row => (row.id : ℤ) = wanted with
  | none => .ok none
  | some row =>
    if db.claims.any fun claim => claim.transactionId = row.id then .ok none
    else if row.state ≠ .recoveryRequired then .ok none
    else
      let recordSha := P.storedSha256 row.record
      let capability := P.recoveryDigest row.id recordSha secret
      if db.claims.any fun claim => claim.capability = capability then .error .integrity
      else
        let claim : Claim := ⟨db.claimSeq + 1, row.id, recordSha, capability⟩
        .ok (some (row.id, { db with
          claims := db.claims ++ [claim], claimSeq := db.claimSeq + 1 }))

/-- `_validate_recovery_claim_locked`, for a capability in use on transaction `id`. -/
def Db.validateClaim (id : ℕ) (secret : ℕ) (db : Db) : Except Raised (TxRow × Claim × Str) :=
  match (db.transactions.find? fun row => row.id = id),
      (db.claims.find? fun claim => claim.transactionId = id) with
  | some row, some claim =>
    let supplied := P.recoveryDigest id claim.recordSha secret
    if claim.capability ≠ supplied then
      .error (.runtime "reconciliation capability is unavailable")
    else if row.state ≠ .recoveryRequired then
      .error (.runtime "reconciliation transaction state changed")
    else if P.storedSha256 row.record ≠ claim.recordSha then
      .error (.runtime "reconciliation retained record changed")
    else .ok (row, claim, supplied)
  | _, _ => .error (.runtime "reconciliation claim is unavailable")

/-- `WHERE id = ? AND state = 'RECOVERY_REQUIRED' AND EXISTS (… claim with this capability …)`. -/
def Db.claimed (db : Db) (id : ℕ) (capability : Str) (row : TxRow) : Bool :=
  row.id = id ∧ row.state = .recoveryRequired ∧
    db.claims.any fun claim => claim.transactionId = row.id ∧ claim.capability = capability

/-- The statements of `_finish_reconciliation` after its checks. -/
def Db.reconcile (row : TxRow) (claim : Claim) (supplied : Str) (completion : Completion)
    (normalized : Dict) (encoded : Json) (stamp : Stamp) (db : Db) : Except Raised Db := do
  let entry ← completionEntry P row "explicit_reconciliation".toList completion normalized encoded
    stamp db.receiptHead
  let claimed := db.claimed row.id supplied
  if Table.rowcount claimed db.transactions ≠ 1 then
    .error (.runtime "reconciliation transaction update lost its claim")
  else
    let db ← Db.insertReceipt entry { db with
      transactions := Table.update claimed
        (fun row => { row with state := completion.target, record := encoded }) db.transactions }
    let live := fun c : Claim => decide (c.transactionId = row.id ∧ c.claimId = claim.claimId ∧
      c.capability = supplied)
    if Table.rowcount live db.claims ≠ 1 then
      .error (.runtime "reconciliation claim release failed")
    else .ok { db with claims := Table.delete live db.claims }

end Angerona.Remediation
