import Angerona.Lib.Transition
import Angerona.Remediation.Database

/-!
    Any number of `RemediationLog` instances on one database.

    The world is the tables, what each instance keeps in memory, and the capability objects handed
    out. A call runs under its instance's lock. Where a call commits and then goes on, or reads the
    receipt head and commits later, the rest of it is held by the instance, and calls of other
    instances come in between. A call that raises before its commit is rolled back. -/

namespace Angerona.Remediation
open Text PyJson Raising

/-! ### Capabilities -/

/-- A `TransactionOwnerCapability`. -/
structure OwnerCapability where
  transactionId : ℕ
  secret : ℕ
  retired : Bool

/-- A `RecoveryCapability`. -/
structure RecoveryCapability where
  transactionId : ℕ
  secret : ℕ
  retired : Bool

/-- A `_VerifiedRecoveryProof`; its coordinator is named by the instance that minted it. -/
structure RecoveryProof where
  coordinator : ℕ
  transactionId : ℕ
  actionKey : Str
  recordSha : Str
  result : Str
  record : Json
  retired : Bool

/-! ### Instances -/

/-- The rest of a call whose instance keeps its lock. -/
inductive Held where
  /-- `log` between reading the receipt head and its `INSERT`. -/
  | insert (previous : Str) (entry : Entry)
  /-- `log` after its commit. -/
  | logged
  /-- `finish_transaction` after its commit. -/
  | finished (owner : ℕ)
  /-- `_finish_reconciliation` after its commit. -/
  | reconciled (transactionId capability proof : ℕ)

structure Instance where
  /-- The registry of the recovery coordinator, once bound: keys, and whether reversible. -/
  coordinator : Option (List (Str × Bool))
  /-- `_recovery_proofs`. -/
  proofs : List (ℕ × ℕ)
  /-- `_writes`. -/
  writes : ℕ
  held : Option Held

def Instance.new : Instance := ⟨none, [], 0, none⟩

structure World where
  db : Db
  instances : List Instance
  owners : List OwnerCapability
  recoveries : List RecoveryCapability
  proofs : List RecoveryProof

def World.start : World := ⟨.empty, [], [], [], []⟩

/-! ### Calls -/

structure PrepareArgs where
  trigger : Str
  mitre : Str
  actionKey : Str
  actionTitle : Str
  hostLevel : Bool
  record : Value
  /-- What `secrets.token_bytes` returns. -/
  secret : ℕ

structure LogArgs where
  trigger : Str
  mitre : Option Str
  actionKey : Str
  actionTitle : Str
  outcome : Str
  verified : ℤ
  hostLevel : Bool
  /-- `null` for None. -/
  record : Value
  stamp : Stamp

/-- A call with its arguments. Capabilities are named by their place in the order of issue, a
    coordinator by the instance that minted it. -/
inductive Call where
  /-- A new `RemediationLog`. -/
  | init
  | bindCoordinator (registry : List (Str × Bool))
  | prepare (args : PrepareArgs)
  | transition (owner : ℕ) (state : Str) (record : Value)
  | finish (owner : ℕ) (result : Str) (record : Value) (stamp : Stamp)
  | claim (coordinator : ℕ) (transactionId : ℤ) (secret : ℕ)
  | issue (coordinator capability action : ℕ) (operation : Str) (evidence : Value)
  | finishReconciliation (coordinator capability proof : ℕ) (stamp : Stamp)
  | log (args : LogArgs)
  | prune
  /-- A call that fails on custody, a lock or the disk before its commit. -/
  | fail
  /-- The rest of the call that holds the lock; its SQLite transaction may fail. -/
  | proceed (fails : Bool)

/-- `str.upper`, for the characters whose capital is an ASCII letter. -/
def upper (s : Str) : Str :=
  s.map fun c =>
    if c.toNat = 0x131 then 'I' else if c.toNat = 0x17F then 'S' else c.toUpper

section Calls

variable (P : Platform)

/-- `_bind_recovery_coordinator`: a registry of actions with different keys; a second binding
    changes nothing. -/
def Instance.bind (registry : List (Str × Bool)) (inst : Instance) : Except Raised Instance := do
  match inst.coordinator with
  | some _ => .ok inst
  | none =>
    if registry = [] then
      .error (.value "an exact non-empty recovery action registry is required")
    else
      let keys ← registry.mapM fun action => boundedField action.1 "recovery action key"
      if ¬keys.Nodup then
        .error (.value "recovery action registry must have exact unique entries")
      else .ok { inst with coordinator := some registry }

/-- `_require_recovery_coordinator`, on instance `i`. -/
def Instance.requireCoordinator (i coordinator : ℕ) (inst : Instance) :
    Except Raised (List (Str × Bool)) :=
  match inst.coordinator with
  | some registry =>
    if coordinator ≠ i then .error (.runtime "remediation recovery coordinator is unavailable")
    else if registry.any fun action => strip action.1 ≠ action.1 then
      .error (.runtime "recovery action registry changed after binding")
    else .ok registry
  | none => .error (.runtime "remediation recovery coordinator is unavailable")

def World.setInstance (i : ℕ) (inst : Instance) (w : World) : World :=
  { w with instances := w.instances.set i inst }

/-- `prepare_transaction`. -/
def World.prepare (args : PrepareArgs) (w : World) : Except Raised World := do
  let trigger ← boundedField args.trigger "trigger"
  let mitre ← boundedField (orText args.mitre "-".toList) "mitre"
  let actionKey ← boundedField args.actionKey "action_key"
  let actionTitle ← boundedField args.actionTitle "action_title"
  let encoded ← encodeRecord P args.record
  let db ← w.db.prepare ⟨trigger, mitre, actionKey, actionTitle, args.hostLevel, encoded⟩
    (P.ownerDigest args.secret)
  .ok { w with db, owners := w.owners ++ [⟨db.txSeq, args.secret, false⟩] }

/-- The proof of an owner capability, unless it is retired. -/
def World.ownerProof (owner : ℕ) (w : World) : Except Raised OwnerCapability :=
  match w.owners[owner]? with
  | none => .error (.type "an exact transaction owner capability is required")
  | some capability =>
    if capability.retired then
      .error (.runtime "remediation transaction owner capability is unavailable")
    else .ok capability

/-- `transition_transaction`. -/
def World.transition (owner : ℕ) (state : Str) (record : Value) (w : World) :
    Except Raised World := do
  if upper state ≠ "MUTATING".toList then
    .error (.value "invalid remediation transaction state transition")
  else
    let capability ← w.ownerProof owner
    let encoded ← encodeRecord P record
    let db ← w.db.transition capability.transactionId (P.ownerDigest capability.secret) encoded
    .ok { w with db }

/-- `finish_transaction` up to its commit. -/
def World.finish (i : ℕ) (inst : Instance) (owner : ℕ) (result : Str) (record : Value)
    (stamp : Stamp) (w : World) : Except Raised World := do
  match ordinaryResult result with
  | none => .error (.value "invalid ordinary remediation completion result")
  | some completion =>
    let normalized ← normalizedRecord record result
    let encoded ← encodeRecord P (.dict normalized)
    let capability ← w.ownerProof owner
    let db ← w.db.finish P capability.transactionId (P.ownerDigest capability.secret) completion
      normalized encoded stamp
    .ok (({ w with db }).setInstance i { inst with held := some (.finished owner) })

/-- `_claim_reconciliation`. -/
def World.claim (i : ℕ) (inst : Instance) (coordinator : ℕ) (transactionId : ℤ) (secret : ℕ)
    (w : World) : Except Raised World := do
  let _ ← inst.requireCoordinator i coordinator
  match ← w.db.claim P transactionId secret with
  | none => .ok w
  | some (id, db) => .ok { w with db, recoveries := w.recoveries ++ [⟨id, secret, false⟩] }

/-- A recovery capability that is not retired. -/
def World.recoveryOf (capability : ℕ) (w : World) : Except Raised RecoveryCapability :=
  match w.recoveries[capability]? with
  | none => .error (.type "an exact remediation recovery capability is required")
  | some recovery =>
    if recovery.retired then
      .error (.runtime "remediation recovery capability is unavailable")
    else .ok recovery

/-- `value is True`. -/
def isTrue : Value → Bool
  | .bool true => true
  | _ => false

/-- The result an operation proves, given its evidence and whether the action is reversible. -/
def provenResult (operation : Str) (reversible : Bool) (evidence : Value) :
    Except Raised (Str × Dict) :=
  if operation = "verified_rollback".toList then
    if ¬reversible then .error (.runtime "irreversible recovery cannot assert rollback")
    else
      match evidence with
      | .dict d =>
        if isTrue (getItem "ok".toList d) then .ok ("reconciled_rolled_back".toList, d)
        else .error (.runtime "verified rollback evidence is required")
      | _ => .error (.runtime "verified rollback evidence is required")
  else if operation = "verified_postcondition".toList then
    if reversible then .error (.runtime "reversible recovery requires exact rollback")
    else
      match evidence with
      | .dict d =>
        if isTrue (getItem "verified".toList d) then .ok ("reconciled_applied".toList, d)
        else .error (.runtime "verified postcondition evidence is required")
      | _ => .error (.runtime "verified postcondition evidence is required")
  else .error (.value "invalid verified recovery operation")

/-- The retained record with the operation that was verified. -/
def recoveredRecord (result : Str) (evidence retained : Dict) : Dict :=
  if result = "reconciled_rolled_back".toList then
    setFields [("recovery_operation".toList, .str "verified_rollback".toList),
      ("rollback".toList, .dict evidence), ("rollback_verified".toList, .bool true)] retained
  else
    setFields [("recovery_operation".toList, .str "verified_postcondition".toList),
      ("postcondition_verified".toList, .bool true)] retained

/-- `_issue_verified_recovery_proof`. -/
def World.issue (i : ℕ) (inst : Instance) (coordinator capability action : ℕ) (operation : Str)
    (evidence : Value) (w : World) : Except Raised World := do
  let registry ← inst.requireCoordinator i coordinator
  match registry[action]? with
  | none => .error (.runtime "recovery action is outside the bound registry")
  | some (actionKey, reversible) =>
    let (result, evidence) ← provenResult operation reversible evidence
    let recovery ← w.recoveryOf capability
    let (row, claim, _) ← w.db.validateClaim P recovery.transactionId recovery.secret
    if row.actionKey ≠ actionKey then
      .error (.runtime "recovery action does not match retained control")
    else if inst.proofs.any fun proof => proof.1 = recovery.transactionId then
      .error (.runtime "a verified recovery proof is already active")
    else
      let retained ← decodeRecord P row.record
      let normalized ← normalizedRecord (.dict (recoveredRecord result evidence retained)) result
      let encoded ← encodeRecord P (.dict normalized)
      let proof : RecoveryProof :=
        ⟨i, recovery.transactionId, actionKey, claim.recordSha, result, encoded, false⟩
      .ok (({ w with proofs := w.proofs ++ [proof] }).setInstance i { inst with
        proofs := inst.proofs ++ [(recovery.transactionId, w.proofs.length)] })

/-- `_finish_reconciliation` up to its commit. -/
def World.finishReconciliation (i : ℕ) (inst : Instance) (coordinator capability proof : ℕ)
    (stamp : Stamp) (w : World) : Except Raised World := do
  let _ ← inst.requireCoordinator i coordinator
  let recovery ← w.recoveryOf capability
  match w.proofs[proof]? with
  | none => .error (.type "an exact verified recovery proof is required")
  | some witness =>
    if witness.retired then .error (.runtime "verified recovery proof is unavailable")
    else if witness.transactionId ≠ recovery.transactionId then
      .error (.runtime "verified recovery proof is bound to another claim")
    else
      match recoveryResult witness.result with
      | none => .error (.runtime "verified recovery proof has no terminal result")
      | some completion =>
        let normalized ← decodeRecord P witness.record
        let encoded ← encodeRecord P (.dict normalized)
        let (row, claim, supplied) ←
          w.db.validateClaim P recovery.transactionId recovery.secret
        if (inst.proofs.find? fun p => p.1 = recovery.transactionId).map Prod.snd ≠
            some proof then
          .error (.runtime "verified recovery proof is unavailable")
        else if witness.actionKey ≠ row.actionKey ∨ witness.recordSha ≠ claim.recordSha ∨
            witness.coordinator ≠ i then
          .error (.runtime "verified recovery proof binding changed")
        else
          let db ← w.db.reconcile P row claim supplied completion normalized encoded stamp
          .ok (({ w with db }).setInstance i { inst with
            held := some (.reconciled recovery.transactionId capability proof) })

/-! ### Optional entries -/

def entryLimitBytes : ℕ := 64 * 1024
def scalarAllowanceBytes : ℕ := 32

/-- `entry_bytes`; the JSON texts have a blank after each separator and only ASCII. -/
def entryBytes (entry : Entry) : ℕ :=
  scalarAllowanceBytes + utf8Length entry.trigger + utf8Length entry.mitre +
    utf8Length entry.actionKey + utf8Length entry.actionTitle + utf8Length entry.outcome +
    (match entry.record with
      | none => 0
      | some record => record.length P.repr 1) +
    entry.receipt.length P.repr 1 + utf8Length entry.receiptHash

/-- `record is None or isinstance(record, dict)`. -/
def isRecord : Value → Bool
  | .null | .dict _ => true
  | _ => false

/-- An exception of the encoders, reported as an invalid entry. -/
def admitted {α : Type} : Except JsonError α → Except Raised α
  | .ok a => .ok a
  | .error _ => .error (.rejected "invalid_entry")

/-- `json.dumps(record, default=str) if record is not None else None`. -/
def recordText : Value → Except JsonError (Option Json)
  | .null => .ok none
  | record => (record.dumps P.repr false).map some

/-- The entry `log` builds once it has read the receipt head. -/
def logEntry (args : LogArgs) (previous : Str) : Except Raised Entry :=
  let mitre := orText (args.mitre.getD []) "-".toList
  if ¬(-(2 ^ 63) ≤ args.verified ∧ args.verified < 2 ^ 63) ∨ ¬isRecord args.record then
    .error (.rejected "invalid_entry")
  else do
    let (receipt, hash) ← admitted (createReceipt P
      { ts := args.stamp.ts, uuid := args.stamp.uuid, trigger := args.trigger, mitre,
        actionKey := args.actionKey, outcome := args.outcome, verified := args.verified,
        hostLevel := args.hostLevel, record := args.record, previousHash := previous })
    let record ← admitted (recordText P args.record)
    let text ← admitted (canonical P (.dict receipt))
    let entry : Entry :=
      { trigger := args.trigger, mitre, actionKey := args.actionKey,
        actionTitle := args.actionTitle, outcome := args.outcome, verified := args.verified,
        hostLevel := args.hostLevel, record, receipt := text, receiptHash := hash }
    if entryLimitBytes < entryBytes P entry then .error (.rejected "entry_too_large")
    else .ok entry

/-- `log` up to its `INSERT`. -/
def World.log (i : ℕ) (inst : Instance) (args : LogArgs) (w : World) : Except Raised World := do
  let entry ← logEntry P args w.db.receiptHead
  .ok (w.setInstance i { inst with held := some (.insert w.db.receiptHead entry) })

/-! ### After a commit -/

/-- The lock released; every `PRUNE_EVERY` receipts of this instance, old ones are deleted. -/
def World.noteCommitted (i : ℕ) (inst : Instance) (fails : Bool) (w : World) : World :=
  if inst.writes + 1 < pruneEvery then
    w.setInstance i { inst with writes := inst.writes + 1, held := none }
  else
    ({ w with db := if fails then w.db else w.db.pruneLog }).setInstance i
      { inst with writes := 0, held := none }

def OwnerCapability.retire (c : OwnerCapability) : OwnerCapability := { c with retired := true }
def RecoveryCapability.retire (c : RecoveryCapability) : RecoveryCapability :=
  { c with retired := true }
def RecoveryProof.retire (p : RecoveryProof) : RecoveryProof := { p with retired := true }

/-- The rest of the call that holds the lock. -/
def World.proceed (i : ℕ) (inst : Instance) (fails : Bool) (w : World) :
    Held → Except Raised Unit × World
  | .insert _ entry =>
    match if fails then .error .environment else w.db.insertReceipt entry with
    | .error e => (.error e, w.setInstance i { inst with held := none })
    | .ok db => (.ok (), ({ w with db }).setInstance i { inst with held := some .logged })
  | .logged => (.ok (), w.noteCommitted i inst fails)
  | .finished owner =>
    (.ok (), ({ w with owners := w.owners.modify owner (·.retire) }).noteCommitted i inst fails)
  | .reconciled transactionId capability proof =>
    (.ok (), ({ w with
        recoveries := w.recoveries.modify capability (·.retire)
        proofs := w.proofs.modify proof (·.retire) }).noteCommitted i
      { inst with proofs := inst.proofs.filter fun p => p.1 ≠ transactionId } fails)

/-! ### Steps -/

/-- A call on instance `i`, whose lock is free. -/
def World.call (i : ℕ) (inst : Instance) (w : World) : Call → Except Raised World
  | .bindCoordinator registry => (inst.bind registry).map fun inst => w.setInstance i inst
  | .prepare args => w.prepare P args
  | .transition owner state record => w.transition P owner state record
  | .finish owner result record stamp => w.finish P i inst owner result record stamp
  | .claim coordinator transactionId secret => w.claim P i inst coordinator transactionId secret
  | .issue coordinator capability action operation evidence =>
    w.issue P i inst coordinator capability action operation evidence
  | .finishReconciliation coordinator capability proof stamp =>
    w.finishReconciliation P i inst coordinator capability proof stamp
  | .log args => w.log P i inst args
  | .prune => .ok { w with db := w.db.pruneLog }
  | .fail => .error .environment
  | .init | .proceed _ => .ok w

/-- A call that raises is rolled back. -/
def World.settle (w : World) : Except Raised World → Except Raised Unit × World
  | .ok w' => (.ok (), w')
  | .error e => (.error e, w)

/-- The result of a call on instance `i` and the world after it; `none` when the instance does not
    exist, or the call waits for its lock. -/
def World.exec (i : ℕ) (c : Call) (w : World) : Option (Except Raised Unit × World) :=
  match c with
  | .init => some (.ok (), { w with instances := w.instances ++ [.new] })
  | .proceed fails =>
    w.instances[i]?.bind fun inst => inst.held.map (w.proceed i inst fails)
  | c =>
    w.instances[i]?.bind fun inst =>
      if inst.held.isSome then none else some (w.settle (w.call P i inst c))

/-- One step: a call of some instance, labelled with the instance. -/
def World.Step (w : World) (label : ℕ × Call) (w' : World) : Prop :=
  ∃ result, w.exec P label.1 label.2 = some (result, w')

end Calls

end Angerona.Remediation
