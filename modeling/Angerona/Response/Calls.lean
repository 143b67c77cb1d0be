import Angerona.Response.Broker
import Angerona.Lib.Transition

/-!
    The calls of the response broker, and the runs of a broker that crashes and starts again.

    `saved` and `log` are history variables: the records as they were last written to the state
    file, and the approvals, completed revocations and invocations in their order. -/

namespace Angerona.Response
open Text PyJson Effect

/-! ### One broker -/

inductive Refusal where
  /-- `PermissionError`. -/
  | permission
  /-- `ValueError`. -/
  | value
  /-- `TypeError`. -/
  | type
  /-- The write of the state file failed. -/
  | write
  /-- Raised by the validator, the handler or the outcome verifier. -/
  | callback
  deriving DecidableEq

inductive WriteOutcome where
  | written
  /-- Raised before the file was replaced. -/
  | lost
  /-- Raised after the file was replaced. -/
  | replaced
  deriving DecidableEq

/-- What a call reads from outside, in order of reading. -/
structure Tape where
  clock : List PyFloat
  /-- The clock of the identity verifier. -/
  identityClock : List Stamp
  /-- Whether `close` was called in another thread since the last look at the latch. -/
  closes : List Bool
  writes : List WriteOutcome
  /-- Whether the release of the lease fails. -/
  leases : List Bool

structure Broker where
  records : Records
  operations : Dict Str ResponseOperation
  closing : Bool
  active : ℕ
  /-- `_lease is not None and _lease.held`. -/
  lease : Bool
  /-- `_degraded` is not empty. -/
  degraded : Bool

structure Disk where
  /-- The enrolment marker exists. -/
  marker : Bool
  file : Option Json

/-- A handler was called. -/
structure Invocation where
  proposal : ResponseProposal
  digest : Str
  operation : ResponseOperation
  principals : List VerifiedPrincipal
  dispatchedAt : Double
  /-- The broker's records and the verifier at that moment. -/
  records : Records
  verifier : ApprovalIdentityVerifier

inductive Event where
  | approved (digest : Str) (proof : SignedPrincipalProof)
  | proposalRevoked (digest : Str)
  | credentialRevoked (fingerprint : Str)
  | invoked (i : Invocation)

/-- What a call works on. -/
structure Site where
  broker : Broker
  disk : Disk
  saved : Records
  log : List Event
  tape : Tape

abbrev Call := Effect Refusal Site

def Site.note (e : Event) (s : Site) : Site := { s with log := s.log ++ [e] }

def Site.setRecords (f : Records → Records) (s : Site) : Site :=
  { s with broker := { s.broker with records := f s.broker.records } }

def Site.degrade (s : Site) : Site := { s with broker := { s.broker with degraded := true } }

/-- `_now`. -/
def now : Call Double := fun s =>
  match s.tape.clock with
  | .finite t :: rest => (.ok t, { s with tape := { s.tape with clock := rest } })
  | _ :: rest => (.error .value, { s with tape := { s.tape with clock := rest } })
  | [] => (.error .value, s)

/-- `_closing.is_set()`. -/
def isClosing : Call Bool := fun s =>
  match s.tape.closes with
  | closed :: rest =>
    (.ok (s.broker.closing || closed),
      { s with tape := { s.tape with closes := rest }
               broker := { s.broker with closing := s.broker.closing || closed } })
  | [] => (.ok s.broker.closing, s)

/-- `_ensure_accepting`. -/
def ensureAccepting : Call Unit := do
  let closing ← isClosing
  check (closing = false) .permission

section Calls

variable (m : Machine) (v : ApprovalIdentityVerifier)

/-- `approval_status()["state"] == "configured"`. -/
def approvalConfigured : Call Bool := do
  let identity ← fun s =>
    match s.tape.identityClock with
    | stamp :: rest =>
      (.ok (m.configured v stamp), { s with tape := { s.tape with identityClock := rest } })
    | [] => (.ok false, s)
  let closing ← isClosing
  let s ← read
  pure (identity && s.broker.lease && !s.broker.degraded && !closing)

/-! ### Saving -/

/-- The replacement of the state file by `text`. -/
def replaceFile (text : Json) : Call Unit := fun s =>
  let t := { s with tape := { s.tape with writes := s.tape.writes.tail } }
  match s.tape.writes.head? with
  | some .lost => (.error .write, t.degrade)
  | some .replaced =>
    (.error .write, { t.degrade with disk := { s.disk with file := some text }
                                     saved := s.broker.records })
  | _ => (.ok (), { t with disk := { s.disk with file := some text }, saved := s.broker.records })

/-- `_save_state`. -/
def saveState : Call Unit := do
  let s ← read
  check (s.broker.lease = true) .permission
  let text ← demand (s.broker.records.encode m).toOption .value
  if Records.maxStateBytes < text.length m.repr 0 then do
    modify Site.degrade
    raise .value
  else replaceFile text

/-! ### Admission -/

/-- `_finish_close_locked`. -/
def finishClose (s : Site) : Site :=
  if s.broker.lease then
    let t := { s with tape := { s.tape with leases := s.tape.leases.tail } }.degrade
    if s.tape.leases.head? = some true then t
    else { t with broker := { t.broker with lease := false } }
  else s.degrade

/-- The end of `_admitted`. -/
def leave (s : Site) : Site :=
  let t := (isClosing { s with broker := { s.broker with active := s.broker.active - 1 } }).2
  if t.broker.closing ∧ t.broker.active = 0 then finishClose t else t

/-- The beginning of `_admitted`. -/
def enter : Call Unit := do
  ensureAccepting
  modify fun s => { s with broker := { s.broker with active := s.broker.active + 1 } }

/-- `with self._admitted():`. -/
def admitted {α : Type} (body : Call α) : Call α := do
  enter
  ensuring body leave

/-- `close`; another thread that holds the lock has an active operation. -/
def close : Call Unit := do
  modify fun s => { s with broker := { s.broker with closing := true } }
  modify fun s => if s.broker.active = 0 then finishClose s else s

/-! ### Approvals -/

/-- The part of `verify_approval` after the proof was verified. -/
def admissible (requestedBy : Str) (records : Records) (p : VerifiedPrincipal) : Bool :=
  match m.resolvePrincipal v requestedBy with
  | none => false
  | some requester =>
    ¬(p.principalId = requester ∨ p.keyFingerprint ∈
      (v.credentials.filter (·.principalId m = requester)).map (·.keyFingerprint m)) ∧
    ¬(p.keyFingerprint ∈ records.revokedKeys ∨ p.principalId ∈ records.revokedSubjects)

/-- `verify_approval`. -/
def verifyApproval (proof : SignedPrincipalProof) (digest requestedBy : Str) :
    Call VerifiedPrincipal := do
  ensureAccepting
  let stamp ← now
  let principal ← demand (m.verify v proof digest stamp) .permission
  let s ← read
  check (admissible m v requestedBy s.broker.records principal = true) .permission
  pure principal

/-- The loop of `verified_approvals`. -/
def verifyAll (digest requestedBy : Str) : List SignedPrincipalProof → Call (List VerifiedPrincipal)
  | [] => pure []
  | proof :: proofs => do
    let principal ← attempt (· = .permission) (verifyApproval m v proof digest requestedBy)
    let rest ← verifyAll digest requestedBy proofs
    pure (principal.toList ++ rest)

/-- The proofs stored for a digest. -/
def Records.proofs (r : Records) (digest : Str) : List SignedPrincipalProof :=
  ((r.approvals.get? digest).getD .empty).values

/-- `verified_approvals` of the proofs stored for a digest. -/
def verifiedApprovals (digest requestedBy : Str) : Call (List VerifiedPrincipal) := do
  let s ← read
  let verified ← verifyAll m v digest requestedBy (s.broker.records.proofs digest)
  check (verified.length ≤ 128) .value
  pure (independentPrincipals verified)

/-- A proposal whose approval has been verified. -/
structure Ticket where
  proposal : ResponseProposal
  digest : Str
  proof : SignedPrincipalProof

/-- `approve`, before it asks for admission. -/
def verifyTicket (proposal : ResponseProposal) (proof : SignedPrincipalProof) : Call Ticket := do
  let text ← demand (proposal.text m) .value
  let _ ← verifyApproval m v proof (m.sha256 text) proposal.requestedBy
  let stamp ← now
  check ((reading stamp).lt proposal.expiresAt = true) .permission
  pure ⟨proposal, m.sha256 text, proof⟩

def Records.approve (digest : Str) (proof : SignedPrincipalProof) (r : Records) : Records :=
  let proofs := ((r.approvals.get? digest).getD .empty).set proof.credentialId proof
  { r with approvals := r.approvals.set digest proofs }

/-- `approve`, once it is admitted. -/
def storeApproval (t : Ticket) : Call ℕ :=
  admitted do
    let s ← read
    let records := s.broker.records
    check (t.digest ∉ records.revokedProposals) .permission
    check (¬(1000 ≤ records.approvals.size ∧ records.approvals.get? t.digest = none)) .value
    let proofs := (records.approvals.get? t.digest).getD .empty
    check (¬(128 ≤ proofs.size ∧ proofs.get? t.proof.credentialId = none)) .value
    modify fun s => (s.setRecords (Records.approve t.digest t.proof)).note (.approved t.digest t.proof)
    saveState m
    let principals ← verifiedApprovals m v t.digest t.proposal.requestedBy
    pure principals.length

/-! ### Revocations -/

/-- `revoke_credential`. -/
def revokeCredential (credentialId : Str) : Call Unit := do
  let record ← demand (v.get credentialId) .permission
  admitted do
    modify fun s => s.setRecords fun r =>
      { r with revokedKeys := record.keyFingerprint m :: r.revokedKeys }
    saveState m
    modify (Site.note (.credentialRevoked (record.keyFingerprint m)))

/-- `revoke_proposal`. -/
def revokeProposal (digest : Str) : Call Unit := do
  check (isHex 64 digest = true) .value
  admitted do
    modify fun s => s.setRecords fun r => { r with revokedProposals := digest :: r.revokedProposals }
    saveState m
    modify (Site.note (.proposalRevoked digest))

/-- `register`. -/
def register (o : ResponseOperation) : Call Unit := do
  check (o.valid = true) .value
  admitted do
    let s ← read
    check (s.broker.operations.get? o.operationId = none) .value
    modify fun s =>
      { s with broker := { s.broker with operations := s.broker.operations.set o.operationId o } }

/-! ### Execution -/

/-- An execution whose handler was called. -/
structure Running where
  proposal : ResponseProposal
  digest : Str
  operation : ResponseOperation
  approvals : List Str

inductive Progress where
  | done (receipt : ResponseReceipt)
  | running (r : Running)

/-- The end of `execute`: the receipt of a result. -/
def recordReceipt (proposal : ResponseProposal) (digest outcome : Str) (executed : Bool)
    (approvals : List Str) (result : List (Key × Value)) (tupled : Bool) : Call ResponseReceipt := do
  let encoded ← demand (m.canonical (.dict result)).toOption .value
  check (encoded.length m.repr 0 ≤ maxBytes) .value
  let recordedAt ← now
  let core : ResponseReceipt :=
    { proposalId := proposal.proposalId, proposalDigest := digest
      operationId := proposal.operationId, targetId := proposal.targetId, outcome, executed
      approvals, result, tupled, recordedAt, receiptHmac := [] }
  let text ← demand (m.canonical (record core.core)).toOption .value
  let receipt := { core with receiptHmac := m.hmac text }
  modify fun s => s.setRecords fun r =>
    { r with receipts := r.receipts.set proposal.proposalId receipt }
  saveState m
  pure receipt

/-- The result of a dry run. -/
def preview (o : ResponseOperation) : List (Key × Value) :=
  [(.str "validated".toList, .bool true), (.str "risk".toList, .str o.risk.text),
    (.str "rollback".toList, .str o.rollback)]

/-- `proposal.created_at <= stamp < proposal.expires_at`. -/
def ResponseProposal.validAt (p : ResponseProposal) (stamp : Double) : Bool :=
  p.createdAt.le (reading stamp) ∧ (reading stamp).lt p.expiresAt

/-- The checks after the attempt was burned, and the call of the handler. -/
def dispatch (proposal : ResponseProposal) (digest : Str) (operation : ResponseOperation)
    (admittedAt : Double) : Call Progress := do
  ensureAccepting
  let dispatchAt ← now
  if dispatchAt < admittedAt then do
    modify Site.degrade
    raise .permission
  else do
    check (proposal.validAt dispatchAt = true) .permission
    let s ← read
    check (s.broker.records.attempts.get? proposal.proposalId = some digest) .permission
    let configured ← approvalConfigured m v
    check (configured = true ∧ digest ∉ s.broker.records.revokedProposals) .permission
    let current ← verifiedApprovals m v digest proposal.requestedBy
    let finalAt ← now
    if finalAt < dispatchAt then do
      modify Site.degrade
      raise .permission
    else do
      check (proposal.validAt finalAt = true ∧ operation.risk.required ≤ current.length ∧
        ∀ p ∈ current, (reading finalAt).lt p.expiresAt = true) .permission
      ensureAccepting
      modify fun s => s.note (.invoked
        { proposal, digest, operation, principals := current, dispatchedAt := finalAt
          records := s.broker.records, verifier := v })
      pure (.running ⟨proposal, digest, operation, current.map (·.principalId)⟩)

/-- `execute` of a proposal that is not a dry run, up to the attempt. -/
def burn (proposal : ResponseProposal) (digest : Str) (operation : ResponseOperation) :
    Call Unit := do
  let configured ← approvalConfigured m v
  check (configured = true) .permission
  let s ← read
  check (digest ∉ s.broker.records.revokedProposals) .permission
  check (s.broker.records.attempts.get? proposal.proposalId = none) .permission
  check (operation.risk.severe = true → operation.verifyOutcome = true) .permission
  modify fun s => s.setRecords fun r =>
    { r with attempts := r.attempts.set proposal.proposalId digest }
  saveState m

/-- The body of `execute`, up to the handler; `valid` says that the validator returned. -/
def prepare (proposal : ResponseProposal) (digest : Str) (valid : Bool) : Call Progress := do
  let s ← read
  match s.broker.records.receipts.get? proposal.proposalId with
  | some existing => do
    check (existing.proposalDigest = digest) .value
    let configured ← (if proposal.dryRun then pure true else approvalConfigured m v)
    check (configured = true) .permission
    pure (.done existing)
  | none => do
    let operation ← demand (s.broker.operations.get? proposal.operationId) .permission
    let admittedAt ← now
    check ((reading admittedAt).lt proposal.expiresAt = true) .permission
    check (valid = true) .callback
    let verified ← verifiedApprovals m v digest proposal.requestedBy
    check (proposal.dryRun = true ∨ operation.risk.required ≤ verified.length) .permission
    if proposal.dryRun then do
      let receipt ← recordReceipt m proposal digest "previewed".toList false
        (verified.map (·.principalId)) (preview operation) false
      pure (.done receipt)
    else do
      burn m v proposal digest operation
      dispatch m v proposal digest operation admittedAt

/-- `execute`, up to the handler: while the handler runs the operation stays active. -/
def execute (proposal : ResponseProposal) (valid : Bool) : Call Progress := do
  let text ← demand (proposal.text m) .value
  enter
  fun s =>
    match prepare m v proposal (m.sha256 text) valid s with
    | (.ok (.running r), t) => (.ok (.running r), t)
    | (r, t) => (r, leave t)

/-- What the handler and the outcome verifier did. -/
inductive Outcome where
  | raised
  /-- The handler did not return a mapping. -/
  | notMapping
  /-- `verdict` is what the outcome verifier returned; `none` when it raised. -/
  | returned (result : List (Key × Value)) (tupled : Bool) (verdict : Option Bool)

/-- The outcome that a receipt records. -/
def Running.outcome (r : Running) (verdict : Bool) : Str :=
  if r.operation.verifyOutcome then
    if verdict then "completed".toList else "verification-failed".toList
  else "completed-unverified".toList

/-- `execute`, from the end of the handler. -/
def finish (r : Running) (o : Outcome) : Call ResponseReceipt :=
  ensuring (match o with
    | .raised => raise .callback
    | .notMapping => raise .type
    | .returned result tupled verdict => do
      let verdict ← (if r.operation.verifyOutcome then demand verdict .callback else pure true)
      recordReceipt m r.proposal r.digest (r.outcome verdict) true r.approvals result tupled) leave

end Calls

/-! ### Runs -/

structure World where
  /-- The broker of the process that runs. -/
  broker : Option Broker
  disk : Disk
  verifier : ApprovalIdentityVerifier
  tickets : List Ticket
  running : List Running
  saved : Records
  log : List Event
  /-- No call of this process has raised. -/
  smooth : Bool

def World.start (v : ApprovalIdentityVerifier) : World :=
  ⟨none, ⟨false, none⟩, v, [], [], .empty, [], true⟩

inductive Label where
  /-- `ResponseBroker(key, identity_verifier=v, state_path=path)`. -/
  | start (v : ApprovalIdentityVerifier) (tape : Tape)
  | register (o : ResponseOperation) (tape : Tape)
  /-- `approve` in its two halves: other calls may come between them. -/
  | verify (proposal : ResponseProposal) (proof : SignedPrincipalProof) (tape : Tape)
  | approve (ticket : ℕ) (tape : Tape)
  | execute (proposal : ResponseProposal) (valid : Bool) (tape : Tape)
  | finish (running : ℕ) (o : Outcome) (tape : Tape)
  /-- Whoever holds an object of a receipt's result changes it: the handler that returned it, or a
      caller that got the receipt. -/
  | change (proposalId : Str) (result : List (Key × Value)) (tupled : Bool)
  | revokeCredential (credentialId : Str) (tape : Tape)
  | revokeProposal (digest : Str) (tape : Tape)
  /-- `revoke` of the identity verifier. -/
  | revokeIdentity (credentialId : Str)
  | close (tape : Tape)
  | crash

/-- The broker of a constructor, before it loads the state. -/
def Broker.fresh (records : Records) : Broker := ⟨records, .empty, false, 0, true, false⟩

namespace World

variable (m : Machine)

def site (w : World) (b : Broker) (tape : Tape) : Site := ⟨b, w.disk, w.saved, w.log, tape⟩

/-- The world after a call that ended with the site `s`. -/
def after {α : Type} (w : World) (r : Except Refusal α) (s : Site) : World :=
  { w with broker := some s.broker, disk := s.disk, saved := s.saved, log := s.log
           smooth := w.smooth && r.isOk }

/-- A call of the broker; what it returns goes into the world. -/
def call {α : Type} (w : World) (b : Broker) (tape : Tape) (c : Call α)
    (keep : α → World → World) : World :=
  let r := c (w.site b tape)
  match r.1 with
  | .ok a => keep a (w.after r.1 r.2)
  | .error _ => w.after r.1 r.2

/-- The constructor. -/
def construct (v : ApprovalIdentityVerifier) (tape : Tape) (w : World) : World :=
  let w := { w with broker := none, verifier := v, tickets := [], running := [], smooth := true }
  if w.disk.marker then
    match w.disk.file.bind (Records.load m) with
    | some records => { w with broker := some (.fresh records) }
    | none => { w with smooth := false }
  else if w.disk.file.isSome then { w with smooth := false }
  else
    let w := { w with disk := { w.disk with marker := true } }
    match saveState m (w.site (.fresh .empty) tape) with
    | (.ok _, s) =>
      { w with broker := some s.broker, disk := s.disk, saved := s.saved, log := s.log }
    | (.error _, s) => { w with disk := s.disk, saved := s.saved, log := s.log, smooth := false }

/-- `revoke` of the identity verifier. -/
def revokeIdentity (credentialId : Str) (w : World) : Option World :=
  (w.verifier.get credentialId).map fun record =>
    { w with verifier := { w.verifier with
        revoked := record.keyFingerprint m :: w.verifier.revoked } }

/-- The result of a receipt in memory is changed; nothing is signed or saved. -/
def change (w : World) (b : Broker) (proposalId : Str) (result : List (Key × Value))
    (tupled : Bool) : Option World :=
  (b.records.receipts.get? proposalId).map fun receipt =>
    { w with broker := some { b with records := { b.records with
        receipts := b.records.receipts.set proposalId { receipt with result, tupled } } } }

/-- A step of the running broker. -/
def exec (w : World) (b : Broker) : Label → Option World
  | .register o tape => some (w.call b tape (Response.register o) fun _ w => w)
  | .verify proposal proof tape =>
    some (w.call b tape (verifyTicket m w.verifier proposal proof) fun t w =>
      { w with tickets := w.tickets ++ [t] })
  | .approve i tape => do
    let t ← w.tickets[i]?
    some (w.call b tape (storeApproval m w.verifier t) fun _ w => w)
  | .execute proposal valid tape =>
    some (w.call b tape (Response.execute m w.verifier proposal valid) fun p w =>
      match p with
      | .done _ => w
      | .running r => { w with running := w.running ++ [r] })
  | .finish i o tape => do
    let r ← w.running[i]?
    some ({ w with running := w.running.eraseIdx i }.call b tape (Response.finish m r o) fun _ w => w)
  | .change proposalId result tupled => w.change b proposalId result tupled
  | .revokeCredential id tape =>
    some (w.call b tape (Response.revokeCredential m w.verifier id) fun _ w => w)
  | .revokeProposal digest tape =>
    some (w.call b tape (Response.revokeProposal m digest) fun _ w => w)
  | .close tape => some (w.call b tape Response.close fun _ w => w)
  | _ => none

/-- One step. A broker can be constructed when none holds the lease. -/
def step (w : World) : Label → Option World
  | .start v tape =>
    if w.broker.any (·.lease) then none else some (w.construct m v tape)
  | .revokeIdentity id => w.revokeIdentity m id
  | .crash => some { w with broker := none, tickets := [], running := [] }
  | l => w.broker.bind fun b => w.exec m b l

/-- The steps of a broker under one key. -/
def Step (w : World) (l : Label) (w' : World) : Prop := w.step m l = some w'

end World

end Angerona.Response
