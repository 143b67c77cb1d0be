import Angerona.Lib.Effect
import Angerona.Response.Identity

/-!
    The response broker (`core/response_broker.py`): proposals, approvals, attempts and receipts,
    the state file they are saved in, and the dispatch of a registered handler.

    A call reads the clocks, the closing latch and the outcome of each write from a tape. The handler
    of an operation runs between two steps, so that every other call can come in between; it, the
    validator and the outcome verifier are the caller's, and their results are part of the step. -/

namespace Angerona.Response
open Text PyJson Raising

/-! ### Operations and proposals -/

/-- `_ID`. -/
def isId : Str → Bool
  | [] => false
  | c :: cs => c.isAlphanum ∧ 2 ≤ cs.length ∧ cs.length ≤ 127 ∧
      cs.all fun c => c.isAlphanum ∨ c ∈ "._:@-".toList

/-- `_OP`. -/
def isOperation : Str → Bool
  | [] => false
  | c :: cs => c.isLower ∧ 2 ≤ cs.length ∧ cs.length ≤ 79 ∧
      cs.all fun c => c.isLower ∨ c.isDigit ∨ c ∈ "_.-".toList

inductive Risk where
  | low | medium | high | critical
  deriving DecidableEq

def Risk.text : Risk → Str
  | .low => "low".toList
  | .medium => "medium".toList
  | .high => "high".toList
  | .critical => "critical".toList

/-- `risk in {"high", "critical"}`. -/
def Risk.severe : Risk → Bool
  | .high | .critical => true
  | _ => false

/-- The approvals that an operation of this risk needs. -/
def Risk.required (r : Risk) : ℕ := if r.severe then 2 else 1

structure ResponseOperation where
  operationId : Str
  risk : Risk
  description : Str
  rollback : Str
  /-- `verify_outcome is not None`. -/
  verifyOutcome : Bool

/-- `ResponseOperation.__post_init__` accepts. -/
def ResponseOperation.valid (o : ResponseOperation) : Bool :=
  isOperation o.operationId ∧ strip o.description ≠ [] ∧ strip o.rollback ≠ [] ∧
    o.description.length ≤ 2000 ∧ o.rollback.length ≤ 2000

structure ResponseProposal where
  proposalId : Str
  operationId : Str
  arguments : List (Key × Value)
  targetId : Str
  requestedBy : Str
  createdAt : Stamp
  expiresAt : Stamp
  dryRun : Bool

/-- `_MAX_BYTES`. -/
def maxBytes : ℕ := 64 * 1024

/-- `asdict(proposal)`. -/
def ResponseProposal.fields (p : ResponseProposal) : List (Str × Value) :=
  [("proposal_id".toList, .str p.proposalId), ("operation_id".toList, .str p.operationId),
    ("arguments".toList, .dict p.arguments), ("target_id".toList, .str p.targetId),
    ("requested_by".toList, .str p.requestedBy), ("created_at".toList, p.createdAt.value),
    ("expires_at".toList, p.expiresAt.value), ("dry_run".toList, .bool p.dryRun)]

/-- The checks of `ResponseProposal.__post_init__` on single fields. -/
def ResponseProposal.wellFormed (p : ResponseProposal) : Bool :=
  isId p.proposalId ∧ isId p.targetId ∧ isId p.requestedBy ∧ isOperation p.operationId ∧
    p.arguments.length ≤ 64 ∧ p.createdAt.isFinite ∧ p.expiresAt.isFinite ∧
    p.createdAt.lt p.expiresAt ∧ p.expiresAt.le (p.createdAt.addInt 3600 Double.hour_fits)

/-- The canonical text of a proposal that `__post_init__` accepts. -/
def ResponseProposal.text (m : Machine) (p : ResponseProposal) : Option Json :=
  if p.wellFormed then
    match m.canonical (record p.fields) with
    | .ok text => if text.length m.repr 0 ≤ maxBytes then some text else none
    | .error _ => none
  else none

/-! ### Receipts -/

structure ResponseReceipt where
  proposalId : Str
  proposalDigest : Str
  operationId : Str
  targetId : Str
  outcome : Str
  executed : Bool
  approvals : List Str
  /-- The object that the handler returned, in a new outer dictionary: what is nested in it may
      change later. -/
  result : List (Key × Value)
  /-- Some sequence in the result is a tuple; a JSON text does not tell it from a list. -/
  tupled : Bool
  recordedAt : Double
  receiptHmac : Str

/-- The fields that are authenticated. -/
def ResponseReceipt.core (r : ResponseReceipt) : List (Str × Value) :=
  [("proposal_id".toList, .str r.proposalId), ("proposal_digest".toList, .str r.proposalDigest),
    ("operation_id".toList, .str r.operationId), ("target_id".toList, .str r.targetId),
    ("outcome".toList, .str r.outcome), ("executed".toList, .bool r.executed),
    ("approvals".toList, .list (r.approvals.map .str)), ("result".toList, .dict r.result),
    ("recorded_at".toList, .float (.finite r.recordedAt))]

/-- `asdict(receipt)`. -/
def ResponseReceipt.value (r : ResponseReceipt) : Value :=
  record (r.core ++ [("receipt_hmac".toList, .str r.receiptHmac)])

/-- `verify_receipt`. -/
def Machine.verifyReceipt (m : Machine) (r : ResponseReceipt) : Bool :=
  isHex 64 r.receiptHmac &&
    match m.canonical (record r.core) with
    | .ok text => r.receiptHmac = m.hmac text
    | .error _ => false

/-- `ResponseReceipt(**receipt)` of a stored receipt. -/
def ResponseReceipt.ofValue : Value → Option ResponseReceipt
  | .dict d =>
    if d.length ≠ 10 then none
    else do
      some
        { proposalId := ← (getItem "proposal_id".toList d).text?
          proposalDigest := ← (getItem "proposal_digest".toList d).text?
          operationId := ← (getItem "operation_id".toList d).text?
          targetId := ← (getItem "target_id".toList d).text?
          outcome := ← (getItem "outcome".toList d).text?
          executed := ← (getItem "executed".toList d).bool?
          approvals := ← (getItem "approvals".toList d).texts?
          result := ← (getItem "result".toList d).dict?
          tupled := false
          recordedAt := ← (getItem "recorded_at".toList d).double?
          receiptHmac := ← (getItem "receipt_hmac".toList d).text? }
  | _ => none

/-! ### Stored proofs -/

/-- `asdict(proof)`. -/
def SignedPrincipalProof.value (p : SignedPrincipalProof) : Value :=
  record (p.signedFields ++ [("signature".toList, .str p.signature)])

def Stamp.ofValue : Value → Option Stamp
  | .int n => some (.int n)
  | .float f => some (.float f)
  | _ => none

/-- `SignedPrincipalProof(**proof)`. -/
def SignedPrincipalProof.ofValue : Value → Option SignedPrincipalProof
  | .dict d =>
    if d.length ≠ 9 then none
    else do
      some
        { credentialId := ← (getItem "credential_id".toList d).text?
          issuer := ← (getItem "issuer".toList d).text?
          subject := ← (getItem "subject".toList d).text?
          keyFingerprint := ← (getItem "key_fingerprint".toList d).text?
          purposeDigest := ← (getItem "purpose_digest".toList d).text?
          issuedAt := ← Stamp.ofValue (getItem "issued_at".toList d)
          expiresAt := ← Stamp.ofValue (getItem "expires_at".toList d)
          nonce := ← (getItem "nonce".toList d).text?
          signature := ← (getItem "signature".toList d).text? }
  | _ => none

/-! ### The state file -/

/-- What the state file holds; the sets are lists without order. -/
structure Records where
  approvals : Dict Str (Dict Str SignedPrincipalProof)
  receipts : Dict Str ResponseReceipt
  attempts : Dict Str Str
  revokedProposals : List Str
  revokedKeys : List Str
  revokedSubjects : List Str

namespace Records

def empty : Records := ⟨.empty, .empty, .empty, [], [], []⟩

/-- The proof of a credential for a digest. -/
def proof (r : Records) (digest credentialId : Str) : Option SignedPrincipalProof :=
  (r.approvals.get? digest).bind (·.get? credentialId)

/-- `sorted(set)`. -/
def sortedSet (s : List Str) : Value := .list ((s.dedup.insertionSort (· ≤ ·)).map .str)

/-- `_state_core`. -/
def fields (r : Records) : List (Str × Value) :=
  [("approvals".toList, ofDict (ofDict SignedPrincipalProof.value) r.approvals),
    ("receipts".toList, ofDict ResponseReceipt.value r.receipts),
    ("attempts".toList, ofDict .str r.attempts),
    ("revoked_proposals".toList, sortedSet r.revokedProposals),
    ("revoked_keys".toList, sortedSet r.revokedKeys),
    ("revoked_subjects".toList, sortedSet r.revokedSubjects)]

def schema : Str := "angerona.response-broker-state.v1".toList

/-- The text that `_save_state` writes. -/
def encode (m : Machine) (r : Records) : Except JsonError Json := do
  let body ← m.canonical (record r.fields)
  m.canonical (record [("schema".toList, .str schema), ("records".toList, record r.fields),
    ("hmac".toList, .str (m.stateHmac body))])

/-- The bound on the state file. -/
def maxStateBytes : ℕ := 4 * 1024 * 1024

/-- The objects that `_load_state` builds from authenticated records. -/
def restore (m : Machine) (records : List (Key × Value)) : Option Records := do
  let approvals ← toDict? (toDict? SignedPrincipalProof.ofValue) (getItem "approvals".toList records)
  if approvals.values.all fun proofs => proofs.size ≤ 128 ∧ proofs.values.all (·.wellFormed) then
    let receipts ← toDict? ResponseReceipt.ofValue (getItem "receipts".toList records)
    if receipts.values.all m.verifyReceipt then
      let attempts ← toDict? Value.text? (getItem "attempts".toList records)
      some
        { approvals, receipts, attempts
          revokedProposals := ← (getItem "revoked_proposals".toList records).texts?
          revokedKeys := ← (getItem "revoked_keys".toList records).texts?
          revokedSubjects := ← (getItem "revoked_subjects".toList records).texts? }
    else none
  else none

/-- `_load_state` of a file; `none` when it raises. -/
def load (m : Machine) (text : Json) : Option Records :=
  if maxStateBytes < text.length m.repr 0 then none
  else do
    let value ← (← text.decode).dict?
    let records ← (getItem "records".toList value).dict?
    if (getItem "schema".toList value).text? ≠ some schema then none
    else
      let body ← (m.canonical (.dict records)).toOption
      if (getItem "hmac".toList value).text? ≠ some (m.stateHmac body) then none
      else restore m records

end Records

end Angerona.Response
