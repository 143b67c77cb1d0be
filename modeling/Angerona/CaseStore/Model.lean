import Angerona.Lib.Dict
import Angerona.Lib.Effect
import Angerona.Lib.HashChain
import Angerona.Lib.PyJson
import Angerona.Lib.PyStr
import Angerona.Lib.Table

/-!
    The store of local incident cases, `CaseStore`.

    Its tables hold cases, their timelines, evidence and observables, a custody chain and a signed
    head for each piece of evidence, and a receipt for each piece that was purged. Arguments are
    Python strings and leave the program encoded; what a transaction raises is rolled back, and what
    is raised after its `COMMIT` is not. Rows without a key are in the order of their ids. -/

namespace Angerona.CaseStore
open Text PyJson PyStr Effect

/-! ### Rows -/

/-- A row of `cases`. -/
structure CaseRow where
  title : Str
  status : Str
  assignee : Str
  /-- The strings of `tags_json`. -/
  tags : List PyStr
  version : ℕ
  legalHold : Bool
  retentionUntil : Double
  createdAt : Double
  updatedAt : Double

structure TimelineRow where
  entryId : ℕ
  caseId : Str
  kind : Str
  actor : Str
  text : Str
  ts : Double

structure EvidenceRow where
  caseId : Str
  displayName : Str
  sha256 : Str
  size : ℤ
  source : Str
  provenance : Str
  collectedAt : Double
  privacyClass : Str

structure CustodyRow where
  evidenceId : Str
  action : Str
  actor : Str
  ts : Double
  previousHash : Str
  eventHash : Str
  hmac : Str

/-- A row of `custody_heads`. -/
structure Head where
  eventCount : ℕ
  finalHash : Str
  hmac : Str

/-- A row of `retention_receipts`. -/
structure Receipt where
  eventCount : ℕ
  finalHash : Str
  purgedAt : Double
  hmac : Str

/-- A row of `case_observables`. -/
structure ObservableRow where
  caseId : Str
  kind : Str
  rawValue : Str
  status : Str
  confidence : Double
  source : Str
  /-- `exclude_from_similarity`. -/
  excluded : Bool
  similarityHmac : Str
  createdAt : Double
  recordHmac : Str

/-- The tables; those with a text key are dictionaries. -/
structure Db where
  cases : Dict Str CaseRow
  timeline : List TimelineRow
  /-- The counter of `AUTOINCREMENT`. -/
  entrySeq : ℕ
  evidence : Dict Str EvidenceRow
  custody : List CustodyRow
  heads : Dict Str Head
  receipts : Dict Str Receipt
  observables : Dict Str ObservableRow

def Db.empty : Db := ⟨Dict.empty, [], 0, Dict.empty, [], Dict.empty, Dict.empty, Dict.empty⟩

inductive Raised where
  | value (message : String)
  | key (name : PyStr)
  /-- `CaseConflict`. -/
  | conflict (message : String)
  /-- `ObservableIntegrityError`. -/
  | observable (id : Str)
  | runtime (message : String)
  /-- `sqlite3.IntegrityError`. -/
  | integrity
  /-- `UnicodeEncodeError`. -/
  | encode
  | overflow

/-- A method of the store. -/
abbrev Deed := Effect Raised Db

/-- The hashes and tags, hexadecimal, of the canonical texts; and what the platform's string
    functions give. -/
structure Platform where
  sha256 : Json → Str
  /-- The tag of an event hash under the custody key. -/
  sign : Str → Str
  /-- The tag of a canonical text under the custody key. -/
  mac : Json → Str
  /-- The same under `_observable_index_key`. -/
  indexMac : Json → Str
  /-- The same under `_observable_record_key`. -/
  recordMac : Json → Str
  /-- `PurePath(s).name`. -/
  pathName : PyStr → PyStr
  /-- `str(s).strip().lower()`. -/
  lowered : PyStr → PyStr
  /-- `_normalize_observable`: `none` when it raises a `ValueError`. -/
  normalize : PyStr → PyStr → Option (PyStr × PyStr)

/-- What the clock and the random source give a call. -/
structure Ambient where
  clock : Double
  /-- `uuid4().hex`. -/
  uuid : Str

variable (P : Platform)

/-! ### Texts -/

def maxTags : ℕ := 32
def maxTimeline : ℕ := 5000
def maxEvidence : ℕ := 2000
def maxText : ℕ := 8000
def maxObservables : ℕ := 2000

def lit (s : String) : PyStr := ofStr s.toList

/-- `_STATUSES`. -/
def statuses : List PyStr :=
  [lit "open", lit "investigating", lit "contained", lit "resolved", lit "closed"]

/-- `_PRIVACY`. -/
def privacyClasses : List PyStr :=
  [lit "public", lit "system", lit "sensitive", lit "restricted"]

/-- `_OBSERVABLE_STATUSES`. -/
def observableStatuses : List PyStr := [lit "suggested", lit "approved", lit "rejected"]

/-- `[A-Za-z0-9_.:@-]`. -/
def idChar (c : Char) : Bool := c.isAlphanum || c ∈ ['_', '.', ':', '@', '-']

/-- `_SAFE_ID.fullmatch`. -/
def safeId (s : PyStr) : Bool :=
  1 ≤ s.length && s.length ≤ 128 && s.all fun p => p.char?.any idChar

/-- `[0-9a-f]{64}`. -/
def isDigest (s : PyStr) : Bool := s.length = 64 && s.all fun p => p.char?.any isHexDigit

/-- `_safe_text`. -/
def safeText (s : PyStr) (limit : ℕ) : PyStr := (s.filter (· ≠ .char (Char.ofNat 0))).take limit

/-- `[A-Za-z0-9_. -]`. -/
def fileChar (c : Char) : Bool := c.isAlphanum || c ∈ ['_', '.', ' ', '-']

/-- `_safe_filename`: `none` when it raises. -/
def safeFilename (s : PyStr) : Option PyStr :=
  let name := P.pathName (s.map fun p => if p = .char '\\' then .char '/' else p)
  let name := name.map fun p => if p.char?.any fileChar then p else .char '_'
  let name := stripBy (fun c => c = ' ' || c = '.') name
  if name = [] then none else some (name.take 200)

/-- `tuple(sorted({_safe_text(tag, 80) for tag in tags if tag}))`. -/
def tagSet (tags : List PyStr) : List PyStr :=
  ((tags.filter (· ≠ [])).map (safeText · 80)).dedup.insertionSort pointsLe

/-- A string on its way out of the program. -/
def text (s : PyStr) : Deed Str := demand (encode s) .encode

/-- The integers a column takes. -/
def fits (n : ℤ) : Prop := -2 ^ 63 ≤ n ∧ n < 2 ^ 63

instance (n : ℤ) : Decidable (fits n) := inferInstanceAs (Decidable (_ ∧ _))

/-- `given or (kind + uuid4().hex)`. -/
def orGenerated (given : Option PyStr) (kind : String) (amb : Ambient) : PyStr :=
  match given with
  | some (p :: s) => p :: s
  | _ => lit kind ++ ofStr amb.uuid

/-! ### Canonical texts -/

/-- `_canonical` of a dictionary, by its tree. -/
def canonical (members : List (Str × Json)) : Json := .obj (members.insertionSort textLe)

def real (d : Double) : Json := .float (.finite d)

/-- The body of a custody event. -/
def eventBody (evidenceId action actor : Str) (ts : Double) (previousHash : Str) : Json :=
  canonical [("evidence_id".toList, .str evidenceId), ("action".toList, .str action),
    ("actor".toList, .str actor), ("ts".toList, real ts),
    ("previous_hash".toList, .str previousHash)]

/-- The body of a custody head. -/
def headBody (evidenceId : Str) (eventCount : ℕ) (finalHash : Str) : Json :=
  canonical [("evidence_id".toList, .str evidenceId), ("event_count".toList, .int eventCount),
    ("final_hash".toList, .str finalHash)]

/-- The body of a retention receipt. -/
def receiptBody (evidenceId : Str) (eventCount : ℕ) (finalHash : Str) (purgedAt : Double) : Json :=
  canonical [("evidence_id".toList, .str evidenceId), ("event_count".toList, .int eventCount),
    ("final_hash".toList, .str finalHash), ("purged_at".toList, real purgedAt)]

/-- `_observable_digest`, of encoded texts. -/
def observableDigest (kind normalized : Str) : Str :=
  P.indexMac (canonical [("kind".toList, .str kind), ("value".toList, .str normalized)])

/-- `_observable_body`. -/
def observableBody (id : Str) (row : ObservableRow) : Json :=
  canonical [("observable_id".toList, .str id), ("case_id".toList, .str row.caseId),
    ("kind".toList, .str row.kind), ("raw_value".toList, .str row.rawValue),
    ("status".toList, .str row.status), ("confidence".toList, real row.confidence),
    ("source".toList, .str row.source),
    ("exclude_from_similarity".toList, .int (if row.excluded then 1 else 0)),
    ("similarity_hmac".toList, .str row.similarityHmac), ("created_at".toList, real row.createdAt)]

/-! ### Cases -/

structure CaseRecord where
  caseId : Str
  title : Str
  status : Str
  assignee : Str
  tags : List PyStr
  version : ℕ
  legalHold : Bool
  retentionUntil : Double
  createdAt : Double
  updatedAt : Double

/-- `get_case`. -/
def getCase (caseId : PyStr) : Deed CaseRecord := do
  let id ← text caseId
  let db ← read
  let row ← demand (db.cases.get? id) (.key caseId)
  pure ⟨id, row.title, row.status, row.assignee, row.tags.map reloaded, row.version,
    row.legalHold, row.retentionUntil, row.createdAt, row.updatedAt⟩

/-- The arguments of `create_case`. -/
structure NewCase where
  title : PyStr
  assignee : PyStr
  tags : List PyStr
  retentionUntil : Double
  now : Option Double
  caseId : Option PyStr

/-- `INSERT INTO cases`. -/
def insertCase (caseId : PyStr) (a : NewCase) (stamp : Double) : Deed Unit := do
  let id ← text caseId
  let title ← text (safeText a.title 500)
  let assignee ← text (safeText a.assignee 128)
  let db ← read
  check ((db.cases.get? id).isNone = true) .integrity
  modify fun db => { db with
    cases := db.cases.set id ⟨title, "open".toList, assignee, tagSet a.tags, 1, false,
      a.retentionUntil.stored, stamp.stored, stamp.stored⟩ }

/-- `create_case`. -/
def createCase (amb : Ambient) (a : NewCase) : Deed CaseRecord := do
  check ((tagSet a.tags).length ≤ maxTags) (.value "too many tags")
  let caseId := orGenerated a.caseId "case-" amb
  check (safeId caseId = true) (.value "invalid case ID")
  atomic (insertCase caseId a (a.now.getD amb.clock))
  getCase caseId

/-- The arguments of `update_case` that may be absent. -/
structure CaseChange where
  status : Option PyStr
  assignee : Option PyStr
  tags : Option (List PyStr)
  legalHold : Option Bool
  retentionUntil : Option Double
  now : Option Double

/-- `UPDATE cases`, and its row count. -/
def updateRow (caseId : PyStr) (expectedVersion : ℤ) (status assignee : PyStr) (tags : List PyStr)
    (legalHold : Bool) (retentionUntil stamp : Double) : Deed Unit := do
  let status ← text status
  let assignee ← text assignee
  let id ← text caseId
  check (fits expectedVersion) .overflow
  let db ← read
  let row ← demand ((db.cases.get? id).filter fun row => row.version = expectedVersion)
    (.conflict "case version changed")
  modify fun db => { db with
    cases := db.cases.set id { row with
      status, assignee, tags, legalHold, retentionUntil := retentionUntil.stored
      updatedAt := stamp.stored, version := row.version + 1 } }

/-- `update_case`. -/
def updateCase (amb : Ambient) (caseId : PyStr) (expectedVersion : ℤ) (c : CaseChange) :
    Deed CaseRecord := do
  let current ← getCase caseId
  let status := c.status.getD (ofStr current.status)
  check (status ∈ statuses) (.value "invalid case status")
  let tags := (c.tags.map tagSet).getD current.tags
  check (tags.length ≤ maxTags) (.value "too many tags")
  atomic (updateRow caseId expectedVersion status
    ((c.assignee.map (safeText · 128)).getD (ofStr current.assignee)) tags
    (c.legalHold.getD current.legalHold) (c.retentionUntil.getD current.retentionUntil)
    (c.now.getD amb.clock))
  getCase caseId

/-- `add_comment`. -/
def addComment (amb : Ambient) (caseId actor body : PyStr) (now : Option Double) : Deed ℕ := do
  check (safeId actor = true) (.value "invalid attributed actor")
  check (body ≠ []) (.value "empty comment")
  let id ← text caseId
  let db ← read
  check ((db.cases.get? id).isSome = true) (.key caseId)
  check ((db.timeline.filter (·.caseId = id)).length < maxTimeline)
    (.value "case timeline bound reached")
  let actor ← text actor
  let body ← text (safeText body maxText)
  modify fun db => { db with
    timeline := db.timeline ++ [⟨db.entrySeq + 1, id, "comment".toList, actor, body,
      (now.getD amb.clock).stored⟩]
    entrySeq := db.entrySeq + 1 }
  pure (db.entrySeq + 1)

/-! ### Evidence and its custody -/

/-- An `EvidenceReference`. -/
structure Reference where
  evidenceId : PyStr
  displayName : PyStr
  sha256 : PyStr
  size : ℤ
  source : PyStr
  provenance : PyStr
  collectedAt : Double
  privacyClass : PyStr

/-- The custody rows of a piece of evidence, `ORDER BY seq`. -/
def Db.chain (db : Db) (evidenceId : Str) : List CustodyRow :=
  db.custody.filter (·.evidenceId = evidenceId)

def genesisHash : Str := List.replicate 64 '0'

/-- `_append_custody_locked`. The hash is over the time as it was given; the column is a real. -/
def appendCustody (evidenceId : Str) (action actor : PyStr) (stamp : Double) : Deed Unit := do
  let db ← read
  let previousHash := HashChain.tip CustodyRow.eventHash genesisHash (db.chain evidenceId)
  let action ← text action
  let actor ← text actor
  let eventHash := P.sha256 (eventBody evidenceId action actor stamp previousHash)
  modify fun db => { db with
    custody := db.custody ++ [⟨evidenceId, action, actor, stamp.stored, previousHash, eventHash,
      P.sign eventHash⟩] }
  let db ← read
  let count := (db.chain evidenceId).length
  modify fun db => { db with
    heads := db.heads.set evidenceId ⟨count, eventHash, P.mac (headBody evidenceId count eventHash)⟩ }

/-- `INSERT INTO evidence`. -/
def insertEvidence (caseId evidenceId : Str) (reference : Reference) : Deed Unit := do
  let displayName ← demand (safeFilename P reference.displayName)
    (.value "unsafe evidence display name")
  let displayName ← text displayName
  let sha256 ← text reference.sha256
  check (fits reference.size) .overflow
  let source ← text (safeText reference.source 300)
  let provenance ← text (safeText reference.provenance 1000)
  let privacyClass ← text reference.privacyClass
  let db ← read
  check ((db.evidence.get? evidenceId).isNone = true) .integrity
  modify fun db => { db with
    evidence := db.evidence.set evidenceId ⟨caseId, displayName, sha256, reference.size, source,
      provenance, reference.collectedAt.stored, privacyClass⟩ }

/-- `add_evidence`. -/
def addEvidence (amb : Ambient) (caseId : PyStr) (reference : Reference) (actor : PyStr)
    (now : Option Double) : Deed Unit := do
  check (isDigest reference.sha256 = true) (.value "invalid SHA-256")
  check (0 ≤ reference.size ∧ reference.privacyClass ∈ privacyClasses)
    (.value "invalid evidence metadata")
  check (safeId reference.evidenceId = true ∧ safeId actor = true)
    (.value "invalid evidence or actor ID")
  let id ← text caseId
  let db ← read
  check ((db.cases.get? id).isSome = true) (.key caseId)
  check ((db.evidence.items.filter (·.2.caseId = id)).length < maxEvidence)
    (.value "case evidence bound reached")
  atomic do
    let evidenceId ← text reference.evidenceId
    insertEvidence P id evidenceId reference
    appendCustody P evidenceId (lit "collected") actor (now.getD amb.clock)

/-- `transfer_custody`. -/
def transferCustody (amb : Ambient) (evidenceId action actor : PyStr) (now : Option Double) :
    Deed Unit := do
  check (safeId actor = true ∧ action ≠ []) (.value "invalid custody event")
  atomic do
    let id ← text evidenceId
    let db ← read
    check ((db.evidence.get? id).isSome = true) (.key evidenceId)
    appendCustody P id (safeText action 200) actor (now.getD amb.clock)

/-- What `verify_custody` asks of one row, beside its previous hash. -/
def CustodyRow.Right (evidenceId : Str) (row : CustodyRow) : Prop :=
  row.eventHash = P.sha256 (eventBody evidenceId row.action row.actor row.ts row.previousHash) ∧
    row.hmac = P.sign row.eventHash

instance (evidenceId : Str) : DecidablePred (CustodyRow.Right P evidenceId) := fun _ =>
  inferInstanceAs (Decidable (_ ∧ _))

/-- `verify_custody`, of an encoded id. -/
def verifyChain (evidenceId : Str) (db : Db) : Bool :=
  let rows := db.chain evidenceId
  match db.heads.get? evidenceId with
  | none => false
  | some head =>
    rows ≠ [] &&
      match HashChain.walk (CustodyRow.Right P evidenceId) CustodyRow.previousHash
          CustodyRow.eventHash genesisHash rows with
      | none => false
      | some previous =>
        head.eventCount = rows.length && head.finalHash = previous &&
          head.hmac = P.mac (headBody evidenceId head.eventCount head.finalHash)

/-- `verify_custody`. -/
def verifyCustody (evidenceId : PyStr) : Deed Bool := do
  let id ← text evidenceId
  let db ← read
  pure (verifyChain P id db)

/-! ### Retention -/

/-- `legal_hold=0 AND retention_until>0 AND retention_until<?`. -/
def CaseRow.expired (stamp : Double) (row : CaseRow) : Bool :=
  !row.legalHold && Double.zero < row.retentionUntil && row.retentionUntil < stamp

/-- The receipt of a piece of evidence whose head is given. -/
def receiptOf (stamp : Double) (evidenceId : Str) (head : Head) : Receipt :=
  ⟨head.eventCount, head.finalHash, stamp.stored,
    P.mac (receiptBody evidenceId head.eventCount head.finalHash stamp)⟩

/-- The body of the inner loop of `purge_expired`. -/
def purgeEvidence (stamp : Double) (db : Db) (evidenceId : Str) : Db :=
  { db with
    receipts := (db.heads.get? evidenceId).elim db.receipts fun head =>
      db.receipts.set evidenceId (receiptOf P stamp evidenceId head)
    custody := Table.delete (·.evidenceId = evidenceId) db.custody
    heads := db.heads.erase evidenceId }

/-- The evidence of a case. -/
def Db.evidenceOf (db : Db) (caseId : Str) : List Str :=
  (db.evidence.items.filter (·.2.caseId = caseId)).map Prod.fst

/-- The body of the outer loop. -/
def purgeCase (stamp : Double) (db : Db) (caseId : Str) : Db :=
  let db := (db.evidenceOf caseId).foldl (purgeEvidence P stamp) db
  { db with
    evidence := db.evidence.keep fun i => !decide (i.2.caseId = caseId)
    observables := db.observables.keep fun i => !decide (i.2.caseId = caseId)
    timeline := Table.delete (·.caseId = caseId) db.timeline
    cases := db.cases.erase caseId }

/-- The cases `purge_expired` selects. -/
def Db.expiredCases (stamp : Double) (db : Db) : List Str :=
  (db.cases.items.filter (·.2.expired stamp)).map Prod.fst

/-- `purge_expired`. -/
def purgeExpired (amb : Ambient) (now : Option Double) : Deed ℕ :=
  let stamp := now.getD amb.clock
  atomic do
    let db ← read
    let ids := db.expiredCases stamp
    modify fun db => ids.foldl (purgeCase P stamp) db
    pure ids.length

/-- `verify_retention_receipt`, of an encoded id. -/
def verifyReceipt (evidenceId : Str) (db : Db) : Bool :=
  (db.receipts.get? evidenceId).any fun r =>
    r.hmac = P.mac (receiptBody evidenceId r.eventCount r.finalHash r.purgedAt)

/-! ### Observables -/

/-- An `ObservableRecord`. -/
structure ObservableRecord where
  observableId : Str
  row : ObservableRow

/-- `_observable_is_valid`. -/
def observableValid (id : Str) (row : ObservableRow) : Bool :=
  match P.normalize (ofStr row.kind) (ofStr row.rawValue) with
  | none => false
  | some (raw, normalized) =>
    match encode normalized with
    | none => false
    | some normalized =>
      raw = ofStr row.rawValue && decide (ofStr row.status ∈ observableStatuses) &&
        Double.zero ≤ row.confidence && row.confidence ≤ Double.ofNat 1 Double.one_fits &&
        row.similarityHmac = observableDigest P row.kind normalized &&
        row.recordHmac = P.recordMac (observableBody id row)

/-- `_observable_record`. -/
def observableRecord (id : Str) (row : ObservableRow) : Deed ObservableRecord := do
  check (observableValid P id row = true) (.observable id)
  pure ⟨id, row⟩

/-- The row of a case with this kind and digest. -/
def Db.sameObservable (db : Db) (caseId kind digest : Str) : Option (Str × ObservableRow) :=
  db.observables.items.find? fun i =>
    i.2.caseId = caseId && i.2.kind = kind && i.2.similarityHmac = digest

/-- The arguments of `add_observable`. -/
structure NewObservable where
  kind : PyStr
  value : PyStr
  status : PyStr
  confidence : Double
  source : PyStr
  excluded : Bool
  now : Option Double
  observableId : Option PyStr

/-- The transaction of `add_observable`; the row is as it was signed. -/
def insertObservable (caseId : PyStr) (id : Str) (row : ObservableRow) :
    Deed (Option (Str × ObservableRow)) := atomic do
  let db ← read
  check ((db.cases.get? row.caseId).isSome = true) (.key caseId)
  check ((db.observables.items.filter (·.2.caseId = row.caseId)).length < maxObservables ∨
      (db.sameObservable row.caseId row.kind row.similarityHmac).isSome = true)
    (.value "case observable bound reached")
  -- `INSERT OR IGNORE`, under the primary key and the unique index
  modify fun db =>
    if (db.observables.get? id).isSome ∨
        (db.sameObservable row.caseId row.kind row.similarityHmac).isSome then db
    else { db with observables := db.observables.set id { row with
      confidence := row.confidence.stored, createdAt := row.createdAt.stored } }
  let db ← read
  pure (db.sameObservable row.caseId row.kind row.similarityHmac)

/-- The row `add_observable` inserts, with its signature. -/
def newRow (amb : Ambient) (caseId : PyStr) (id : Str) (a : NewObservable)
    (raw normalized source : PyStr) : Deed ObservableRow := do
  let kind ← text (P.lowered a.kind)
  let normalized ← text normalized
  let caseId ← text caseId
  let raw ← text raw
  let status ← text (P.lowered a.status)
  let source ← text source
  let row : ObservableRow := ⟨caseId, kind, raw, status, a.confidence, source, a.excluded,
    observableDigest P kind normalized, a.now.getD amb.clock, []⟩
  pure { row with recordHmac := P.recordMac (observableBody id row) }

/-- `add_observable`. -/
def addObservable (amb : Ambient) (caseId : PyStr) (a : NewObservable) : Deed ObservableRecord := do
  let both ← demand (P.normalize (P.lowered a.kind) a.value) (.value "invalid observable")
  check (P.lowered a.status ∈ observableStatuses) (.value "invalid observable status")
  check (Double.zero ≤ a.confidence ∧ a.confidence ≤ Double.ofNat 1 Double.one_fits)
    (.value "observable confidence must be between 0 and 1")
  let source := stripBy isSpace (safeText a.source 300)
  check (source ≠ []) (.value "observable source is required")
  let observableId := orGenerated a.observableId "obs-" amb
  check (safeId observableId = true) (.value "invalid observable ID")
  let id ← text observableId
  let row ← newRow P amb caseId id a both.1 both.2 source
  let found ← insertObservable caseId id row
  let there ← demand found (.runtime "observable insert did not persist")
  observableRecord P there.1 there.2

/-- The transaction of `review_observable`. -/
def reviewRow (observableId status : PyStr) (excluded : Option Bool) : Deed (Str × ObservableRow) :=
  atomic do
    let id ← text observableId
    let db ← read
    let row ← demand (db.observables.get? id) (.key observableId)
    check (observableValid P id row = true) (.observable id)
    let status ← text status
    let row := { row with status, excluded := excluded.getD row.excluded }
    let row := { row with recordHmac := P.recordMac (observableBody id row) }
    modify fun db => { db with observables := db.observables.set id row }
    pure (id, row)

/-- `review_observable`. -/
def reviewObservable (observableId status : PyStr) (excluded : Option Bool) :
    Deed ObservableRecord := do
  let status := P.lowered status
  check (status ∈ observableStatuses) (.value "invalid observable status")
  check (safeId observableId = true) (.value "invalid observable ID")
  let updated ← reviewRow P observableId status excluded
  observableRecord P updated.1 updated.2

/-! ### Calls -/

inductive Call where
  | createCase (a : NewCase)
  | updateCase (caseId : PyStr) (expectedVersion : ℤ) (c : CaseChange)
  | addComment (caseId actor body : PyStr) (now : Option Double)
  | addEvidence (caseId : PyStr) (reference : Reference) (actor : PyStr) (now : Option Double)
  | transferCustody (evidenceId action actor : PyStr) (now : Option Double)
  | reviewObservable (observableId status : PyStr) (excluded : Option Bool)
  | purgeExpired (now : Option Double)
  | addObservable (caseId : PyStr) (a : NewObservable)

inductive Reply where
  | none
  | caseRecord (r : CaseRecord)
  | entry (id : ℕ)
  | observable (r : ObservableRecord)
  | count (n : ℕ)

def Call.run (amb : Ambient) : Call → Deed Reply
  | .createCase a => do return .caseRecord (← CaseStore.createCase amb a)
  | .updateCase caseId version c => do
    return .caseRecord (← CaseStore.updateCase amb caseId version c)
  | .addComment caseId actor body now => do
    return .entry (← CaseStore.addComment amb caseId actor body now)
  | .addEvidence caseId reference actor now => do
    CaseStore.addEvidence P amb caseId reference actor now
    return .none
  | .transferCustody evidenceId action actor now => do
    CaseStore.transferCustody P amb evidenceId action actor now
    return .none
  | .reviewObservable observableId status excluded => do
    return .observable (← CaseStore.reviewObservable P observableId status excluded)
  | .purgeExpired now => do return .count (← CaseStore.purgeExpired P amb now)
  | .addObservable caseId a => do
    return .observable (← CaseStore.addObservable P amb caseId a)

/-- A call with what it was given and how it ended. -/
structure Entry where
  amb : Ambient
  call : Call
  outcome : Except Raised Reply

def Step (db : Db) (e : Entry) (db' : Db) : Prop := e.call.run P e.amb db = (e.outcome, db')

end Angerona.CaseStore
