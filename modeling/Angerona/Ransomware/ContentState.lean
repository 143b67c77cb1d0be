import Angerona.Lib.Crash
import Angerona.Lib.Dict
import Angerona.Lib.JsonText

/-!
    The content-state store of the ransomware heuristics: six files, and the programs that load and
    commit the receipts.

    A file holds the document that was written to it; of its text only the length is used. Keys are
    values of any type, and the digests and authentication codes are functions of what they sign.
    Each file is replaced, created or removed in one durable step. -/

namespace Angerona.Ransomware
open Text PyJson Crash

/-! ### Receipts -/

/-- A character of a hexadecimal digest. -/
def isHex (c : Char) : Bool := c.isDigit || ('a' ≤ c && c ≤ 'f')

def isHexDigest (s : Str) : Bool := s.length == 64 && s.all isHex

/-- What `hexdigest()` returns for SHA-256. -/
def Digest : Type := { s : Str // isHexDigest s = true }

def zeroHead : Str := List.replicate 64 '0'

/-- A record of the state. -/
structure Row where
  key : Str
  identity : Str × ℤ × ℤ
  pathSha256 : Str
  size : ℤ
  modifiedIdentity : ℤ
  contentSha256 : Str
  contentComplete : Bool
  deriving DecidableEq

/-- What the loader checks of a record. -/
def Row.valid (r : Row) : Bool :=
  isHexDigest r.key && r.pathSha256.length == 64 && r.contentSha256.length == 64 && 0 ≤ r.size

abbrev Receipts := Dict Str Row

/-- `[records[key] for key in sorted(records)]`. -/
def ordered (records : Receipts) : List Row := (records.items.insertionSort textLe).map Prod.snd

/-! ### Documents -/

/-- `content-state.v2` and its predecessor `content-state.v1`. -/
inductive Schema where
  | current
  | legacy
  deriving DecidableEq

def Schema.text : Schema → String
  | .current => "angerona.ransomware-content-state.v2"
  | .legacy => "angerona.ransomware-content-state.v1"

/-- The members of the state that its code covers. -/
structure StateCore where
  schema : Schema
  sequence : ℤ
  scanEpoch : Option ℤ
  records : List Row

structure StateDoc extends StateCore where
  hmac : Str

/-- A point of the history: a sequence, a scan epoch and the code of the state there. -/
structure Position where
  sequence : ℤ
  scanEpoch : ℤ
  head : Str
  deriving DecidableEq

structure Witness where
  installId : Str
  position : Position
  hmac : Str

structure TransitionCore where
  installId : Str
  old : Position
  new : Position

structure TransitionDoc extends TransitionCore where
  hmac : Str

/-- The digests and the codes. -/
structure Signer (K : Type) where
  /-- `hashlib.sha256(key).hexdigest()`. -/
  installId : K → Digest
  stateMac : K → StateCore → Digest
  /-- The code of an install identity and a position. -/
  witnessMac : K → Digest → Position → Digest
  transitionMac : K → TransitionCore → Digest
  /-- The digest of a normalised path. -/
  pathDigest : Str → Digest
  /-- The digest of an identity and a path digest. -/
  rowKey : Str × ℤ × ℤ → Digest → Digest

/-! ### Lengths -/

def maxRecords : ℕ := 50000
def maxStateBytes : ℕ := 16 * 1024 * 1024
def maxWitnessBytes : ℕ := 4096
def maxTransitionBytes : ℕ := 4096

/-- `json.dumps(…, sort_keys=True, separators=(",", ":"), ensure_ascii=True)` of an object with its
    members in order; no member is a float. -/
def payloadLength (members : List (String × Json)) : ℕ :=
  ((Json.obj (members.map fun m => (m.1.toList, m.2))).text (fun _ => []) ⟨true, 0⟩).length

def Row.json (r : Row) : Json :=
  .obj ([("content_complete", .bool r.contentComplete), ("content_sha256", .str r.contentSha256),
    ("identity", .arr [.str r.identity.1, .int r.identity.2.1, .int r.identity.2.2]),
    ("key", .str r.key), ("modified_identity", .int r.modifiedIdentity),
    ("path_sha256", .str r.pathSha256), ("size", .int r.size)].map
      fun m : String × Json => (m.1.toList, m.2))

def StateDoc.bytes (d : StateDoc) : ℕ :=
  payloadLength ([("hmac_sha256", .str d.hmac), ("records", .arr (d.records.map Row.json))] ++
    (d.scanEpoch.map fun n => ("scan_epoch", Json.int n)).toList ++
    [("schema", .str d.schema.text.toList), ("sequence", .int d.sequence)])

def Witness.bytes (w : Witness) : ℕ :=
  payloadLength [("hmac_sha256", .str w.hmac), ("install_id", .str w.installId),
    ("scan_epoch", .int w.position.scanEpoch),
    ("schema", .str "angerona.ransomware-content-witness.v1".toList),
    ("sequence", .int w.position.sequence), ("state_hmac", .str w.position.head)]

def TransitionDoc.bytes (t : TransitionDoc) : ℕ :=
  payloadLength [("hmac_sha256", .str t.hmac), ("install_id", .str t.installId),
    ("new_scan_epoch", .int t.new.scanEpoch), ("new_sequence", .int t.new.sequence),
    ("new_state_hmac", .str t.new.head), ("old_scan_epoch", .int t.old.scanEpoch),
    ("old_sequence", .int t.old.sequence), ("old_state_hmac", .str t.old.head),
    ("schema", .str "angerona.ransomware-content-transition.v1".toList)]

/-! ### The machine -/

variable {K : Type}

/-- The files; the genesis marker holds a nonce. -/
structure Disk (K : Type) where
  changeKey : Option K
  state : Option StateDoc
  enrollmentKey : Option K
  witness : Option Witness
  transition : Option TransitionDoc
  genesis : Option Str

/-- The fields of the module that the store uses. -/
structure Memory (K : Type) where
  changeKeyCache : Option K
  enrollmentKeyCache : Option K
  receipts : Receipts
  observations : Receipts
  sequence : ℤ
  scanEpoch : ℤ
  head : Str
  loaded : Bool
  cycleActive : Bool

/-- A module that has just been constructed. -/
def Memory.new : Memory K := ⟨none, none, .empty, .empty, 0, 0, zeroHead, false, false⟩

def Memory.position (m : Memory K) : Position := ⟨m.sequence, m.scanEpoch, m.head⟩

inductive Fault where
  | os (text : String)
  /-- `_ScanCancelled`. -/
  | cancelled
  deriving DecidableEq

abbrev Store (K : Type) := Program Fault (Disk K) (Memory K)

/-- What a call is given: the random keys and the nonce it would draw, whether the writer lease is
    granted, and whether the module is still active at each of its checks. -/
structure Host (K : Type) where
  changeKey : K
  enrollmentKey : K
  nonce : Str
  leased : Bool
  active : ℕ → Bool

/-! ### Keys -/

/-- A cached key, or `load_or_create_outbox_key` of its file. -/
def cachedKey (cache : Memory K → Option K) (store : K → Memory K → Memory K)
    (file : Disk K → Option K) (create : K → Disk K → Disk K) (fresh : K) : Store K K := do
  let m ← memory
  match cache m with
  | some k => pure k
  | none =>
    let d ← disk
    match file d with
    | some k =>
      remember (store k)
      pure k
    | none =>
      durable (create fresh)
      remember (store fresh)
      pure fresh

def changeKey (h : Host K) : Store K K :=
  cachedKey (·.changeKeyCache) (fun k m => { m with changeKeyCache := some k }) (·.changeKey)
    (fun k d => { d with changeKey := some k }) h.changeKey

def enrollmentKey (h : Host K) : Store K K :=
  cachedKey (·.enrollmentKeyCache) (fun k m => { m with enrollmentKeyCache := some k })
    (·.enrollmentKey) (fun k d => { d with enrollmentKey := some k }) h.enrollmentKey

/-! ### The documents that are written -/

/-- `_change_state_document`. -/
def StateDoc.signed (A : Signer K) (k : K) (core : StateCore) : StateDoc :=
  ⟨core, (A.stateMac k core).val⟩

def StateCore.current (sequence scanEpoch : ℤ) (records : List Row) : StateCore :=
  ⟨.current, sequence, some scanEpoch, records⟩

def Witness.signed (A : Signer K) (k : K) (p : Position) : Witness :=
  ⟨(A.installId k).val, p, (A.witnessMac k (A.installId k) p).val⟩

def TransitionDoc.signed (A : Signer K) (k : K) (old new : Position) : TransitionDoc :=
  let core : TransitionCore := ⟨(A.installId k).val, old, new⟩
  ⟨core, (A.transitionMac k core).val⟩

/-- What a transition must be, when it is written and when it is read. -/
def TransitionCore.wellFormed (t : TransitionCore) : Bool :=
  -1 ≤ t.old.sequence && -1 ≤ t.old.scanEpoch && t.new.sequence == t.old.sequence + 1 &&
    t.new.scanEpoch == t.old.scanEpoch + 1 && ((t.old.sequence == -1) == (t.old.scanEpoch == -1)) &&
    (t.old.sequence < 0 || t.old.sequence ≤ t.old.scanEpoch) &&
    t.new.sequence ≤ t.new.scanEpoch && isHexDigest t.old.head && isHexDigest t.new.head &&
    (t.old.sequence != -1 || t.old.head == zeroHead)

/-- The position before the first. -/
def Position.origin : Position := ⟨-1, -1, zeroHead⟩

section Programs

variable (A : Signer K) (h : Host K)

/-- `bundle_exists`: the change key and the state. -/
def Disk.bundle (d : Disk K) : Bool × Bool := (d.changeKey.isSome, d.state.isSome)

/-- `witness_exists`: the enrollment key and the witness. -/
def Disk.witnessed (d : Disk K) : Bool × Bool := (d.enrollmentKey.isSome, d.witness.isSome)

/-- `_change_state_document`. -/
def stateDocument (sequence scanEpoch : ℤ) (records : Receipts) : Store K StateDoc := do
  require (records.size ≤ maxRecords) (.os "durable content-state record capacity exceeded")
  let k ← changeKey h
  let doc := StateDoc.signed A k (.current sequence scanEpoch (ordered records))
  require (doc.bytes ≤ maxStateBytes) (.os "durable content-state byte capacity exceeded")
  pure doc

/-- `_write_change_state`. -/
def writeState (sequence scanEpoch : ℤ) (records : Receipts) : Store K Str := do
  let doc ← stateDocument A h sequence scanEpoch records
  durable fun d => { d with state := some doc }
  pure doc.hmac

/-- `_write_change_witness`. -/
def writeWitness (p : Position) : Store K Unit := do
  let k ← enrollmentKey h
  durable fun d => { d with witness := some (.signed A k p) }

/-- `_read_change_witness`. -/
def readWitness : Store K Position := do
  let d ← disk
  let w ← obtain? d.witness (.os "No such file or directory")
  require (0 < w.bytes ∧ w.bytes ≤ maxWitnessBytes)
    (.os "content-state high-water witness is unsafe")
  let k ← enrollmentKey h
  let p := w.position
  require (0 ≤ p.sequence ∧ p.sequence ≤ p.scanEpoch ∧ isHexDigest p.head = true ∧
      (A.witnessMac k (A.installId k) p).val = w.hmac)
    (.os "content-state high-water witness authentication failed")
  pure p

/-- `_read_change_transition`. -/
def readTransition : Store K (Option TransitionCore) := do
  let d ← disk
  match d.transition with
  | none => pure none
  | some t =>
    require (0 < t.bytes ∧ t.bytes ≤ maxTransitionBytes)
      (.os "content-state transition object is unsafe")
    let k ← enrollmentKey h
    require (t.installId = (A.installId k).val ∧ t.wellFormed = true ∧
        (A.transitionMac k t.toTransitionCore).val = t.hmac)
      (.os "content-state transition authentication failed")
    pure (some t.toTransitionCore)

/-- The old position of a transition is where the files are. -/
def checkPredecessor (old : Position) : Store K Unit := do
  let d ← disk
  if 0 ≤ old.sequence then do
    let observed ← readWitness A h
    require (observed = old) (.os "content-state writer predecessor changed before transition")
  else
    require (d.state.isNone = true ∧ d.witness.isNone = true)
      (.os "content-state genesis writer predecessor changed")

/-- `_write_change_transition`. -/
def writeTransition (old new : Position) : Store K Unit := do
  let d ← disk
  require (d.transition.isNone = true) (.os "content-state transition is already pending")
  checkPredecessor A h old
  let k ← enrollmentKey h
  let t := TransitionDoc.signed A k old new
  require (t.wellFormed = true) (.os "content-state transition values are invalid")
  require (t.bytes ≤ maxTransitionBytes) (.os "content-state transition exceeds its byte bound")
  durable fun d => { d with transition := some t }

/-- `_remove_change_transition`. -/
def removeTransition : Store K Unit := do
  let d ← disk
  require (d.transition.isSome = true) (.os "content-state transition disappeared")
  durable fun d => { d with transition := none }

/-- `_ensure_change_genesis_marker`. -/
def ensureGenesisMarker : Store K Unit := do
  let d ← disk
  if d.genesis.isSome then pure () else durable fun d => { d with genesis := some h.nonce }

/-- `_remove_change_genesis_marker`. -/
def removeGenesisMarker : Store K Unit := durable fun d => { d with genesis := none }

/-! ### Loading -/

/-- A transition from nothing to the empty state. -/
def TransitionCore.isGenesis (t : TransitionCore) : Bool :=
  t.old == .origin && t.new.sequence == 0 && t.new.scanEpoch == 0

/-- The checks of which files there are; the result says whether the authority is yet to be made. -/
def freshAuthority (bundle witness : Bool × Bool) (genesisPending marked : Bool)
    (pristine : Bool) : Except Fault Bool :=
  let resumes := genesisPending || marked
  if (bundle.1 || bundle.2) && !(bundle.1 && bundle.2) && !resumes then
    .error (.os "durable content-state authority is incomplete")
  else if (witness.1 || witness.2) && !(witness.1 && witness.2) && !resumes then
    .error (.os "durable content-state high-water authority is incomplete")
  else if !(bundle.1 || bundle.2) && (witness.1 || witness.2) && !resumes then
    .error (.os "durable content-state bundle was deleted after enrollment")
  else .ok (pristine || marked)

/-- The first enrollment: both keys, and the transition to the empty state. -/
def enroll : Store K (Option TransitionCore) := do
  let _ ← changeKey h
  let _ ← enrollmentKey h
  let doc ← stateDocument A h 0 0 .empty
  writeTransition A h .origin ⟨0, 0, doc.hmac⟩
  readTransition A h

/-- The empty state that a genesis transition announces. -/
def commitGenesis (pending : Option TransitionCore) : Store K Unit := do
  let d ← disk
  require (d.changeKey.isSome = true) (.os "content-state genesis lost its signing authority")
  let expected ← stateDocument A h 0 0 .empty
  require (pending.any (fun t => t.new.head == expected.hmac) = true)
    (.os "content-state genesis transition is inconsistent")
  let written ← writeState A h 0 0 .empty
  require (written = expected.hmac) (.os "content-state genesis commit changed identity")

/-- The records of a state by their keys. -/
def receiptsOf (rows : List Row) : Except Fault Receipts :=
  rows.foldlM (fun records row =>
    if row.valid = true ∧ (records.get? row.key).isNone = true then .ok (records.set row.key row)
    else .error (.os "durable content-state record failed validation")) .empty

/-- A state that was read and authenticated. -/
structure Loaded where
  schema : Schema
  position : Position
  records : Receipts

def readState : Store K Loaded := do
  let d ← disk
  require (d.changeKey.isSome = true ∧ d.state.isSome = true)
    (.os "durable content-state authority is incomplete")
  let doc ← obtain? d.state (.os "No such file or directory")
  require (0 < doc.bytes ∧ doc.bytes ≤ maxStateBytes)
    (.os "durable content-state object is unsafe")
  let epoch := doc.scanEpoch.getD doc.sequence
  require (doc.records.length ≤ maxRecords ∧ 0 ≤ doc.sequence ∧ doc.sequence ≤ epoch)
    (.os "durable content-state schema is invalid")
  let records ← compute (receiptsOf doc.records)
  let k ← changeKey h
  let core : StateCore := ⟨doc.schema, doc.sequence,
    if doc.schema = .current then some epoch else none, doc.records⟩
  require (core.scanEpoch = doc.scanEpoch ∧ (A.stateMac k core).val = doc.hmac)
    (.os "durable content-state authentication failed")
  pure ⟨doc.schema, ⟨doc.sequence, epoch, doc.hmac⟩, records⟩

/-- The one-time migration of a `v1` state. -/
def migrate (pending : Option TransitionCore) (enrolled : Bool) (s : Loaded) : Store K Position := do
  require (pending = none) (.os "legacy content-state conflicts with pending transition")
  require (enrolled = false) (.os "legacy content-state conflicts with enrolled high-water")
  let _ ← enrollmentKey h
  let head ← writeState A h s.position.sequence s.position.scanEpoch s.records
  let p : Position := { s.position with head := head }
  writeWitness A h p
  pure p

/-- The witness, if there is one. -/
def readWitness? : Store K (Option Position) := do
  let d ← disk
  if d.witness.isSome then some <$> readWitness A h else pure none

/-- The state is the new one: its witness is written unless it is there. -/
def confirmNew (t : TransitionCore) (p : Position) (witness : Option Position) : Store K Unit := do
  require (witness = none ∨ witness = some p ∨ 0 ≤ t.old.sequence ∧ witness = some t.old)
    (.os "content-state witness conflicts with transition")
  if witness = some p then pure () else writeWitness A h p

/-- What is left to do of a pending transition. -/
def resume (t : TransitionCore) (p : Position) : Store K Unit := do
  require (p = t.new ∨ 0 ≤ t.old.sequence ∧ p = t.old)
    (.os "content-state does not match pending transition")
  let witness ← readWitness? A h
  (if p = t.new then confirmNew A h t p witness
    else require (witness = some p) (.os "content-state predecessor witness is inconsistent"))
  removeTransition

/-- The end of a load: the state is adopted if the witness agrees. -/
def adopt (p : Position) (records : Receipts) (marked : Bool) : Store K Unit := do
  let witness ← readWitness A h
  require (witness = p) (.os "content-state rollback violates enrolled high-water")
  remember fun m => { m with
    receipts := records
    sequence := p.sequence
    scanEpoch := p.scanEpoch
    head := p.head
    loaded := true }
  if marked then removeGenesisMarker else pure ()

/-- What was found before the state is read: the pending transition, whether there is a marker, and
    which files of the witness there are. -/
structure Found where
  pending : Option TransitionCore
  marked : Bool
  witness : Bool × Bool

/-- The enrollment, where the authority is yet to be made. -/
def enrollFresh (fresh : Bool) (pending : Option TransitionCore) :
    Store K (Option TransitionCore) :=
  if fresh then enroll A h else pure pending

/-- The empty state, where a genesis transition waits for it. -/
def commitFirst (genesisPending : Bool) (pending : Option TransitionCore) : Store K Unit := do
  let d ← disk
  if genesisPending && d.state.isNone then commitGenesis A h pending else pure ()

/-- The beginning of a load, up to the empty state of a first enrollment. -/
def prepare : Store K Found := do
  let d ← disk
  require (d.transition.isNone = true ∨ d.enrollmentKey.isSome = true)
    (.os "content-state transition lost its enrollment authority")
  let pending ← readTransition A h
  let genesisPending := pending.any TransitionCore.isGenesis
  let pristine := !(d.bundle.1 || d.bundle.2) && !(d.witnessed.1 || d.witnessed.2) &&
    pending.isNone
  (if pristine then ensureGenesisMarker h else pure ())
  let marked := (← disk).genesis.isSome
  let markedGenesis := marked && pending.isNone && !d.bundle.2 && !d.witnessed.2
  let fresh ← compute (freshAuthority d.bundle d.witnessed genesisPending markedGenesis pristine)
  let pending ← enrollFresh A h fresh pending
  commitFirst A h (fresh || genesisPending) pending
  let d ← disk
  pure ⟨pending, marked, d.witnessed⟩

/-- The authentication of the state against the transition and the witness. -/
def reconcile (found : Found) (s : Loaded) : Store K Position :=
  match s.schema, found.pending with
  | .legacy, pending => migrate A h pending (found.witness.1 || found.witness.2) s
  | .current, some t => do
    resume A h t s.position
    pure s.position
  | .current, none => do
    require (found.witness = (true, true))
      (.os "content-state high-water witness is missing after enrollment")
    pure s.position

/-- `_load_change_state_under_lease`. -/
def loadUnderLease : Store K Unit := do
  let found ← prepare A h
  let s ← readState A h
  let p ← reconcile A h found s
  adopt A h p s.records found.marked

/-- `_load_change_state`. -/
def load : Store K Unit := do
  require (h.leased = true) (.os "content-state writer lease is already held")
  loadUnderLease A h

/-! ### Cycles -/

/-- `_begin_change_cycle`. -/
def beginCycle : Store K Unit :=
  remember fun m => { m with observations := .empty, cycleActive := m.loaded }

/-- What a scan sees of a file. -/
structure Sample where
  path : Str
  identity : Str × ℤ × ℤ
  size : ℕ
  modifiedIdentity : ℤ
  sha256 : Digest
  complete : Bool

def Sample.row (x : Sample) : Row :=
  let path := A.pathDigest x.path
  ⟨(A.rowKey x.identity path).val, x.identity, path.val, x.size, x.modifiedIdentity, x.sha256.val,
    x.complete⟩

/-- `_record_change_observation`, but for the label that it returns. -/
def recordObservation (x : Sample) : Store K Unit := do
  require (h.active 0 = true) .cancelled
  let m ← memory
  if m.cycleActive then do
    require (m.observations.size < maxRecords)
      (.os "durable content-state observation capacity exceeded")
    remember fun m => { m with observations := m.observations.set (x.row A).key (x.row A) }
  else pure ()

/-- The records that a commit writes. -/
def Memory.written (m : Memory K) (complete : Bool) : Receipts :=
  if complete then m.observations else m.receipts

/-- The commit of an active cycle; `m` is the memory when it begins. -/
def advance (m : Memory K) (complete : Bool) : Store K Unit := do
  let observed ← readWitness A h
  require (observed = m.position) (.os "content-state changed under another writer")
  let records := m.written complete
  let sequence := m.sequence + 1
  let scanEpoch := m.scanEpoch + 1
  let expected ← stateDocument A h sequence scanEpoch records
  require (h.active 3 = true) .cancelled
  writeTransition A h m.position ⟨sequence, scanEpoch, expected.hmac⟩
  let head ← writeState A h sequence scanEpoch records
  require (head = expected.hmac) (.os "content-state commit changed transition identity")
  writeWitness A h ⟨sequence, scanEpoch, head⟩
  removeTransition
  remember fun m => { m with
    receipts := records
    sequence := sequence
    scanEpoch := scanEpoch
    head := head }

/-- `_commit_change_cycle_under_lease`, with the checks that `_commit_change_cycle` makes before
    it. -/
def commitCycle (complete : Bool) : Store K Unit := do
  require (h.active 0 = true) .cancelled
  require (h.leased = true) (.os "content-state writer lease is already held")
  require (h.active 1 = true ∧ h.active 2 = true) .cancelled
  let m ← memory
  if m.cycleActive then do
    remember fun m => { m with cycleActive := false }
    advance A h m complete
  else pure ()

end Programs

end Angerona.Ransomware
