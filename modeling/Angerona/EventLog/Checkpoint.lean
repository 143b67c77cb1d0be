import Angerona.Lib.StrictJson
import Mathlib.Data.Rat.Defs

/-!
    The continuity checkpoint of the event logs, `AuthenticatedEventLogCheckpoint`.

    The state is a signed cursor and a signed enrollment epoch, in two files, and the head that an
    independent authority keeps. A signature is the key under which a document is sealed, and the
    digest of a pair is the pair. `load` reads two files and asks the authority; `save` advances the
    authority and writes two files. -/

namespace Angerona.EventLog
open Text

/-! ### Documents -/

/-- `ChannelCheckpoint`. -/
structure ChannelCheckpoint where
  recordId : ℤ
  anchor : Str
  deriving DecidableEq

abbrev Checkpoints := Dict Str ChannelCheckpoint

/-- The cursor document. -/
structure Cursor where
  updatedAt : ℚ
  enrollmentId : Str
  revision : ℕ
  coverageComplete : Bool
  channels : Checkpoints
  deriving DecidableEq

/-- The enrollment epoch. -/
structure Enrollment where
  createdAt : ℚ
  enrollmentId : Str
  revision : ℕ
  deriving DecidableEq

abbrev Key := List UInt8

/-- A document with its signature. -/
structure Sealed (α : Type) where
  key : Key
  body : α
  deriving DecidableEq

/-- What a document of a pair is hashed to: `ZERO_DIGEST`, or `state_pair_digest`. -/
inductive Digest where
  | zero
  | pair (installationId : Str) (revision : ℕ) (primary : Sealed Cursor) (epoch : Sealed Enrollment)
  deriving DecidableEq

/-- A revision a document may have. -/
def isRevision (revision : ℕ) : Bool := 1 ≤ revision ∧ revision ≤ 2 ^ 63 - 1

/-- A channel checkpoint that may be stored. -/
def ChannelCheckpoint.ok (channel : Str) (c : ChannelCheckpoint) : Bool :=
  (1 ≤ channel.length ∧ channel.length ≤ 200) ∧ 0 ≤ c.recordId ∧
    ¬(c.recordId = 0 ∧ c.anchor ≠ [] ∨ 0 < c.recordId ∧ isHex 64 c.anchor = false)

def maxChannels : ℕ := 16

/-- `_parse_enrollment`. -/
def parseEnrollment (key : Option Key) (payload : Sealed Enrollment) : Option Enrollment :=
  if isHex 32 payload.body.enrollmentId ∧ isRevision payload.body.revision ∧
      key = some payload.key then
    some payload.body
  else none

/-- `_parse_cursor`. -/
def parseCursor (key : Option Key) (payload : Sealed Cursor) : Option Cursor :=
  if (isHex 32 payload.body.enrollmentId ∧ isRevision payload.body.revision ∧
      payload.body.channels.size ≤ maxChannels ∧ key = some payload.key) ∧
      ∀ i ∈ payload.body.channels.items, i.2.ok i.1 then
    some payload.body
  else none

/-! ### The independent authority -/

/-- `HighWaterHead`, of the one domain. -/
structure Head where
  installationId : Str
  revision : ℕ
  stateDigest : Digest
  previousHead : Str
  head : Str
  deriving DecidableEq

/-- `HighWaterTransition`. -/
structure HighWaterTransition where
  installationId : Str
  previousRevision : ℕ
  previousStateDigest : Digest
  previousHead : Str
  revision : ℕ
  stateDigest : Digest

/-- `ZERO_DIGEST`, as a head. -/
def zeroHead : Str := List.replicate 64 '0'

/-- What the authority may raise. -/
inductive Fault where
  | unavailable
  | rejected

/-- The states of a `HighWaterAssessment`. -/
inductive Freshness where
  | unassessed
  | localAuthenticityOnly
  | installationMismatch
  | readyFirstEnrollment
  | migrationRequired
  | provisionalOffline
  | authorityRejected
  | localBehind
  | localAhead
  | forkDetected
  | verified
  | advanceRejected
  | localStateInvalid
  | externalAheadCrashRecoveryRequired
  deriving DecidableEq

/-- `HighWaterAssessment`. -/
structure Assessment where
  state : Freshness
  independentlyFresh : Bool
  head : Str
  stateDigest : Digest

/-- `validate_head`. -/
def Head.valid (installationId : Str) (h : Head) : Bool :=
  (h.installationId = installationId ∧ isRevision h.revision ∧ isHex 64 h.previousHead ∧
    isHex 64 h.head) ∧ h.stateDigest ≠ .zero ∧ h.head ≠ zeroHead ∧
    (h.revision = 1 → h.previousHead = zeroHead) ∧ (1 < h.revision → h.previousHead ≠ zeroHead)

/-- `assess_high_water`, given the installation of the authority and what `read_head` returns. -/
def assessHighWater (authority : Option (Str × Except Fault (Option Head))) (installationId : Str)
    (revision : ℕ) (stateDigest : Digest) : Assessment :=
  match authority with
  | none => ⟨.localAuthenticityOnly, false, zeroHead, stateDigest⟩
  | some (authorityId, observed) =>
    if isHex 32 authorityId = false then ⟨.authorityRejected, false, zeroHead, stateDigest⟩
    else if authorityId ≠ installationId then
      ⟨.installationMismatch, false, zeroHead, stateDigest⟩
    else
      match observed with
      | .error .unavailable => ⟨.provisionalOffline, false, zeroHead, stateDigest⟩
      | .error .rejected => ⟨.authorityRejected, false, zeroHead, stateDigest⟩
      | .ok none =>
        ⟨if revision = 0 then .readyFirstEnrollment else .migrationRequired, false, zeroHead,
          stateDigest⟩
      | .ok (some head) =>
        if head.valid installationId = false then
          ⟨.authorityRejected, false, zeroHead, stateDigest⟩
        else if revision < head.revision then ⟨.localBehind, false, head.head, stateDigest⟩
        else if head.revision < revision then ⟨.localAhead, false, head.head, stateDigest⟩
        else if head.stateDigest ≠ stateDigest then ⟨.forkDetected, false, head.head, stateDigest⟩
        else ⟨.verified, true, head.head, stateDigest⟩

/-- The checks of `advance_high_water` before the authority is asked. -/
def HighWaterTransition.ok (authorityId : Str) (t : HighWaterTransition) : Bool :=
  (isHex 32 authorityId ∧ authorityId = t.installationId ∧ isHex 64 t.previousHead) ∧
    t.revision = t.previousRevision + 1 ∧ t.stateDigest ≠ .zero ∧
    (t.previousRevision = 0 → t.previousStateDigest = .zero ∧ t.previousHead = zeroHead) ∧
    (0 < t.previousRevision → t.previousStateDigest ≠ .zero ∧ t.previousHead ≠ zeroHead)

/-- `advance_high_water`, given what `compare_and_advance` returns. -/
def advanceHighWater (authorityId : Str) (t : HighWaterTransition)
    (returned : Except Fault Head) : Assessment :=
  if t.ok authorityId = false then ⟨.advanceRejected, false, t.previousHead, t.previousStateDigest⟩
  else
    match returned with
    | .error .unavailable => ⟨.provisionalOffline, false, t.previousHead, t.previousStateDigest⟩
    | .error .rejected => ⟨.advanceRejected, false, t.previousHead, t.previousStateDigest⟩
    | .ok head =>
      if head.valid t.installationId = false ∨ head.revision ≠ t.revision ∨
          head.stateDigest ≠ t.stateDigest ∨ head.previousHead ≠ t.previousHead then
        ⟨.advanceRejected, false, t.previousHead, t.previousStateDigest⟩
      else ⟨.verified, true, head.head, t.stateDigest⟩

/-- The authority: the installation it serves, and its head. -/
structure Authority where
  installationId : Str
  head : Option Head

/-- What a transition has to name: the revision, the digest and the head. -/
def Authority.current (a : Authority) : ℕ × Digest × Str :=
  a.head.elim (0, .zero, zeroHead) fun h => (h.revision, h.stateDigest, h.head)

/-- The compare-and-swap of the authority; `token` is the new head. -/
def Authority.compareAndAdvance (a : Authority) (t : HighWaterTransition) (token : Str) :
    Option Authority :=
  if t.installationId = a.installationId ∧ t.revision = t.previousRevision + 1 ∧
      (t.previousRevision, t.previousStateDigest, t.previousHead) = a.current then
    some { a with head := some ⟨a.installationId, t.revision, t.stateDigest, t.previousHead, token⟩ }
  else none

/-! ### The checkpoint object -/

inductive LoadState where
  | unloaded
  | firstEnrollment
  | untrusted
  | provisional
  | authenticated
  deriving DecidableEq

/-- What `_existing_payload` reads; two payloads with one digest are the same. -/
inductive Found (α : Type) where
  | unreadable
  | missing
  | present (payload : Sealed α)
  deriving DecidableEq

/-- The fields of an `AuthenticatedEventLogCheckpoint`; `installation` is that of its authority. -/
structure Checkpoint where
  key : Option Key
  installation : Option Str
  loadState : LoadState
  enrollmentId : Str
  createdAt : ℚ
  revision : ℕ
  coverageComplete : Bool
  expectedCursor : Found Cursor
  expectedEnrollment : Found Enrollment
  recoveryAllowed : Bool
  freshness : Assessment

/-- The constructor. -/
def Checkpoint.new (key : Option Key) (installation : Option Str) : Checkpoint :=
  ⟨key, installation, .unloaded, [], 0, 0, false, .unreadable, .unreadable, false,
    ⟨.unassessed, false, zeroHead, .zero⟩⟩

/-- The assessments that make a load untrusted. -/
def Freshness.bad (f : Freshness) : Bool :=
  f ∈ [Freshness.localBehind, .forkDetected, .installationMismatch, .authorityRejected]

/-- An assessment that was not asked of the authority. -/
def localStateInvalid : Assessment := ⟨.localStateInvalid, false, zeroHead, .zero⟩

/-- What a load returns. -/
abbrev Loaded := Checkpoints × LoadState

/-- What the authority of a checkpoint object says, if it has one. -/
def Checkpoint.asked (c : Checkpoint) (observed : Except Fault (Option Head)) :
    Option (Str × Except Fault (Option Head)) := c.installation.map fun i => (i, observed)

/-- `_first_enrollment_freshness`, and the object after it. -/
def Checkpoint.firstEnrollmentFreshness (c : Checkpoint) (observed : Except Fault (Option Head)) :
    Checkpoint :=
  match c.installation with
  | none => { c with freshness := assessHighWater none (List.replicate 32 '0') 0 .zero }
  | some i =>
    if isHex 32 i = false then
      { c with freshness := ⟨.authorityRejected, false, zeroHead, .zero⟩ }
    else { c with
      enrollmentId := i
      freshness := assessHighWater (c.asked observed) i 0 .zero }

/-- A load that finds neither file. -/
def Checkpoint.loadNothing (c : Checkpoint) (observed : Except Fault (Option Head)) :
    Checkpoint × Loaded :=
  let c := { c with loadState := .firstEnrollment, revision := 0, coverageComplete := false }
  let c := c.firstEnrollmentFreshness observed
  let c := { c with
    recoveryAllowed :=
      decide (c.installation = none ∨ c.freshness.state = Freshness.readyFirstEnrollment) }
  if c.freshness.state.bad then ({ c with loadState := .untrusted }, Dict.empty, .untrusted)
  else (c, Dict.empty, .firstEnrollment)

/-- A load of a cursor and an epoch that parse and name the same state. -/
def Checkpoint.loadPair (c : Checkpoint) (observed : Except Fault (Option Head))
    (primary : Sealed Cursor) (epoch : Sealed Enrollment) (cursor : Cursor) :
    Checkpoint × Loaded :=
  let c := { c with
    coverageComplete := cursor.coverageComplete
    freshness := assessHighWater (c.asked observed) c.enrollmentId c.revision
      (.pair c.enrollmentId c.revision primary epoch) }
  if c.freshness.state.bad then
    ({ c with loadState := .untrusted, recoveryAllowed := false }, Dict.empty, .untrusted)
  else if c.installation ≠ none ∧ c.freshness.independentlyFresh = false then
    ({ c with loadState := .provisional, recoveryAllowed := false }, cursor.channels, .provisional)
  else ({ c with loadState := .authenticated }, cursor.channels, .authenticated)

/-- What the handler of a load does. -/
def Checkpoint.loadRaised (c : Checkpoint) : Checkpoint × Loaded :=
  ({ c with loadState := .untrusted, freshness := localStateInvalid }, Dict.empty, .untrusted)

/-- A load of an epoch that parses. -/
def Checkpoint.loadEpoch (c : Checkpoint) (observed : Except Fault (Option Head))
    (found : Found Cursor) (epoch : Sealed Enrollment) (enrollment : Enrollment) :
    Checkpoint × Loaded :=
  let c := { c with
    enrollmentId := enrollment.enrollmentId
    createdAt := enrollment.createdAt
    revision := enrollment.revision
    recoveryAllowed := true }
  match found with
  | .present primary =>
    (parseCursor c.key primary).elim c.loadRaised fun cursor =>
      if cursor.enrollmentId ≠ enrollment.enrollmentId ∨ cursor.revision ≠ enrollment.revision then
        c.loadRaised
      else c.loadPair observed primary epoch cursor
  | _ => ({ c with loadState := .untrusted }, Dict.empty, .untrusted)

/-- `load`, given what the two reads find and what `read_head` returns. -/
def Checkpoint.load (c : Checkpoint) (cursor : Found Cursor) (enrollment : Found Enrollment)
    (observed : Except Fault (Option Head)) : Checkpoint × Loaded :=
  let c := { c with
    recoveryAllowed := false, expectedCursor := cursor, expectedEnrollment := enrollment }
  match cursor, enrollment with
  | .unreadable, _ => c.loadRaised
  | _, .unreadable => c.loadRaised
  | .missing, .missing => c.loadNothing observed
  | .present _, .missing => c.loadRaised
  | found, .present epoch =>
    (parseEnrollment c.key epoch).elim c.loadRaised fun e => c.loadEpoch observed found epoch e

/-! ### Saving -/

/-- What the JSON text of a pair is measured by. -/
structure Sizes where
  fits : Sealed Cursor → Sealed Enrollment → Bool

/-- The arguments of `save`, the clock, and `secrets.token_hex(16)`. -/
structure SaveCall where
  checkpoints : Checkpoints
  coverageComplete : Bool
  now : ℚ
  token : Str

/-- The pair a save signs. -/
def Checkpoint.signedPair (c : Checkpoint) (key : Key) (call : SaveCall) :
    Sealed Cursor × Sealed Enrollment :=
  let enrollmentId := if c.enrollmentId = [] then call.token else c.enrollmentId
  (⟨key, ⟨call.now, enrollmentId, c.revision + 1, call.coverageComplete,
      PyJson.arranged id call.checkpoints⟩⟩,
    ⟨key, ⟨if c.createdAt = 0 then call.now else c.createdAt, enrollmentId, c.revision + 1⟩⟩)

/-- The save goes on to the authority, or to the files: everything that `save` checks before. -/
def Checkpoint.saveStarts (sizes : Sizes) (c : Checkpoint) (cursor : Found Cursor)
    (enrollment : Found Enrollment) (call : SaveCall) : Option (Sealed Cursor × Sealed Enrollment) :=
  c.key.bind fun key =>
    let pair := c.signedPair key call
    if (call.checkpoints.size ≤ maxChannels ∧ c.recoveryAllowed = true ∧
          c.loadState ∈ [LoadState.firstEnrollment, .authenticated, .untrusted]) ∧
        (∀ i ∈ call.checkpoints.items, i.2.ok i.1) ∧
        (cursor ≠ .unreadable ∧ enrollment ≠ .unreadable ∧ cursor = c.expectedCursor ∧
          enrollment = c.expectedEnrollment) ∧ sizes.fits pair.1 pair.2 ∧
        (isHex 32 pair.2.body.enrollmentId ∧ isRevision pair.2.body.revision) ∧
        (c.installation = none ∨
          c.freshness.state ∈ [Freshness.readyFirstEnrollment, .verified]) then
      some pair
    else none

/-- The transition a save asks for. -/
def Checkpoint.transition (c : Checkpoint) (pair : Sealed Cursor × Sealed Enrollment) :
    HighWaterTransition where
  installationId := pair.2.body.enrollmentId
  previousRevision := c.revision
  previousStateDigest := if c.revision = 0 then .zero else c.freshness.stateDigest
  previousHead := if c.revision = 0 then zeroHead else c.freshness.head
  revision := pair.2.body.revision
  stateDigest := .pair pair.2.body.enrollmentId pair.2.body.revision pair.1 pair.2

/-- The object after the authority answered. -/
def Checkpoint.advanced (c : Checkpoint) (a : Assessment) : Checkpoint :=
  if a.independentlyFresh then { c with freshness := a }
  else { c with freshness := a, recoveryAllowed := false }

/-- The object after a file could not be written. -/
def Checkpoint.writeFailed (c : Checkpoint) (pair : Sealed Cursor × Sealed Enrollment) :
    Checkpoint :=
  if c.installation ≠ none ∧ c.freshness.independentlyFresh = true then { c with
    freshness := ⟨.externalAheadCrashRecoveryRequired, false, c.freshness.head,
      .pair pair.2.body.enrollmentId pair.2.body.revision pair.1 pair.2⟩
    recoveryAllowed := false }
  else c

/-- The object after both files were written. -/
def Checkpoint.saved (c : Checkpoint) (pair : Sealed Cursor × Sealed Enrollment) : Checkpoint :=
  { c with
    enrollmentId := pair.2.body.enrollmentId
    createdAt := pair.2.body.createdAt
    revision := pair.2.body.revision
    coverageComplete := pair.1.body.coverageComplete
    loadState := .authenticated
    expectedCursor := .present pair.1
    expectedEnrollment := .present pair.2
    recoveryAllowed := true
    freshness := if c.installation = none then ⟨.localAuthenticityOnly, false, zeroHead,
      .pair pair.2.body.enrollmentId pair.2.body.revision pair.1 pair.2⟩ else c.freshness }

/-! ### The files, the authority and the processes -/

abbrev Pair := Sealed Cursor × Sealed Enrollment

/-- Where a process stands between two steps that others may see. -/
inductive Phase where
  | idle
  | cursorRead (cursor : Found Cursor)
  | bothRead (cursor : Found Cursor) (enrollment : Found Enrollment)
  /-- A save has read the cursor file again. -/
  | cursorChecked (cursor : Found Cursor)
  | signed (pair : Pair)
  | admitted (pair : Pair)
  | cursorWritten (pair : Pair)

structure Proc where
  object : Checkpoint
  phase : Phase

/-- The files with all they ever held, the authority, and what saves signed and committed. -/
structure World where
  cursor : Option (Sealed Cursor)
  enrollment : Option (Sealed Enrollment)
  cursorVersions : List (Sealed Cursor)
  enrollmentVersions : List (Sealed Enrollment)
  authority : Authority
  procs : ℕ → Option Proc
  signed : List Pair
  commits : List Pair

/-- How a request to the authority ends: lost before or after it was served, or answered. -/
inductive Answer where
  | lostBefore
  | lostAfter
  | answered

inductive Act where
  /-- A process starts, or starts again after a crash. -/
  | start (proc : ℕ) (key : Option Key) (guarded : Bool)
  | putCursor (version : Option (Sealed Cursor))
  | putEnrollment (version : Option (Sealed Enrollment))
  | readCursor (proc : ℕ) (readable : Bool)
  | readEnrollment (proc : ℕ) (readable : Bool)
  | assess (proc : ℕ) (answer : Answer)
  | checkCursor (proc : ℕ) (readable : Bool)
  | sign (proc : ℕ) (readable : Bool) (call : SaveCall)
  | advance (proc : ℕ) (answer : Answer) (token : Str)
  | writeCursor (proc : ℕ) (replaced failed : Bool)
  | writeEnrollment (proc : ℕ) (replaced failed : Bool)

/-- What a read finds. -/
def found {α : Type} (file : Option (Sealed α)) (readable : Bool) : Found α :=
  if readable then file.elim .missing .present else .unreadable

/-- What `read_head` returns. -/
def World.observed (w : World) : Answer → Except Fault (Option Head)
  | .answered => .ok w.authority.head
  | _ => .error .unavailable

def World.setProc (w : World) (proc : ℕ) (p : Proc) : World :=
  { w with procs := Function.update w.procs proc (some p) }

/-- The new head, when the answer arrives. -/
def Answer.deliver : Answer → Option Head → Except Fault Head
  | .answered, some head => .ok head
  | _, _ => .error .unavailable

/-- The authority serves a transition, unless the request is lost. -/
def World.serve (w : World) (answer : Answer) (t : HighWaterTransition) (token : Str) (pair : Pair) :
    World × Except Fault Head :=
  match answer with
  | .lostBefore => (w, .error .unavailable)
  | _ => (w.authority.compareAndAdvance t token).elim (w, .error .rejected) fun authority =>
      ({ w with authority, commits := w.commits ++ [pair] }, answer.deliver authority.head)

/-- `advance_high_water` in `save`; it asks the authority only when its own checks pass. -/
def World.advance (w : World) (proc : ℕ) (object : Checkpoint) (installation : Str)
    (answer : Answer) (token : Str) (pair : Pair) : World :=
  let t := object.transition pair
  let served := if t.ok installation then w.serve answer t token pair else (w, .error .rejected)
  let object := object.advanced (advanceHighWater installation t served.2)
  served.1.setProc proc ⟨object,
    if object.freshness.independentlyFresh then .admitted pair else .idle⟩

/-- The cursor file is replaced. -/
def World.replaceCursor (w : World) (payload : Sealed Cursor) : World :=
  { w with cursor := some payload, cursorVersions := w.cursorVersions ++ [payload] }

def World.replaceEnrollment (w : World) (payload : Sealed Enrollment) : World :=
  { w with enrollment := some payload, enrollmentVersions := w.enrollmentVersions ++ [payload] }

/-- What a step of a process does. -/
def World.step (sizes : Sizes) (w : World) (proc : ℕ) (p : Proc) : Act → World
  | .readCursor _ readable =>
    match p.phase with
    | .idle => w.setProc proc ⟨p.object, .cursorRead (found w.cursor readable)⟩
    | _ => w
  | .readEnrollment _ readable =>
    match p.phase with
    | .cursorRead cursor =>
      w.setProc proc ⟨p.object, .bothRead cursor (found w.enrollment readable)⟩
    | _ => w
  | .assess _ answer =>
    match p.phase with
    | .bothRead cursor enrollment =>
      w.setProc proc ⟨(p.object.load cursor enrollment (w.observed answer)).1, .idle⟩
    | _ => w
  | .checkCursor _ readable =>
    match p.phase with
    | .idle => w.setProc proc ⟨p.object, .cursorChecked (found w.cursor readable)⟩
    | _ => w
  | .sign _ readable call =>
    match p.phase with
    | .cursorChecked cursor =>
      (p.object.saveStarts sizes cursor (found w.enrollment readable) call).elim
        (w.setProc proc ⟨p.object, .idle⟩)
        fun pair => { w with signed := w.signed ++ [pair] }.setProc proc ⟨p.object,
          if p.object.installation = none then .admitted pair else .signed pair⟩
    | _ => w
  | .advance _ answer token =>
    match p.phase, p.object.installation with
    | .signed pair, some installation => w.advance proc p.object installation answer token pair
    | _, _ => w
  | .writeCursor _ replaced failed =>
    match p.phase with
    | .admitted pair =>
      (if replaced ∨ failed = false then w.replaceCursor pair.1 else w).setProc proc
        (if failed then ⟨p.object.writeFailed pair, .idle⟩ else ⟨p.object, .cursorWritten pair⟩)
    | _ => w
  | .writeEnrollment _ replaced failed =>
    match p.phase with
    | .cursorWritten pair =>
      (if replaced ∨ failed = false then w.replaceEnrollment pair.2 else w).setProc proc
        ⟨if failed then p.object.writeFailed pair else p.object.saved pair, .idle⟩
    | _ => w
  | _ => w

def Act.proc : Act → Option ℕ
  | .start _ _ _ => none
  | .putCursor _ => none
  | .putEnrollment _ => none
  | .readCursor proc _ => some proc
  | .readEnrollment proc _ => some proc
  | .assess proc _ => some proc
  | .checkCursor proc _ => some proc
  | .sign proc _ _ => some proc
  | .advance proc _ _ => some proc
  | .writeCursor proc _ _ => some proc
  | .writeEnrollment proc _ _ => some proc

/-- What an act does. -/
def World.exec (sizes : Sizes) (w : World) : Act → World
  | .start proc key guarded =>
    w.setProc proc ⟨.new key (if guarded then some w.authority.installationId else none), .idle⟩
  | .putCursor version => { w with cursor := version }
  | .putEnrollment version => { w with enrollment := version }
  | a => (a.proc.bind fun proc => (w.procs proc).map fun p => w.step sizes proc p a).getD w

/-- The files are put back to what they held before, or deleted. -/
def Act.Allowed (w : World) : Act → Prop
  | .putCursor version => ∀ v, version = some v → v ∈ w.cursorVersions
  | .putEnrollment version => ∀ v, version = some v → v ∈ w.enrollmentVersions
  | _ => True

/-- What a load that ends now returns, and the object it is of. -/
def World.loads (w : World) (proc : ℕ) (answer : Answer) : Option (Checkpoint × Loaded) :=
  (w.procs proc).bind fun p =>
    match p.phase with
    | .bothRead cursor enrollment =>
      some (p.object, (p.object.load cursor enrollment (w.observed answer)).2)
    | _ => none

end Angerona.EventLog
