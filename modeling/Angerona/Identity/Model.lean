import Mathlib
import Angerona.Lib.Raising
import Angerona.Lib.Text

/-!
    Identity and session transition analytics, `core/identity_session.py`.

    Evidence is admitted, turned into a row of pseudonyms, and compared with the rows of the window. The
    times `T` are the finite floats; what the program adds to them or takes from them is a parameter,
    of which only the order is used. -/

namespace Angerona.Identity
open Text Raising

/-! ### Evidence -/

inductive Kind where
  | logonSession
  | authenticationAttempt
  | sessionEnd
  | deviceCodeFlow
  | newDevice
  | browserTokenStoreAccess
  | rmmSession
  | privilegeChange
  deriving DecidableEq

def Kind.text : Kind → String
  | .logonSession => "logon_session"
  | .authenticationAttempt => "authentication_attempt"
  | .sessionEnd => "session_end"
  | .deviceCodeFlow => "device_code_flow"
  | .newDevice => "new_device"
  | .browserTokenStoreAccess => "browser_token_store_access"
  | .rmmSession => "rmm_session"
  | .privilegeChange => "privilege_change"

inductive Outcome where
  | attempt
  | success
  | denied
  | unknown
  deriving DecidableEq

def Outcome.text : Outcome → String
  | .attempt => "attempt"
  | .success => "success"
  | .denied => "denied"
  | .unknown => "unknown"

inductive Grade where
  | brokerProvenanced
  | schemaAdmittedLocal
  | nativeOsEventLog
  | unprovenanced
  | authenticatedBus
  | localUnarmed
  deriving DecidableEq

def Grade.text : Grade → String
  | .brokerProvenanced => "broker-provenanced"
  | .schemaAdmittedLocal => "schema-admitted-local"
  | .nativeOsEventLog => "native-os-event-log"
  | .unprovenanced => "unprovenanced"
  | .authenticatedBus => "authenticated-bus"
  | .localUnarmed => "local-unarmed"

/-- `IdentitySessionEvidence`; its fields have the types of their annotations. -/
structure Evidence (T : Type) where
  timestamp : T
  kind : Kind
  principalRef : Str
  luid : Str
  sessionRef : Str
  deviceRef : Str
  sourceRef : Str
  processRef : Str
  outcome : Outcome
  privileged : Bool
  remote : Bool

/-- `TokenizedSessionEvent`. -/
structure Row (T : Type) where
  timestamp : T
  kind : Kind
  principal : Str
  luid : Str
  session : Str
  device : Str
  source : Str
  process : Str
  outcome : Outcome
  privileged : Bool
  remote : Bool
  grade : Grade
  digest : Str

/-- What an analyzer is set up with. -/
structure Analyzer (T : Type) [LinearOrder T] where
  /-- `_SECRET_SHAPE.search`. -/
  secretShaped : Str → Bool
  casefold : Str → Str
  /-- The hexadecimal keyed hash of a namespace and a text. -/
  hmac : String → Str → Str
  /-- `f"{t:.6f}"`. -/
  shown : T → Str
  /-- `t + MAX_EVENT_SKEW_SECONDS`. -/
  late : T → T
  /-- `t - MAX_WINDOW_SECONDS`. -/
  early : T → T
  /-- `t - window_seconds`. -/
  since : T → T
  late_mono : Monotone late
  since_mono : Monotone since
  early_le : ∀ t, early t ≤ since t
  maxEvents : ℕ
  maxEvents_ge : 32 ≤ maxEvents

variable {T : Type} [LinearOrder T]

namespace Analyzer

variable (A : Analyzer T)

/-- `_bounded_ref`. -/
def boundedRef (text : Str) (label : String) : Except String Unit :=
  if text ≠ strip text ∨ 320 < text.length ∨ text.any (fun c => c.toNat < 32) then
    .error (label ++ " must be a bounded identifier")
  else if text ≠ [] ∧ A.secretShaped text then
    .error (label ++ " resembles secret or token material")
  else .ok ()

/-- `IdentitySessionEvidence.__post_init__`. -/
def postInit (e : Evidence T) : Except String Unit := do
  A.boundedRef e.principalRef "principal_ref"
  A.boundedRef e.luid "luid"
  A.boundedRef e.sessionRef "session_ref"
  A.boundedRef e.deviceRef "device_ref"
  A.boundedRef e.sourceRef "source_ref"
  A.boundedRef e.processRef "process_ref"
  if [Kind.logonSession, .authenticationAttempt, .deviceCodeFlow, .newDevice, .privilegeChange].contains
      e.kind && e.principalRef = [] then
    .error "principal_ref is required for this evidence kind"
  else if [Kind.logonSession, .sessionEnd].contains e.kind && e.luid = [] && e.sessionRef = [] then
    .error "logon/session evidence requires a LUID or session reference"
  else if e.kind = .newDevice && e.deviceRef = [] then
    .error "new-device evidence requires a device reference"
  else if e.kind = .browserTokenStoreAccess && e.processRef = [] then
    .error "browser-store evidence requires a process reference"
  else if e.kind = .rmmSession && e.sessionRef = [] && e.sourceRef = [] && e.processRef = [] then
    .error "RMM evidence requires a session, source, or process reference"
  else .ok ()

/-- `_pseudonym`. -/
def pseudonym (space : String) (value : Str) (label : String) : Str :=
  if value = [] then []
  else (label ++ ":v1:").toList ++ (A.hmac space (A.casefold value)).take 32

/-- `tokenize`. -/
def tokenize (e : Evidence T) (grade : Grade) : Row T :=
  let principal := A.pseudonym "identity-principal" e.principalRef "principal"
  let luid := A.pseudonym "identity-luid" e.luid "luid"
  let session := A.pseudonym "identity-session" e.sessionRef "session"
  let device := A.pseudonym "identity-device" e.deviceRef "device"
  let source := A.pseudonym "identity-source" e.sourceRef "source"
  let process := A.pseudonym "identity-process" e.processRef "process"
  let flag := fun b : Bool => (if b then "1" else "0").toList
  let canonical := join "|".toList
    [e.kind.text.toList, A.shown e.timestamp, principal, luid, session, device, source, process,
      e.outcome.text.toList, flag e.privileged, flag e.remote, grade.text.toList]
  { timestamp := e.timestamp, kind := e.kind, principal := principal, luid := luid, session := session
    device := device, source := source, process := process, outcome := e.outcome
    privileged := e.privileged, remote := e.remote, grade := grade
    digest := A.hmac "angerona/identity-session-event/v1" canonical }

end Analyzer

/-! ### Findings -/

/-- `IdentitySessionFinding`; `rows` are the rows it is made of, of which the program keeps the number
    and the grade. -/
structure Finding (T : Type) where
  ruleId : String
  severity : String
  reason : String
  principal : Str
  session : Str
  device : Str
  grade : Grade
  rows : List (Row T)

/-- `_related`. -/
def related (first second : Row T) : Bool :=
  [(first.principal, second.principal), (first.luid, second.luid), (first.session, second.session),
    (first.device, second.device)].any fun p => p.1 ≠ [] && p.2 ≠ [] && p.1 = p.2

/-- `_grade`. -/
def gradeOf (rows : List (Row T)) : Grade :=
  if rows ≠ [] ∧ rows.all (fun r => r.grade = .nativeOsEventLog) then .nativeOsEventLog
  else if rows ≠ [] ∧ rows.all (fun r => r.grade = .brokerProvenanced) then .brokerProvenanced
  else if rows ≠ [] ∧
      rows.all (fun r => r.grade = .brokerProvenanced ∨ r.grade = .schemaAdmittedLocal) then
    .schemaAdmittedLocal
  else .unprovenanced

/-- `_finding`, of rows that end with `last`. -/
def finding (ruleId severity reason : String) (before : List (Row T)) (last : Row T) : Finding T :=
  let rows := before ++ [last]
  let grade := gradeOf rows
  { ruleId := ruleId
    severity := if grade = .brokerProvenanced then severity else "Medium"
    reason := reason, principal := last.principal
    session := if last.session = [] then last.luid else last.session
    device := last.device, grade := grade, rows := rows }

inductive Coverage where
  | observing
  | missing
  | blind
  | overflow
  deriving DecidableEq

structure Assessment (T : Type) where
  /-- `none` stands for `"finding"`. -/
  state : Option Coverage
  reason : String
  findings : List (Finding T)
  retainedEvents : ℕ
  droppedEvents : ℕ

/-! ### The analyzer's state -/

def maxAssociations : ℕ := 4096

/-- A principal and a device; either may be missing. -/
abbrev Owner := Str × Str

/-- An `OrderedDict` of references: the last entry was written last. -/
abbrev Store (T : Type) := List (Str × Owner × T)

structure Analytics (T : Type) where
  events : List (Row T)
  digests : Finset Str
  luidOwners : Store T
  sessionOwners : Store T
  knownDevices : List Str
  dropped : ℕ
  coverage : Coverage
  coverageReason : String

def Analytics.new : Analytics T :=
  ⟨[], ∅, [], [], [], 0, .observing, "supplied identity/session evidence is admitted"⟩

/-- The first entries go when there are too many. -/
def bounded {α : Type} (entries : List α) : List α := entries.drop (entries.length - maxAssociations)

def Row.owner (row : Row T) : Owner := (row.principal, row.device)

/-- `any(owner)`. -/
def named (owner : Owner) : Bool := owner.1 ≠ [] || owner.2 ≠ []

/-- `store.pop(key, None)`. -/
def pop (store : Store T) (key : Str) : Store T := store.filter fun entry => entry.1 ≠ key

/-- `store.get(key)`. -/
def lookup (store : Store T) (key : Str) : Option (Owner × T) :=
  (store.find? fun entry => entry.1 = key).map Prod.snd

/-- `effective`. -/
def Row.effective (row : Row T) : Bool := row.outcome = .success || row.outcome = .unknown

/-- The last row of a kind that was not denied. -/
def partner (prior : List (Row T)) (kind : Kind) : Option (Row T) :=
  prior.reverse.find? fun item => item.kind = kind && item.outcome ≠ .denied

/-- A finding about a row and an earlier one, if there is one. -/
def paired (ruleId severity reason : String) (first : Option (Row T)) (row : Row T) :
    List (Finding T) :=
  first.toList.map fun item => finding ruleId severity reason [item] row

namespace Analytics

variable (A : Analyzer T)

/-- `_assessment`. -/
def assessment (s : Analytics T) (findings : List (Finding T)) (reason : String) : Assessment T :=
  if s.coverage ≠ .observing then
    ⟨some s.coverage, s.coverageReason, findings, s.events.length, s.dropped⟩
  else if findings ≠ [] then
    ⟨none, "one or more identity/session transition rules matched", findings, s.events.length,
      s.dropped⟩
  else ⟨some .observing, reason, findings, s.events.length, s.dropped⟩

/-- `mark_coverage`, with a reason that is short and not blank. -/
def markCoverage (s : Analytics T) (state : Coverage) (reason : String) :
    Analytics T × Assessment T :=
  let s := { s with coverage := state, coverageReason := reason }
  (s, s.assessment [] reason)

/-- `_bounded_association`: the owner before, and the store. -/
def associate (store : Store T) (key : Str) (owner : Owner) (observedAt : T) :
    Option Owner × Store T :=
  if key = [] then (none, store)
  else
    ((lookup store key).bind fun retained =>
        if A.since observedAt ≤ retained.2 then some retained.1 else none,
      bounded (pop store key ++ [(key, owner, observedAt)]))

/-- The rows after a new one: one too many leaves, and so do the stale ones at the front. -/
def retain (events : List (Row T)) (row : Row T) (now : T) : List (Row T) :=
  let events := events ++ [row]
  let events := if A.maxEvents < events.length then events.tail else events
  events.dropWhile fun item => item.timestamp < A.since now

/-- The digests that leave with their rows. -/
def discarded (events : List (Row T)) (row : Row T) (now : T) : List Str :=
  let events := events ++ [row]
  let full := A.maxEvents < events.length
  (if full then events.take 1 else []).map Row.digest ++
    ((if full then events.tail else events).takeWhile fun item =>
      item.timestamp < A.since now).map Row.digest

/-- The finding about a reference that changed its owner. -/
def rebinding (ruleId : String) (previous : Option Owner) (row : Row T) : List (Finding T) :=
  match previous with
  | some previous =>
    if previous ≠ row.owner ∧ named row.owner ∧ named previous then
      [finding ruleId "Critical"
        "A live logon/session reference was rebound to a different principal or device." [] row]
    else []
  | none => []

/-- The findings about a row and the related rows before it. -/
def transitions (row : Row T) (prior : List (Row T)) : List (Finding T) :=
  (if row.kind = .newDevice ∧ row.effective then
    paired "identity_session.device_code_new_device" "Critical"
      "A device-code flow was followed by new-device enrollment." (partner prior .deviceCodeFlow) row
    else []) ++
  (if row.effective ∧
      [Kind.logonSession, .newDevice, .rmmSession, .privilegeChange].contains row.kind then
    paired "identity_session.browser_store_transition" (if row.privileged then "Critical" else "High")
      "Browser credential-store access preceded an identity/session transition."
      (partner prior .browserTokenStoreAccess) row
    else []) ++
  (if row.kind = .privilegeChange ∧ row.effective then
    paired "identity_session.rmm_privilege_transition" "Critical"
      "An RMM session preceded a privilege transition." (partner prior .rmmSession) row ++
    (if row.remote then
      [finding "identity_session.remote_privilege_transition" "High"
        "A supplied remote-session signal included a privilege transition." [] row]
      else [])
    else []) ++
  (if row.kind = .deviceCodeFlow ∧ row.privileged then
    [finding "identity_session.privileged_device_code_flow" "High"
      "A privileged principal entered a device-code authentication flow." [] row]
    else [])

/-- The finding about a device that was not known. -/
def enrollment (known : List Str) (row : Row T) : List (Finding T) :=
  if row.kind = .newDevice ∧ row.effective ∧ ¬known.contains row.device then
    [finding "identity_session.new_device_enrollment" (if row.privileged then "High" else "Medium")
      "A newly observed device was enrolled for this principal." [] row]
  else []

/-- The owners of the two references before a row. -/
structure Previous where
  luid : Option Owner
  session : Option Owner

/-- What a row does to the owners. -/
def own (s : Analytics T) (row : Row T) : Previous × Store T × Store T :=
  if row.kind = .sessionEnd then
    (⟨none, none⟩, if row.luid = [] then s.luidOwners else pop s.luidOwners row.luid,
      if row.session = [] then s.sessionOwners else pop s.sessionOwners row.session)
  else
    let luid := associate A s.luidOwners row.luid row.owner row.timestamp
    let session := associate A s.sessionOwners row.session row.owner row.timestamp
    (⟨luid.1, session.1⟩, luid.2, session.2)

/-- The rows that a new row is compared with: the last one that is retained is the new one. -/
def prior (s : Analytics T) (row : Row T) (now : T) : List (Row T) :=
  (retain A s.events row now).dropLast.filter fun item => related item row

/-- The findings of an admitted row. -/
def findings (s : Analytics T) (row : Row T) (now : T) : List (Finding T) :=
  let previous := (own A s row).1
  rebinding "identity_session.luid_rebinding" previous.luid row ++
    rebinding "identity_session.session_rebinding" previous.session row ++
      enrollment s.knownDevices row ++ transitions row (prior A s row now)

/-- The state after an admitted row. -/
def admitted (s : Analytics T) (row : Row T) (now : T) : Analytics T :=
  let full := A.maxEvents < (s.events ++ [row]).length
  let owners := (own A s row).2
  { events := retain A s.events row now
    digests := insert row.digest s.digests \ (discarded A s.events row now).toFinset
    luidOwners := owners.1
    sessionOwners := owners.2
    knownDevices :=
      if row.kind = .newDevice ∧ row.effective then
        bounded (s.knownDevices.filter (· ≠ row.device) ++ [row.device])
      else s.knownDevices
    dropped := if full then s.dropped + 1 else s.dropped
    coverage := if full then .overflow else s.coverage
    coverageReason :=
      if full then "identity/session evidence capacity was exceeded" else s.coverageReason }

/-- The time of a row is near the clock. -/
def timely (row : Row T) (now : T) : Bool := row.timestamp ≤ A.late now && A.early now ≤ row.timestamp

/-- `observe`, of a row. -/
def observe (s : Analytics T) (row : Row T) (now : T) : Analytics T × Assessment T :=
  if !timely A row now then
    s.markCoverage .missing "stale-or-future identity/session evidence"
  else if row.digest ∈ s.digests then
    (s, s.assessment [] "duplicate tokenized evidence was ignored")
  else
    let after := s.admitted A row now
    (after, after.assessment (s.findings A row now) "identity/session transition admitted")

omit [LinearOrder T] in
@[simp] theorem findings_assessment (s : Analytics T) (found : List (Finding T)) (reason : String) :
    (s.assessment found reason).findings = found := by
  rw [assessment]
  split
  · rfl
  · split
    · rfl
    · rfl

/-- A row is new and its time is near the clock. -/
def Admits (s : Analytics T) (row : Row T) (now : T) : Prop :=
  timely A row now = true ∧ row.digest ∉ s.digests

theorem observe_of_admits {A : Analyzer T} {s : Analytics T} {row : Row T} {now : T}
    (h : Admits A s row now) :
    (s.observe A row now).1 = s.admitted A row now ∧
      (s.observe A row now).2.findings = s.findings A row now := by
  rw [observe, h.1, if_neg (by decide), if_neg h.2]
  exact ⟨rfl, findings_assessment _ _ _⟩

end Analytics

end Angerona.Identity
