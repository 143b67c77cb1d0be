import Angerona.Lib.Transition
import Angerona.Temporal.Model

/-!
    The calls of the temporal tradecraft engine.

    Each call is a function on the engine and its state file, under the clock readings it takes. A
    call that raises may have changed the engine before. -/

namespace Angerona.Temporal
open Text PyJson Raising

/-! ### Assessments -/

structure Finding where
  patternId : Str
  severity : Str
  summary : Str
  startedAt : PyFloat
  endedAt : PyFloat
  signalKinds : List Kind
  evidenceDigests : List Str
  evidenceGrade : Grade

structure Assessment where
  state : Str
  reason : Str
  findings : List Finding
  missingSteps : List Kind
  retainedSignals : ℕ
  droppedSignals : ℕ
  persistenceStatus : Status

/-- The signals a scan selects: each the first one, after the one before, of the next step. -/
def scan : List Kind → List Signal → List Signal
  | [], _ => []
  | _ :: _, [] => []
  | k :: ks, s :: ss => if s.kind = k then s :: scan ks ss else scan (k :: ks) ss

/-- `_continuity_state`. -/
def Engine.continuityState (e : Engine) : Str × Str :=
  if e.persistenceStatus = .untrusted ∨ e.persistenceStatus = .unavailable then
    ("blind".toList, "authenticated temporal restart state is unavailable".toList)
  else if e.blindSources ≠ ∅ then
    ("blind".toList, "one or more admitted sensor sources are blind or unauthenticated".toList)
  else if e.overflowAt.isSome then
    ("overflow".toList, "bounded temporal evidence capacity was exceeded".toList)
  else if e.missingSince.isSome then
    ("missing".toList,
      if e.missingReasons = [] ∨ e.missingReasons = [[]] then
        "temporal history is incomplete".toList
      else List.intercalate "; ".toList e.missingReasons)
  else
    ("observing".toList,
      "bounded temporal evidence is continuous within the current window".toList)

/-- `_missing_steps`. -/
def Engine.missingSteps (e : Engine) : List Kind :=
  patterns.foldl (fun best p =>
    let position := (scan p.steps e.signals).length
    let remaining := p.steps.drop position
    if position ≠ 0 ∧ (best = [] ∨ remaining.length < best.length) then remaining else best) []

/-- `_assessment`. -/
def Engine.assessment (e : Engine) (findings : List Finding)
    (reason : String) : Assessment :=
  let (state, why) := e.continuityState
  let (state, why) :=
    if state = "observing".toList then
      if findings = [] then ("observing".toList, reason.toList)
      else ("match".toList, "one or more ordered patterns completed".toList)
    else (state, why)
  ⟨state, why, findings, e.missingSteps, e.signals.length, e.dropped, e.persistenceStatus⟩

/-! ### Events -/

structure Event where
  module : Str
  ts : PyFloat
  details : Value
  hmacSig : Str

/-- `event.details if isinstance(event.details, dict) else {}`. -/
def Event.fields (event : Event) : List (Key × Value) :=
  match event.details with
  | .dict d => d
  | _ => []

section Calls

variable (C : Config)

/-- `str(details.get(a) or details.get(b) or "")[:128]`. -/
def codeOf (d : List (Key × Value)) : Str :=
  let a := getItem "finding_code".toList d
  let b := getItem "finding_type".toList d
  ((if truthy a then textOf C a else if truthy b then textOf C b else []).take 128)

def classificationOf (d : List (Key × Value)) : Str :=
  let a := getItem "classification".toList d
  (if truthy a then textOf C a else []).take 128

def surfaceGuard : Str := "SSH Surface / Key / Tunnel Guard".toList

def pathCodes : List String :=
  ["network.path_added", "network.interface_epoch_changed", "network.wireless_identity_drift",
    "network.dns_drift", "network.dhcp_drift", "network.default_route_drift",
    "network.gateway_identity_drift", "network.profile_category_drift"]

def sessionCodes : List String :=
  ["ssh.logs.successful_key_auth", "ssh.logs.successful_password_auth"]

def tunnelCodes : List String :=
  ["ssh.logs.forwarding_or_tunnel_signal", "ssh.runtime.client_forwarding_process"]

def logClearClasses : List String := ["audit-log-cleared", "event-log-cleared"]

/-- A key of the baseline was added or modified. -/
def keysChanged (d : List (Key × Value)) : Bool :=
  match getItem "changes".toList d with
  | .dict changes => ["keys_added", "keys_modified"].any fun name =>
      truthy (getItem name.toList changes)
  | _ => false

/-- `_classify_event`; only ASCII letters fold to the letters of a class. -/
def classifyEvent (event : Event) : Option Kind :=
  let d := event.fields
  let code := codeOf C d
  let classification := (classificationOf C d).map Char.toLower
  if event.module = surfaceGuard ∧ code = "ssh.baseline.drift".toList ∧ keysChanged d then
    some .sshKeyChange
  else if event.module = surfaceGuard ∧ sessionCodes.any (·.toList = code) then some .sshSession
  else if event.module = surfaceGuard ∧ tunnelCodes.any (·.toList = code) then some .sshTunnel
  else if event.module = "Zero-Trust Network Path Monitor".toList ∧
      pathCodes.any (·.toList = code) then some .networkPathChange
  else if event.module = "Audit Log Integrity Guard".toList ∧
      logClearClasses.any (·.toList = classification) then some .logClear
  else none

def hintKeys : List String :=
  ["account_token", "source_token", "subject_token", "process_token", "listener_token",
    "path_token", "interface_token"]

/-- The correlation hints of an event, each hashed again. -/
def correlationHints (d : List (Key × Value)) : List Str :=
  hintKeys.filterMap fun key =>
    let hint := fun value =>
      C.token "temporal-hint".toList (key.toList ++ ":".toList ++ textOf C value) "hint".toList
    match getItem key.toList d with
    | .str s => some (hint (.str s))
    | .int n => some (hint (.int n))
    | .bool b => some (hint (.bool b))
    | _ => none

/-- What the digest of an event's evidence covers. -/
def evidence (event : Event) (kind : Kind) : List (Str × Value) :=
  [("module_token".toList, .str (C.token "temporal-module".toList event.module "source".toList)),
    ("kind".toList, .str kind.text), ("code".toList, .str (codeOf C event.fields)),
    ("classification".toList, .str (classificationOf C event.fields)),
    ("observed_at".toList, .float event.ts),
    ("event_auth".toList,
      .str (if event.hmacSig = [] then "unarmed".toList else event.hmacSig.take 64)),
    ("hints".toList, .list (((correlationHints C event.fields).insertionSort (· ≤ ·)).map .str))]

/-- `prepare_event`; the grade is none when it is not admitted. -/
def prepareEvent (now : Double) (event : Event) (integrityVerified : Bool) (grade : Option Grade) :
    Except Rejected (Option Signal) := do
  match classifyEvent C event with
  | none => .ok none
  | some kind =>
    match event.ts with
    | .finite stamp =>
      if stale now (.finite stamp) then .error ⟨"stale-or-future-temporal-evidence"⟩
      else if ¬integrityVerified then .error ⟨"event-authentication-failed"⟩
      else
        match grade with
        | none => .error ⟨"event-provenance-grade-invalid"⟩
        | some grade =>
          let text ← canonical C (record (evidence C event kind))
          let signal : Signal := ⟨kind, .finite stamp, C.digest text,
            C.token "temporal-module".toList event.module "source".toList, grade, []⟩
          let attestation ← attestSignal C signal
          .ok (some { signal with attestation })
    | _ => .error ⟨"stale-or-future-temporal-evidence"⟩

/-! ### Gaps -/

/-- The call ends with an assessment, once it has saved. -/
def World.assess (findings : List Finding) (reason : String) :
    Except Rejected Unit × World → Except Rejected Assessment × World
  | (.ok (), w) => (.ok (w.engine.assessment findings reason), w)
  | (.error e, w) => (.error e, w)

def noSequence : String := "no complete temporal tradecraft sequence"

/-- A reason at the end of the bounded ones, unless it is among them. -/
def noteReason (reason : Str) (reasons : List Str) : List Str :=
  if reason ∈ reasons then reasons else History.push maxReasons reasons reason

/-- `str(reason).strip()[:96]`. -/
def cleaned (reason : Str) : Str := (strip reason).take 96

/-- `mark_missing`, at time `now`. -/
def World.markMissing (reason : Str) (now : Double) (fails : Bool) (w : World) :
    Except Rejected Assessment × World :=
  let reason := if cleaned reason = [] then "unspecified-evidence-gap".toList else cleaned reason
  let e := { w.engine with
    missingSince := some (w.engine.missingSince.getD now)
    missingReasons := noteReason reason w.engine.missingReasons }
  let changed : Bool := (w.engine.missingSince, w.engine.missingReasons) ≠
    (e.missingSince, e.missingReasons)
  World.assess [] noSequence
    (if changed then { w with engine := e }.save C fails else (.ok (), { w with engine := e }))

/-- The token a blind source is kept under. -/
def sensorToken (source : Str) : Str :=
  if isToken source then source else C.token "temporal-blind".toList source "sensor".toList

/-- `mark_blind`. -/
def World.markBlind (source reason : Str) (fails : Bool) (w : World) :
    Except Rejected Assessment × World :=
  let e := { w.engine with
    blindSources := insert (sensorToken C source) w.engine.blindSources
    missingReasons :=
      if cleaned reason = [] then w.engine.missingReasons
      else noteReason (cleaned reason) w.engine.missingReasons }
  let changed : Bool := (w.engine.blindSources, w.engine.missingReasons) ≠
    (e.blindSources, e.missingReasons)
  World.assess [] noSequence
    (if changed then { w with engine := e }.save C fails else (.ok (), { w with engine := e }))

/-- `mark_recovered`. -/
def World.markRecovered (source : Str) (fails : Bool) (w : World) :
    Except Rejected Assessment × World :=
  let token := sensorToken C source
  let e := { w.engine with blindSources := w.engine.blindSources.erase token }
  World.assess [] "sensor recovery recorded; prior gaps remain explicit"
    (if token ∈ w.engine.blindSources then { w with engine := e }.save C fails
      else (.ok (), { w with engine := e }))

/-- `mark_overflow`. -/
def World.markOverflow (dropped : ℤ) (now : Double) (fails : Bool) (w : World) :
    Except Rejected Assessment × World :=
  let e := { w.engine with
    dropped := w.engine.dropped + (max 1 dropped).toNat
    overflowAt := some now }
  World.assess [] noSequence ({ w with engine := e }.save C fails)

/-- `tick`. -/
def World.tick (now : Double) (fails : Bool) (w : World) : Except Rejected Assessment × World :=
  let e := w.engine.prune C now
  let changed : Bool := ¬(e.signals.length = w.engine.signals.length ∧
    e.missingSince = w.engine.missingSince ∧ e.overflowAt = w.engine.overflowAt ∧
    e.missingReasons = w.engine.missingReasons)
  World.assess [] noSequence
    (if changed then { w with engine := e }.save C fails else (.ok (), { w with engine := e }))

/-! ### Observing -/

def gradeOf (selected : List Signal) : Grade :=
  if selected.all (·.evidenceGrade = .brokerProvenanced) then .brokerProvenanced
  else if selected.all fun s =>
      s.evidenceGrade = .brokerProvenanced ∨ s.evidenceGrade = .schemaAdmittedLocal then
    .schemaAdmittedLocal
  else .unprovenanced

def Pattern.finding (p : Pattern) (selected : List Signal) : Finding :=
  let grade := gradeOf selected
  { patternId := p.patternId
    severity := if grade = .brokerProvenanced then p.severity else "Medium".toList
    summary := p.summary
    startedAt := ((selected.head?).map (·.observedAt)).getD .nan
    endedAt := ((selected.getLast?).map (·.observedAt)).getD .nan
    signalKinds := selected.map (·.kind)
    evidenceDigests := selected.map (·.evidenceDigest)
    evidenceGrade := grade }

/-- `pattern.pattern_id + ":" + selected[-1].evidence_digest`. -/
def Pattern.matchId (p : Pattern) (selected : List Signal) : Str :=
  p.patternId ++ ":".toList ++ ((selected.getLast?).map (·.evidenceDigest)).getD []

/-- One pattern of the loop of `observe`. -/
def report (signals : List Signal) (acc : List Str × List Finding) (p : Pattern) :
    List Str × List Finding :=
  let selected := scan p.steps signals
  if selected.length ≠ p.steps.length then acc
  else if p.matchId selected ∈ acc.1 then acc
  else (History.push maxMatches acc.1 (p.matchId selected), acc.2 ++ [p.finding selected])

/-- The engine that has appended a signal and dropped what is over its limit. -/
def Engine.append (signal : Signal) (now : Double) (e : Engine) : Engine :=
  let signals := e.signals ++ [signal]
  if C.signalLimit < signals.length then
    { e with signals := signals.tail, dropped := e.dropped + 1, overflowAt := some now }
  else { e with signals }

/-- The engine that has admitted a signal, and the findings. -/
def Engine.admitEvent (signal : Signal) (now : Double) (e : Engine) : Engine × List Finding :=
  let e := (e.append C signal now).prune C now
  let (matched, findings) := patterns.foldl (report e.signals) (e.matched, [])
  ({ e with matched }, findings)

/-- `observe`. -/
def World.observe (signal : Signal) (now : Double) (fails : Bool) (w : World) :
    Except Rejected Assessment × World :=
  match attestSignal C signal with
  | .error e => (.error e, w)
  | .ok attestation =>
    if signal.attestation ≠ attestation then
      w.markBlind C signal.sourceToken "signal-authentication-failed".toList fails
    else if stale now signal.observedAt then
      w.markMissing C "stale-or-future-temporal-evidence".toList now fails
    else if w.engine.signals.any fun s => s.evidenceDigest = signal.evidenceDigest then
      World.assess [] "duplicate temporal evidence was ignored" (.ok (), w)
    else if w.engine.signals.getLast?.any fun s => before signal.observedAt s.observedAt then
      w.markMissing C "non-monotonic-temporal-evidence".toList now fails
    else
      let (e, findings) := w.engine.admitEvent C signal now
      World.assess findings noSequence ({ w with engine := e }.save C fails)

/-- `observe_event`; the clock is read once for the event and once for what follows. -/
def World.observeEvent (event : Event) (integrityVerified : Bool) (grade : Option Grade)
    (now later : Double) (fails : Bool) (w : World) : Except Rejected Assessment × World :=
  match prepareEvent C now event integrityVerified grade with
  | .error e =>
    if e.message = "event-authentication-failed" then
      w.markBlind C event.module e.message.toList fails
    else w.markMissing C e.message.toList later fails
  | .ok none => World.assess [] noSequence (.ok (), w)
  | .ok (some signal) => w.observe C signal later fails

/-! ### Runs -/

inductive Call where
  | observe (signal : Signal) (now : Double)
  | observeEvent (event : Event) (integrityVerified : Bool) (grade : Option Grade)
      (now later : Double)
  | markMissing (reason : Str) (now : Double)
  | markBlind (source reason : Str)
  | markRecovered (source : Str)
  | markOverflow (dropped : ℤ) (now : Double)
  | tick (now : Double)

/-- A call; its write of the state, if it makes one, may fail. -/
def World.exec (fails : Bool) (w : World) : Call → Except Rejected Assessment × World
  | .observe signal now => w.observe C signal now fails
  | .observeEvent event verified grade now later =>
    w.observeEvent C event verified grade now later fails
  | .markMissing reason now => w.markMissing C reason now fails
  | .markBlind source reason => w.markBlind C source reason fails
  | .markRecovered source => w.markRecovered C source fails
  | .markOverflow dropped now => w.markOverflow C dropped now fails
  | .tick now => w.tick C now fails

def World.Step (w : World) (label : Call × Bool) (w' : World) : Prop :=
  (w.exec C label.2 label.1).2 = w'

/-- A new engine on a path without a state file. -/
def World.start (now : Double) : World := ⟨.fresh now, none, none⟩

/-- A signal whose attestation holds was prepared from an event. -/
def Genuine (signal : Signal) : Prop :=
  attestSignal C signal = .ok signal.attestation →
    ∃ now event verified grade, prepareEvent C now event verified grade = .ok (some signal)

/-- The signals observed directly were prepared from events: the tag of a signal cannot be forged. -/
def Admitted (_ : World) (label : Call × Bool) : Prop :=
  match label.1 with
  | .observe signal _ => Genuine C signal
  | _ => True

end Calls

end Angerona.Temporal
