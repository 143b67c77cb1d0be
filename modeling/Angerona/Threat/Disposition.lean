import Mathlib
import Angerona.Threat.Contracts

/-!
    The disposition of an event, `event_disposition` of `core/threat.py`.

    The cascade asks for practice first, then for notices about the suite itself, by module and by the
    text of the message, and only then for explicit evidence of an attack. The message is read in two
    places, by the health markers and by the one notice of a source run; `disposition_congr` says
    that a disposition depends on the message through these two only. -/

namespace Angerona.Threat
open Text PyJson Bus

structure Event where
  module : Str
  message : Str
  severity : Severity
  details : Value

/-- What the classifier asks of the rest of the process. -/
structure Host where
  /-- `str.lower`. -/
  lower : Str → Str
  /-- `str.casefold`. -/
  casefold : Str → Str
  python : Interpreter
  /-- `is_practice_event`; `none` when it raises. -/
  isPracticeEvent : Event → Option Bool
  /-- `is_self_ioc`; `none` when it cannot be imported. -/
  isSelfIoc : Option (Str → Bool)

inductive Disposition where
  | practice
  | health
  | observation
  | active
  | exposure
  | informational
  deriving DecidableEq

/-- `details if isinstance(details, dict) else {}`. -/
def Event.items (event : Event) : Details :=
  match event.details with
  | .dict items => items
  | _ => []

/-- `_META_MODULES`. -/
def metaModules : List String :=
  ["Self-Test", "Status", "Console", "Watchdog Monitor", "Resilience Supervisor", "Resilience Manager",
    "Evolution Engine", "CHAOS", "AI Triage (Ollama)", "Speculative Triage Pre-Warm",
    "Scheduled AI Security Briefing", "Cloud CTI Escalation", "HEAL", "SOAR Automation",
    "Active Response SOAR", "Adversary Combat"]

/-- `_HEALTH_MARKERS`. -/
def healthMarkers : List String :=
  ["quarantined after", "keeps crashing", "left down after", "sensor blind", "entered safe_mode",
    "pipeline regression", "could not catch", "manual signature work", "restarts; manual attention",
    "module crashed (attempt", "module failed to start", "module unavailable"]

/-- `_PRACTICE_MODULES`. -/
def practiceModules : List String :=
  ["chaos", "red team", "red team simulation", "shark attack", "red team practice lab",
    "telemetry canary drills"]

/-- `_EXPOSURE_MODULES`. -/
def exposureModules : List String :=
  ["upstream threat intel sync", "vulnerability assessment", "vulnerability scanner", "cisa kev"]

/-- `_EXPOSURE_KINDS`. -/
def exposureKinds : List String := ["exposure", "passive_vulnerability", "vulnerability_assessment"]

/-- `_EXPOSURE_EVENT_TYPES`. -/
def exposureEventTypes : List String :=
  ["usb_approval_required", "usb_approval_decision", "usb_approval_rejected", "usb_autorun_policy",
    "usb_media_removed", "usb_media_risk", "usb_pin_lockout"]

/-- `text in texts`. -/
def among (text : Str) (texts : List String) : Bool := texts.any fun t => t.toList = text

namespace Host

variable (H : Host)

/-- `_is_health_noise`. -/
def isHealthNoise (message : Str) : Bool :=
  healthMarkers.any fun marker => occurs marker.toList (H.lower message)

/-- `str(event.module or "").strip().casefold()`. -/
def moduleKey (event : Event) : Str := H.casefold (strip event.module)

/-- A host name of the details that the suite made up itself. -/
def namesSelfIoc (event : Event) : Bool :=
  match H.isSelfIoc with
  | none => false
  | some known =>
    ["qname", "domain", "host", "origin_message"].any fun key =>
      match event.items.item key with
      | .str s => known s
      | _ => false

/-- `_is_self_or_drill`. -/
def isSelfOrDrill (event : Event) : Bool :=
  (H.isPracticeEvent event).getD false || among (H.moduleKey event) practiceModules ||
    H.namesSelfIoc event

/-- `str(details.get(name) or "").strip().casefold()`. -/
def label (details : Details) (name : String) : Str :=
  let value := details.item name
  H.casefold (strip (if truthy value then H.python.str value else []))

/-- `int(details.get("eid", 0))`, with 0 for a value that is no number. -/
def defenderEid (details : Details) : Except PyError ℤ :=
  match H.python.int (getOr "eid".toList (.int 0) details) with
  | .ok n => .ok n
  | .error .overflow => .error .overflow
  | .error _ => .ok 0

/-- The notices that a lexical score alone made. -/
def lexicalScore (severity : Severity) (details : Details) (module : Str) : Bool :=
  module = "network protocol deep decoder".toList && severity.rank ≤ Severity.high.rank &&
    isText (details.item "verdict") "DGA/tunneling-suspect" && isTrue (details.item "suspicious") &&
    isStr (details.item "qname") && isList (details.item "reasons")

/-- The notices of Defender about itself. -/
def defenderHealth (details : Details) (eid : ℤ) : Bool :=
  eid = 1117 || eid = 5001 ||
    (H.label details "disposition" = "health".toList && isFalse (details.item "continuity_complete") &&
      isFalse (details.item "response_authorized") &&
      "defender.".toList.isPrefixOf (H.python.str (getOr "reason_code".toList (.str []) details)))

/-- The part of `event_disposition` after the notices of Defender. -/
def posture (event : Event) : Disposition :=
  let details := event.items
  let module := H.moduleKey event
  if module = "kernel-boundary posture ledger".toList && isTrue (details.item "user_mode_observation") &&
      isList (details.item "risks") && isStr (details.item "evidence_sha256") then .exposure
  else if among module exposureModules || among (H.label details "disposition") exposureKinds ||
      among (H.label details "finding_kind") exposureKinds ||
      among (H.label details "event_type") exposureEventTypes ||
      among (H.label details "source") ["cisa_kev", "cisa-kev", "vulnerability_assessment"] then
    .exposure
  else if platformPostureOnly event.severity details module ||
      releaseSourcePostureOnly event.severity event.message details module then .exposure
  else if legacyPersistenceBaseline event.severity details module then .observation
  else if Severity.high.rank ≤ event.severity.rank then .active
  else .informational

/-- The part of `event_disposition` after the explicit evidence. -/
def passive (event : Event) : Except PyError Disposition :=
  let details := event.items
  let module := H.moduleKey event
  if unavailableCollectionHealth event.severity details module || collectionHealth details module ||
      coverageHealth details module then .ok .health
  else if H.label details "disposition" = "observation".toList then .ok .observation
  else if lexicalScore event.severity details module then .ok .observation
  else if module = "posture hardening".toList &&
      H.label details "finding_kind" = "practice_gap".toList &&
      among (H.label details "source") ["redteam", "shark"] then .ok .practice
  else if isTrue (details.item "hardening") then .ok .exposure
  else if module = "av telemetry bridge".toList then
    (H.defenderEid details).map fun eid =>
      if H.defenderHealth details eid then .health else H.posture event
  else .ok (H.posture event)

/-- `details.get("active_exploitation") is True or details.get("active_attack") is True`. -/
def activeEvidence (details : Details) : Bool :=
  isTrue (details.item "active_exploitation") || isTrue (details.item "active_attack")

/-- `event_disposition`. -/
def eventDisposition (event : Event) : Except PyError Disposition :=
  if H.isSelfOrDrill event then .ok .practice
  else if among event.module metaModules || H.isHealthNoise event.message then .ok .health
  else if legacyIndicatorOnly event.severity event.items (H.moduleKey event) then .ok .observation
  else if activeEvidence event.items then .ok .active
  else H.passive event

end Host

/-! ### Messages -/

section Messages

variable {H : Host} {event : Event} {message : Str}

/-- An event with explicit evidence of an attack that nothing but its message can explain away. -/
structure Host.Attack (H : Host) (event : Event) : Prop where
  detector : among event.module metaModules = false
  real : among (H.moduleKey event) practiceModules = false
  unregistered : H.isPracticeEvent event ≠ some true
  foreign : H.namesSelfIoc event = false
  evidence : Host.activeEvidence event.items = true
  strong : legacyIndicatorOnly event.severity event.items (H.moduleKey event) = false

/-- The health markers come before the evidence. -/
theorem Host.Attack.disposition (h : H.Attack event) :
    H.eventDisposition event =
      .ok (if H.isHealthNoise event.message then .health else .active) := by
  have hregistered : (H.isPracticeEvent event).getD false = false := by
    rcases hcase : H.isPracticeEvent event with _ | _ | _
    · rfl
    · rfl
    · exact absurd hcase h.unregistered
  have hdrill : H.isSelfOrDrill event = false := by
    rw [Host.isSelfOrDrill, hregistered, h.real, h.foreign]
    rfl
  rw [Host.eventDisposition, hdrill, h.detector, h.evidence, h.strong]
  cases H.isHealthNoise event.message
  · rfl
  · rfl

end Messages

/-- CORRECT: an attack is active exactly when its message has no health marker, and two messages give
    it one disposition exactly when both or neither have one. -/
theorem eventDisposition_message (H : Host) (event : Event) (h : H.Attack event) :
    (H.eventDisposition event = .ok .active ↔ H.isHealthNoise event.message = false) ∧
      ∀ message, H.Attack { event with message := message } →
        (H.eventDisposition { event with message := message } = H.eventDisposition event ↔
          H.isHealthNoise message = H.isHealthNoise event.message) := by
  rw [h.disposition]
  refine ⟨by cases H.isHealthNoise event.message <;> simp, fun message hother => ?_⟩
  rw [hother.disposition]
  cases H.isHealthNoise message <;> cases H.isHealthNoise event.message <;> simp

/-- A host without a drill. -/
def quietHost : Host where
  lower := List.map Char.toLower
  casefold := List.map Char.toLower
  python := ⟨fun _ => [], fun _ => [], fun _ => none, fun _ => none⟩
  isPracticeEvent _ := some false
  isSelfIoc := some fun _ => false

/-- A detection that quotes a text. -/
def detection (quoted : String) : Event where
  module := "Process Guard".toList
  message := ("Credential dump by " ++ quoted).toList
  severity := .critical
  details := .dict [(.str "active_attack".toList, .bool true)]

theorem attack_detection (quoted : String) : quietHost.Attack (detection quoted) := by
  have hblank : quietHost.Attack (detection "") :=
    ⟨by decide +kernel, by decide +kernel, by decide +kernel, by decide +kernel, by decide +kernel,
      by decide +kernel⟩
  exact ⟨hblank.detector, hblank.real, hblank.unregistered, hblank.foreign, hblank.evidence,
    hblank.strong⟩

theorem eventDisposition_message_quoted :
    quietHost.eventDisposition (detection "lsass.exe") = .ok .active :=
  (eventDisposition_message quietHost (detection "lsass.exe")
    (attack_detection "lsass.exe")).1.mpr (by decide +kernel)

/-- A quoted name that reads like a notice of the suite takes the detection out of the active ones. -/
theorem detection_hidden :
    quietHost.Attack (detection "lsass.exe") ∧ quietHost.Attack (detection "could not catch.exe") ∧
      quietHost.eventDisposition (detection "lsass.exe") = .ok .active ∧
      quietHost.eventDisposition (detection "could not catch.exe") = .ok .health := by
  refine ⟨attack_detection _, attack_detection _, ?_, ?_⟩
  · rw [(attack_detection _).disposition]
    decide +kernel
  · rw [(attack_detection _).disposition]
    decide +kernel

end Angerona.Threat
