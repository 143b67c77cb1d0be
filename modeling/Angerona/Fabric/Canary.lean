import Angerona.Fabric.Intake

/-!
    Rollouts: staging, the start of the canary and its evaluation.

    The evaluation looks at the newest evidence of each canary only. The other operations of the
    tenant do to these tables what is listed as `Call`; a run is any sequence of them. -/

namespace Angerona.Fabric
open Text Raising

variable (s : FleetFabricStore)

/-- A transaction that reads the clock first; the clock floor stays advanced when it fails. -/
def Tenant.atNow {α : Type} (f : Tenant) (clock : ℚ)
    (body : Tenant → ℚ → Except FabricError (Tenant × α)) : Tenant × Except FabricError α :=
  match f.peekNow clock with
  | .error e => (f, .error e)
  | .ok stamp =>
    match body (f.advance stamp) stamp with
    | .error e => (f.advance stamp, .error e)
    | .ok (f', a) => (f', .ok a)

/-- `_active_device_roster_locked`. -/
def Tenant.active (f : Tenant) (deviceId : Str) : Bool := (f.roster.get? deviceId).isSome

def Tenant.inactive (f : Tenant) (plan : FleetRolloutPlan) : ℕ :=
  plan.targetDeviceIds.countP fun d => ¬f.active d

/-- The states that `_prune_rollout_locked` deletes. -/
def RolloutState.closed : RolloutState → Bool
  | .completed | .cancelled | .halted => true
  | .staged | .canary | .generalReady => false

/-- `_prune_rollout_locked`: the closed rollout that was updated first. -/
def Tenant.pruneRollout (f : Tenant) : Except FabricError (Dict Str Rollout) :=
  match (f.rollouts.items.filter fun r => r.2.state.closed).insertionSort fun a b =>
      (toLex (a.2.updatedAt, a.1) : ℚ ×ₗ Str) ≤ toLex (b.2.updatedAt, b.1) with
  | [] => .error (.overflow "rollout store is full of active plans")
  | r :: _ => .ok (f.rollouts.erase r.1)

/-- The room that a new rollout finds. -/
def FleetFabricStore.rolloutRoom (f : Tenant) : Except FabricError (Dict Str Rollout) :=
  if s.maxRollouts ≤ f.rollouts.size then f.pruneRollout else .ok f.rollouts

def FleetFabricStore.stageTransaction (plan : FleetRolloutPlan) (f : Tenant) (stamp : ℚ) :
    Except FabricError (Tenant × Unit) :=
  if stamp < plan.createdAt then
    .error (.value "rollout creation time may not be in the future")
  else if 0 < f.inactive plan then
    .error (.permission
      ("rollout contains " ++ toString (f.inactive plan) ++ " device(s) not enrolled in this tenant"))
  else
    (s.rolloutRoom f).bind fun rollouts =>
      if (rollouts.get? plan.rolloutId).isSome then .error (.value "rollout ID is already in use")
      else
        let record : Rollout := ⟨plan, .staged, 1, "awaiting explicit canary start", stamp, 0, 0⟩
        .ok ({ f with rollouts := rollouts.set plan.rolloutId record }, ())

/-- `stage_rollout`. -/
def FleetFabricStore.stageRollout (f : Tenant) (clock : ℚ) (plan : FleetRolloutPlan) :
    Tenant × Except FabricError Unit :=
  if plan.tenantId ≠ s.tenantId then (f, .error (.permission "tenant is not authorized"))
  else f.atNow clock (s.stageTransaction plan)

/-- A transaction on one rollout, after the checks of its arguments. -/
def Tenant.onRollout {α : Type} (f : Tenant) (clock : ℚ) (rolloutId desired : Str)
    (body : Tenant → ℚ → Except FabricError (Tenant × α)) : Tenant × Except FabricError α :=
  if ¬isIdentifier rolloutId then (f, .error (.value "invalid rollout ID"))
  else if ¬isDigest desired then (f, .error (.value "invalid desired policy hash"))
  else f.atNow clock body

/-- `_load_rollout_locked` and the checks that follow it. -/
def Tenant.loadRollout (f : Tenant) (rolloutId : Str) (expectedVersion : ℕ) (state : RolloutState)
    (wrongState : String) (desired : Str) : Except FabricError Rollout :=
  match f.rollouts.get? rolloutId with
  | none => .error .key
  | some current =>
    if current.version ≠ expectedVersion then .error (.runtime "rollout version conflict")
    else if current.state ≠ state then .error (.value wrongState)
    else if current.plan.desiredPolicyHash ≠ desired then
      .error (.permission "rollout desired policy binding mismatch")
    else .ok current

/-- The rollout after its canary was started. -/
def started (current : Rollout) (stamp : ℚ) : Rollout :=
  { current with
    state := .canary
    version := current.version + 1
    reason := "canary observation in progress; no dispatch authority"
    updatedAt := stamp
    canaryStartedAt := stamp
    canaryGeneration := current.canaryGeneration + 1 }

def startTransaction (rolloutId : Str) (expectedVersion : ℕ) (desired : Str) (f : Tenant)
    (stamp : ℚ) : Except FabricError (Tenant × Unit) :=
  (f.loadRollout rolloutId expectedVersion .staged "rollout is not staged" desired).bind
    fun current =>
      if 0 < f.inactive current.plan then
        .error (.permission ("rollout activation contains " ++
          toString (f.inactive current.plan) ++ " inactive device(s)"))
      -- `_rollout_record`
      else if stamp ≤ 0 then .error (.value "activated rollout requires a canary generation")
      else .ok ({ f with rollouts := f.rollouts.set rolloutId (started current stamp) }, ())

/-- `start_canary`. -/
def Tenant.startCanary (f : Tenant) (clock : ℚ) (rolloutId : Str) (expectedVersion : ℕ)
    (desired : Str) : Tenant × Except FabricError Unit :=
  f.onRollout clock rolloutId desired (startTransaction rolloutId expectedVersion desired)

/-! ### Evaluation -/

def finding (b : Prop) [Decidable b] (reason : String) : List String := if b then [reason] else []

/-- The reasons against a canary's newest evidence. -/
def FleetFabricStore.canaryReasons (current : Rollout) (evaluatedAt : ℚ)
    (e : FleetHealthEvidence) : List String :=
  let plan := current.plan
  let sample := e.sample
  let freshnessFloor := s.difference evaluatedAt s.healthFreshness
  finding (sample.observedAt < freshnessFloor ∨ e.recordedAt < freshnessFloor)
    "canary health evidence exceeds the freshness SLA" ++
  finding (sample.rolloutId ≠ plan.rolloutId ∨ sample.rolloutGeneration ≠ current.canaryGeneration)
    "health evidence canary generation binding mismatch" ++
  finding (sample.desiredPolicyHash ≠ plan.desiredPolicyHash)
    "health evidence desired-policy binding mismatch" ++
  finding (sample.effectivePolicyHash ≠ plan.desiredPolicyHash)
    "effective policy does not match desired policy" ++
  finding (sample.healthPercent < plan.minimumHealthPercent)
    ("health " ++ toString sample.healthPercent ++ "% is below " ++
      toString plan.minimumHealthPercent ++ "%") ++
  finding (sample.droppedSincePrevious ≠ 0)
    (toString sample.droppedSincePrevious ++ " health event(s) were lost") ++
  finding (e.sequenceGap ≠ 0)
    ("health evidence sequence contains " ++ toString e.sequenceGap ++ " gap(s)") ++
  finding (sample.queueCapacity * 80 ≤ sample.queueDepth * 100)
    ("health queue backpressure is " ++ toString sample.queueDepth ++ "/" ++
      toString sample.queueCapacity)

/-- The finding of `_canary_findings_locked` for one canary. -/
def FleetFabricStore.canaryFinding (f : Tenant) (current : Rollout) (evaluatedAt : ℚ)
    (deviceId : Str) : Option CanaryFinding :=
  if ¬f.active deviceId then
    some ⟨deviceId, "device is no longer active in the authoritative enrolled roster", []⟩
  else
    match f.heads.get? deviceId with
    | none => some ⟨deviceId, "no post-activation canary health evidence", []⟩
    | some e =>
      if e.sample.observedAt < current.canaryStartedAt ∨ e.recordedAt < current.canaryStartedAt then
        some ⟨deviceId, "no post-activation canary health evidence", []⟩
      else if evaluatedAt < e.sample.observedAt ∨ evaluatedAt < e.recordedAt then
        some ⟨deviceId, "health evidence is outside the canary activation window", []⟩
      else
        match s.canaryReasons current evaluatedAt e with
        | [] => none
        | reasons => some ⟨deviceId, "; ".intercalate reasons, e.sample.effectivePolicyHash⟩

/-- `_canary_findings_locked`. -/
def FleetFabricStore.canaryFindings (f : Tenant) (current : Rollout) (evaluatedAt : ℚ) :
    List CanaryFinding :=
  current.plan.canaryDeviceIds.filterMap (s.canaryFinding f current evaluatedAt)

structure RolloutEvaluation where
  rolloutId : Str
  desiredPolicyHash : Str
  state : RolloutState
  version : ℕ
  evaluatedAt : ℚ
  canaryStartedAt : ℚ
  canaryGeneration : ℕ
  findings : List CanaryFinding

/-- The rollout after an evaluation. -/
def evaluated (current : Rollout) (stamp : ℚ) (findings : List CanaryFinding) : Rollout :=
  let ready : Bool := findings.length ≤ current.plan.maxCanaryFailures
  { current with
    state := if ready then .generalReady else .halted
    version := current.version + 1
    reason := if ready then
        "canary evidence meets the declared health gate; general rollout remains proposal-only"
      else "canary halted: " ++ toString findings.length ++ " finding(s) exceed failure budget " ++
        toString current.plan.maxCanaryFailures
    updatedAt := stamp }

/-- What `evaluate_canary` answers. -/
def evaluation (rolloutId desired : Str) (current : Rollout) (stamp : ℚ)
    (findings : List CanaryFinding) : RolloutEvaluation :=
  let next := evaluated current stamp findings
  ⟨rolloutId, desired, next.state, next.version, stamp, current.canaryStartedAt,
    current.canaryGeneration, findings⟩

def FleetFabricStore.evaluateTransaction (rolloutId : Str) (expectedVersion : ℕ) (desired : Str)
    (f : Tenant) (stamp : ℚ) : Except FabricError (Tenant × RolloutEvaluation) :=
  (f.loadRollout rolloutId expectedVersion .canary "rollout is not in canary observation"
    desired).bind fun current =>
      if stamp < current.canaryStartedAt then
        .error (.runtime "fleet fabric clock predates canary activation")
      else
        let findings := s.canaryFindings f current stamp
        let next := evaluated current stamp findings
        .ok ({ f with rollouts := f.rollouts.set rolloutId next },
          evaluation rolloutId desired current stamp findings)

/-- `evaluate_canary`. -/
def FleetFabricStore.evaluateCanary (f : Tenant) (clock : ℚ) (rolloutId : Str)
    (expectedVersion : ℕ) (desired : Str) : Tenant × Except FabricError RolloutEvaluation :=
  f.onRollout clock rolloutId desired (s.evaluateTransaction rolloutId expectedVersion desired)

/-! ### Runs -/

inductive Call where
  | recordHealth (i : Surroundings) (envelope : SignedFleetHealthEnvelope)
  | stageRollout (clock : ℚ) (plan : FleetRolloutPlan)
  | startCanary (clock : ℚ) (rolloutId : Str) (expectedVersion : ℕ) (desired : Str)
  | evaluateCanary (clock : ℚ) (rolloutId : Str) (expectedVersion : ℕ) (desired : Str)
  /-- A device is enrolled, or is no longer active. -/
  | roster (clock : ℚ) (deviceId : Str) (binding : Option DeviceBinding)
  /-- The process ends and the store is opened again. -/
  | restart

/-- The tenant; all evidence that was ever accepted, oldest first; and how much of it there was when
    the canary of a rollout was started. -/
structure World where
  tenant : Tenant
  accepted : List FleetHealthEvidence
  starts : Dict Str ℕ

def World.initial : World := ⟨.empty, [], .empty⟩

/-- Only evidence that is not stored yet is accepted. -/
def FleetFabricStore.record (w : World) (i : Surroundings) (envelope : SignedFleetHealthEnvelope) :
    World :=
  match s.recordHealth w.tenant i envelope with
  | .error _ => w
  | .ok (f, e) =>
    if (w.tenant.records.get? e.rowKey).isSome then { w with tenant := f }
    else { w with tenant := f, accepted := w.accepted ++ [e] }

def World.start (w : World) (clock : ℚ) (rolloutId : Str) (expectedVersion : ℕ) (desired : Str) :
    World :=
  match w.tenant.startCanary clock rolloutId expectedVersion desired with
  | (f, .error _) => { w with tenant := f }
  | (f, .ok _) => { w with tenant := f, starts := w.starts.set rolloutId w.accepted.length }

def Tenant.enrol (deviceId : Str) (binding : Option DeviceBinding) (f : Tenant) (_ : ℚ) :
    Except FabricError (Tenant × Unit) :=
  match binding with
  | some binding => .ok ({ f with roster := f.roster.set deviceId binding }, ())
  | none => .ok ({ f with roster := f.roster.erase deviceId }, ())

/-- Opening the store rebuilds the rate state from the retained evidence. -/
def FleetFabricStore.reopen (f : Tenant) : Tenant :=
  { f with
    cache := (s.healthRateStateFromRecords f.healthRetentionDrops f.records.values).toOption
    lastClock := none }

def FleetFabricStore.step (w : World) : Call → World
  | .recordHealth i envelope => s.record w i envelope
  | .stageRollout clock plan => { w with tenant := (s.stageRollout w.tenant clock plan).1 }
  | .startCanary clock rolloutId expectedVersion desired =>
    w.start clock rolloutId expectedVersion desired
  | .evaluateCanary clock rolloutId expectedVersion desired =>
    { w with tenant := (s.evaluateCanary w.tenant clock rolloutId expectedVersion desired).1 }
  | .roster clock deviceId binding =>
    { w with tenant := (w.tenant.atNow clock (Tenant.enrol deviceId binding)).1 }
  | .restart => { w with tenant := s.reopen w.tenant }

end Angerona.Fabric
