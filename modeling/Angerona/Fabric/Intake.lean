import Angerona.Fabric.Rate
import Angerona.Lib.QueueDrain

/-!
    The intake of health evidence: `record_health` and the pruning it may cause.

    A sample is accepted behind the newest evidence of its device, when the rates admit it. When more
    evidence is retained than the bound allows, the oldest of every device wait in a queue, in the
    order of its chain, and what is deleted is drained from these queues by the time that the devices
    claim; the newest evidence of a device is in none of them. -/

namespace Angerona.Fabric
open Text BucketReplay Raising

variable (s : FleetFabricStore)

/-! ### Pruning -/

/-- The order of a device's chain. -/
def chainKey (e : FleetHealthEvidence) : ℕ ×ₗ Str := toLex (e.sequence, e.sample.sampleId)

/-- The order of the heap. -/
def pruneKey (e : FleetHealthEvidence) : ℚ ×ₗ Str ×ₗ Str :=
  toLex (e.sample.observedAt, toLex (e.sample.deviceId, e.sample.sampleId))

/-- The retained evidence of a device in the order of its chain. -/
def deviceRows (d : Str) (records : List FleetHealthEvidence) : List FleetHealthEvidence :=
  (ofDevice d records).insertionSort fun a b => chainKey a ≤ chainKey b

/-- `candidates_by_device`: the newest evidence of a device is none. -/
def candidates (records : List FleetHealthEvidence) (heads : Dict Str FleetHealthEvidence) :
    List (List FleetHealthEvidence) :=
  heads.items.map fun h => (deviceRows h.1 records).dropLast

/-- The retained evidence and the heads belong to the same devices, and the last evidence of each is
    its head. -/
def FleetFabricStore.snapshotAgrees (records : List FleetHealthEvidence)
    (heads : Dict Str FleetHealthEvidence) : Bool :=
  records.all (fun e => (heads.get? e.sample.deviceId).isSome) ∧
    heads.items.all fun h =>
      (deviceRows h.1 records).getLast?.map s.digest = some (s.digest h.2)

/-- `_prune_health_locked`: the evidence to delete. -/
def FleetFabricStore.pruneHealth (records : List FleetHealthEvidence)
    (heads : Dict Str FleetHealthEvidence) : Except FabricError (List FleetHealthEvidence) :=
  let excess := records.length - s.maxHealth
  if excess = 0 then .ok []
  else if records.any fun e => e.sample.tenantId ≠ s.tenantId then
    .error (.runtime "verified health transaction state is invalid")
  else if ¬s.snapshotAgrees records heads then
    .error (.runtime "verified health transaction snapshot changed unexpectedly")
  else if (candidates records heads).flatten.length < excess then
    .error (.overflow "health evidence bound cannot discard authenticated device chain heads")
  else
    match QueueDrain.drain pruneKey excess (candidates records heads) with
    | none => .error (.overflow "health evidence bound cannot preserve retained chain continuity")
    | some selected => .ok selected

/-! ### Recording -/

/-- The gap that an envelope leaves behind the head of its device's chain. -/
def FleetFabricStore.chainGap (head : Option FleetHealthEvidence) (p : HealthPayload) :
    Except FabricError ℕ :=
  match head with
  | none =>
    if p.sequence ≠ 1 ∨ p.previousEvidenceDigest ≠ zeroDigest then
      .error (.permission "first health envelope must start a new chain")
    else if p.sample.droppedSincePrevious ≠ p.sample.droppedTotal then
      .error (.value "first health loss delta must equal its cumulative loss")
    else .ok 0
  | some head =>
    if head.bindingGeneration ≠ p.bindingGeneration then
      .error (.permission "health chain binding generation mismatch")
    else if p.sequence ≤ head.sequence then
      .error (.permission "health sequence is stale or replayed")
    else if p.previousEvidenceDigest ≠ s.digest head then
      .error (.permission "health history chain predecessor mismatch")
    else if p.sample.acceptedTotal < head.sample.acceptedTotal then
      .error (.value "health accepted_total counter regressed")
    else if p.sample.droppedTotal < head.sample.droppedTotal then
      .error (.value "health dropped_total counter regressed")
    else if p.sample.rejectedTotal < head.sample.rejectedTotal then
      .error (.value "health rejected_total counter regressed")
    else if p.sample.droppedSincePrevious ≠ p.sample.droppedTotal - head.sample.droppedTotal then
      .error (.value "health loss delta does not match cumulative history")
    else .ok (p.sequence - head.sequence - 1)

/-- The evidence that the store makes of an envelope. -/
def FleetFabricStore.evidenceOf (envelope : SignedFleetHealthEnvelope) (stamp : ℚ)
    (sequenceGap : ℕ) : FleetHealthEvidence :=
  let core : EvidenceCore :=
    { toHealthPayload := envelope.toHealthPayload
      recordedAt := stamp
      sequenceGap := sequenceGap
      deviceSignatureEd25519 := envelope.signatureEd25519 }
  { toEvidenceCore := core, evidenceHmac := s.hmac core }

/-- What a call of `record_health` finds outside the tables of the tenant. -/
structure Surroundings where
  clock : ℚ
  /-- Nothing was written since the cache was installed. -/
  cacheCurrent : Bool
  /-- The answer of `_reserve_volatile_health_rate_locked`. -/
  volatile : Except FabricError Unit

/-- The rate state that a new event is charged to. -/
def FleetFabricStore.verifiedRateState (f : Tenant) (cacheCurrent : Bool) :
    Except FabricError HealthRateState :=
  match f.cache with
  | some state =>
    if cacheCurrent then .ok state
    else s.healthRateStateFromRecords f.healthRetentionDrops f.records.values
  | none => s.healthRateStateFromRecords f.healthRetentionDrops f.records.values

/-- The tables after evidence was accepted and the selected evidence deleted. -/
def Tenant.commit (f : Tenant) (e : FleetHealthEvidence) (selected : List FleetHealthEvidence)
    (updated : HealthRateState) : Tenant :=
  { f.advance e.recordedAt with
    records := (f.records.set e.rowKey e).keep fun r => selected.all fun e => e.rowKey ≠ r.1
    heads := f.heads.set e.sample.deviceId e
    healthRetentionDrops := f.healthRetentionDrops + selected.length
    healthSequenceGaps := f.healthSequenceGaps + e.sequenceGap
    cache := some updated }

/-- `record_health`, once the envelope is known to be new. -/
def FleetFabricStore.accept (f : Tenant) (i : Surroundings) (envelope : SignedFleetHealthEnvelope)
    (stamp : ℚ) : Except FabricError (Tenant × FleetHealthEvidence) := do
  let deviceId := envelope.sample.deviceId
  let sequenceGap ← s.chainGap (f.heads.get? deviceId) envelope.toHealthPayload
  let verified ← s.verifiedRateState f i.cacheCurrent
  let updated ← s.admitPersistentHealthRate deviceId stamp verified
  let evidence := s.evidenceOf envelope stamp sequenceGap
  -- `MAX_HEALTH_EVIDENCE_BYTES`
  if 8 * 1024 < s.encodedBytes evidence then
    throw (.value "health evidence exceeds its storage byte budget")
  -- the columns of `fabric_health_heads`
  if 2 ^ 63 ≤ max (max evidence.bindingGeneration evidence.sequence)
      (max evidence.sample.acceptedTotal
        (max evidence.sample.droppedTotal evidence.sample.rejectedTotal)) then
    throw (.overflow "Python int too large to convert to SQLite INTEGER")
  let selected ← s.pruneHealth (f.records.set evidence.rowKey evidence).values
    (f.heads.set deviceId evidence)
  i.volatile
  return (f.commit evidence selected updated, evidence)

/-- `record_health`, once the time is known; an exact replay answers what is stored. -/
def FleetFabricStore.recordAt (f : Tenant) (i : Surroundings)
    (envelope : SignedFleetHealthEnvelope) (stamp : ℚ) :
    Except FabricError (Tenant × FleetHealthEvidence) :=
  let sample := envelope.sample
  if stamp < sample.observedAt then
    .error (.value "health observation may not be in the future")
  else
    match f.roster.get? sample.deviceId with
    | none =>
      .error (.permission "health sample device is not actively enrolled in this tenant")
    | some binding =>
      if binding.devicePublicKeySha256 ≠ sample.devicePublicKeySha256 ∨
          envelope.bindingGeneration ≠ binding.bindingGeneration then
        .error (.permission "health sample device binding mismatch")
      else if ¬s.verify binding.devicePublicKeyEd25519 envelope.signatureEd25519
          envelope.toHealthPayload then
        .error (.permission "health envelope device signature is invalid")
      else
        match f.records.get? (sample.deviceId, sample.sampleId) with
        | some stored =>
          if stored.toHealthPayload = envelope.toHealthPayload ∧
              stored.deviceSignatureEd25519 = envelope.signatureEd25519 then
            .ok (f, stored)
          else .error (.value "health sample ID conflicts with another observation")
        | none => s.accept f i envelope stamp

/-- `record_health`. -/
def FleetFabricStore.recordHealth (f : Tenant) (i : Surroundings)
    (envelope : SignedFleetHealthEnvelope) : Except FabricError (Tenant × FleetHealthEvidence) :=
  if envelope.sample.tenantId ≠ s.tenantId then .error (.permission "tenant is not authorized")
  else (f.peekNow i.clock).bind (s.recordAt f i envelope)

/-! ### What a call did -/

/-- New evidence was accepted. -/
structure Accepted (f : Tenant) (i : Surroundings)
    (envelope : SignedFleetHealthEnvelope) (f' : Tenant) (e : FleetHealthEvidence) : Prop where
  tenant : envelope.sample.tenantId = s.tenantId
  clock : f.clockFloor ≤ i.clock
  observed : envelope.sample.observedAt ≤ i.clock
  /-- The sample is not among those retained. -/
  fresh : f.records.get? e.rowKey = none
  gap : ∃ gap, s.chainGap (f.heads.get? envelope.sample.deviceId) envelope.toHealthPayload = .ok gap ∧
    e = s.evidenceOf envelope i.clock gap
  effect : ∃ verified updated selected,
    s.verifiedRateState f i.cacheCurrent = .ok verified ∧
    s.admitPersistentHealthRate e.sample.deviceId e.recordedAt verified = .ok updated ∧
    s.pruneHealth (f.records.set e.rowKey e).values (f.heads.set e.sample.deviceId e) =
      .ok selected ∧
    f' = f.commit e selected updated

variable {s} {f f' : Tenant} {i : Surroundings} {envelope : SignedFleetHealthEnvelope}
  {e : FleetHealthEvidence}

theorem accept_cases {stamp : ℚ} (h : s.accept f i envelope stamp = .ok (f', e)) :
    (∃ gap, s.chainGap (f.heads.get? envelope.sample.deviceId) envelope.toHealthPayload = .ok gap ∧
      e = s.evidenceOf envelope stamp gap) ∧
    ∃ verified updated selected,
      s.verifiedRateState f i.cacheCurrent = .ok verified ∧
      s.admitPersistentHealthRate e.sample.deviceId e.recordedAt verified = .ok updated ∧
      s.pruneHealth (f.records.set e.rowKey e).values (f.heads.set e.sample.deviceId e) =
        .ok selected ∧
      f' = f.commit e selected updated := by
  rw [FleetFabricStore.accept] at h
  obtain ⟨gap, hgap, h⟩ := bind_ok.mp h
  obtain ⟨verified, hverified, h⟩ := bind_ok.mp h
  obtain ⟨updated, hupdated, h⟩ := bind_ok.mp h
  dsimp only at h
  split at h
  · cases h
  split at h
  · cases h
  obtain ⟨selected, hselected, h⟩ := bind_ok.mp h
  obtain ⟨-, -, h⟩ := bind_ok.mp h
  cases h
  exact ⟨⟨gap, hgap, rfl⟩, verified, updated, selected, hverified, hupdated, hselected, rfl⟩

theorem recordAt_cases {stamp : ℚ} (h : s.recordAt f i envelope stamp = .ok (f', e)) :
    envelope.sample.observedAt ≤ stamp ∧
    (f' = f ∧ f.records.get? e.rowKey = some e ∨
      f.records.get? (envelope.sample.deviceId, envelope.sample.sampleId) = none ∧
        s.accept f i envelope stamp = .ok (f', e)) := by
  rw [FleetFabricStore.recordAt] at h
  obtain ⟨hpast, h⟩ := if_error_ok.mp h
  refine ⟨not_lt.mp hpast, ?_⟩
  split at h
  · cases h
  obtain ⟨-, h⟩ := if_error_ok.mp h
  obtain ⟨-, h⟩ := if_error_ok.mp h
  split at h
  · rename_i stored hstored
    split at h
    · rename_i hsame
      cases h
      have hkey : e.rowKey = (envelope.sample.deviceId, envelope.sample.sampleId) := by
        rw [FleetHealthEvidence.rowKey, hsame.1]
      exact .inl ⟨rfl, hkey ▸ hstored⟩
    · cases h
  · rename_i hnone
    exact .inr ⟨hnone, h⟩

/-- A call that returns has found the envelope stored, or accepted new evidence. -/
theorem recordHealth_cases (h : s.recordHealth f i envelope = .ok (f', e)) :
    f' = f ∧ f.records.get? e.rowKey = some e ∨ Accepted s f i envelope f' e := by
  obtain ⟨htenant, h⟩ := if_error_ok.mp h
  obtain ⟨stamp, hstamp, h⟩ := bind_ok.mp h
  obtain ⟨rfl, -, hfloor⟩ := peekNow_cases hstamp
  obtain ⟨hobserved, hstored | ⟨hnone, h⟩⟩ := recordAt_cases h
  · exact .inl hstored
  · obtain ⟨⟨gap, hgap, rfl⟩, heffect⟩ := accept_cases h
    exact .inr ⟨not_not.mp htenant, hfloor, hobserved, hnone, ⟨gap, hgap, rfl⟩, heffect⟩

end Angerona.Fabric
