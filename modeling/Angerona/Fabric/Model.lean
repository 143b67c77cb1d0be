import Angerona.Lib.BucketReplay
import Angerona.Lib.Dict
import Angerona.Lib.Text
import Mathlib

/-!
    The fleet fabric store: the health evidence of one tenant's devices, and its rollouts.

    A device signs each sample into a chain: its sequence number, the digest of the evidence before
    it. The store keeps the newest evidence of every device (the heads of the chains) and, up to a
    bound, older ones. Times are rational numbers; signatures, digests and the size of an encoding
    are parameters. -/

namespace Angerona.Fabric
open Text BucketReplay

inductive FabricError where
  | value (message : String)
  | permission (message : String)
  | runtime (message : String)
  | overflow (message : String)
  | key
  /-- `FleetRateLimitError`. -/
  | rateLimit (retryMs : ℤ)
  deriving DecidableEq

/-- `_ID`. -/
def isIdentifier : Str → Bool
  | [] => false
  | c :: cs => c.isAlphanum ∧ 2 ≤ cs.length ∧ cs.length ≤ 127 ∧
      cs.all fun c => c.isAlphanum ∨ c ∈ "._:@-".toList

/-- `_SHA256`. -/
def isDigest (s : Str) : Bool := isHex 64 s

/-- `ZERO_DIGEST`. -/
def zeroDigest : Str := List.replicate 64 '0'

/-! ### Health evidence -/

/-- The checks of `__post_init__` are its last fields. -/
structure FleetHealthSample where
  tenantId : Str
  deviceId : Str
  sampleId : Str
  devicePublicKeySha256 : Str
  observedAt : ℚ
  desiredPolicyHash : Str
  effectivePolicyHash : Str
  healthPercent : ℕ
  healthReason : Str
  queueCapacity : ℕ
  queueDepth : ℕ
  acceptedTotal : ℕ
  droppedTotal : ℕ
  droppedSincePrevious : ℕ
  rejectedTotal : ℕ
  rolloutId : Str
  rolloutGeneration : ℕ
  identified : isIdentifier tenantId ∧ isIdentifier deviceId ∧ isIdentifier sampleId
  digests : isDigest devicePublicKeySha256 ∧ isDigest desiredPolicyHash ∧
    isDigest effectivePolicyHash
  observedAt_nonneg : 0 ≤ observedAt
  healthPercent_le : healthPercent ≤ 100
  /-- `MAX_HEALTH_REASON_BYTES`. -/
  healthReason_bytes : utf8Length healthReason ≤ 2048
  healthReason_given : healthPercent < 100 → strip healthReason ≠ []
  queueCapacity_range : 1 ≤ queueCapacity ∧ queueCapacity ≤ 1000000
  queueDepth_le : queueDepth ≤ queueCapacity
  dropped_le : droppedSincePrevious ≤ droppedTotal
  drift : desiredPolicyHash ≠ effectivePolicyHash → healthPercent ≠ 100
  rollout : if rolloutId = [] then rolloutGeneration = 0
    else isIdentifier rolloutId ∧ 1 ≤ rolloutGeneration
  deriving DecidableEq

/-- What a device signs. -/
structure HealthPayload where
  sample : FleetHealthSample
  bindingGeneration : ℕ
  sequence : ℕ
  previousEvidenceDigest : Str
  deriving DecidableEq

structure SignedFleetHealthEnvelope extends HealthPayload where
  signatureEd25519 : Str
  bindingGeneration_pos : 1 ≤ bindingGeneration
  sequence_pos : 1 ≤ sequence
  previousEvidenceDigest_hex : isDigest previousEvidenceDigest
  deriving DecidableEq

/-- What the store authenticates. -/
structure EvidenceCore extends HealthPayload where
  recordedAt : ℚ
  sequenceGap : ℕ
  deviceSignatureEd25519 : Str
  deriving DecidableEq

structure FleetHealthEvidence extends EvidenceCore where
  evidenceHmac : Str
  deriving DecidableEq

/-- The primary key of `fabric_health` within the tenant. -/
def FleetHealthEvidence.rowKey (e : FleetHealthEvidence) : Str × Str :=
  (e.sample.deviceId, e.sample.sampleId)

/-- An active enrolment. -/
structure DeviceBinding where
  devicePublicKeySha256 : Str
  devicePublicKeyEd25519 : Str
  bindingGeneration : ℕ
  deriving DecidableEq

/-! ### Rollouts -/

structure FleetRolloutPlan where
  tenantId : Str
  rolloutId : Str
  desiredPolicyHash : Str
  previousPolicyHash : Str
  targetDeviceIds : List Str
  canaryDeviceIds : List Str
  minimumHealthPercent : ℕ
  maxCanaryFailures : ℕ
  createdAt : ℚ
  identified : isIdentifier tenantId ∧ isIdentifier rolloutId
  digests : isDigest desiredPolicyHash ∧ isDigest previousPolicyHash
  changes : desiredPolicyHash ≠ previousPolicyHash
  /-- `MAX_TARGET_DEVICES`. -/
  targets : targetDeviceIds ≠ [] ∧ targetDeviceIds.length ≤ 10000 ∧ targetDeviceIds.Nodup ∧
    ∀ d ∈ targetDeviceIds, isIdentifier d
  canaries : canaryDeviceIds ≠ [] ∧ canaryDeviceIds.Nodup ∧
    ∀ d ∈ canaryDeviceIds, d ∈ targetDeviceIds
  minimumHealth : 1 ≤ minimumHealthPercent ∧ minimumHealthPercent ≤ 100
  budget : maxCanaryFailures < canaryDeviceIds.length
  createdAt_nonneg : 0 ≤ createdAt
  deriving DecidableEq

inductive RolloutState where
  | staged | canary | generalReady | halted | completed | cancelled
  deriving DecidableEq

structure CanaryFinding where
  deviceId : Str
  reason : String
  observedPolicyHash : Str
  deriving DecidableEq

/-- A row of `fabric_rollouts`. -/
structure Rollout where
  plan : FleetRolloutPlan
  state : RolloutState
  version : ℕ
  reason : String
  updatedAt : ℚ
  canaryStartedAt : ℚ
  canaryGeneration : ℕ
  deriving DecidableEq

/-! ### The store -/

/-- The rates and bursts of the admission buckets. -/
structure FleetIngestionRateLimiter where
  tenantRate : ℚ
  tenantBurst : ℕ
  deviceRate : ℚ
  deviceBurst : ℕ

/-- `_HealthRateState`. -/
structure HealthRateState where
  tenant : Bucket ℚ
  devices : Dict Str (Bucket ℚ)
  deriving DecidableEq

/-- The configuration of a `FleetFabricStore`, one of its tenants, and what it calls. -/
structure FleetFabricStore where
  tenantId : Str
  limiter : FleetIngestionRateLimiter
  maxHealth : ℕ
  maxRollouts : ℕ
  healthFreshness : ℕ
  /-- `MAX_RETAINED_HEALTH_EVIDENCE`. -/
  maxHealth_range : 1 ≤ maxHealth ∧ maxHealth ≤ 5000
  maxRollouts_range : 1 ≤ maxRollouts ∧ maxRollouts ≤ 100000
  healthFreshness_range : 30 ≤ healthFreshness ∧ healthFreshness ≤ 86400
  /-- `a - b` of two floats. -/
  difference : ℚ → ℚ → ℚ
  /-- The public key accepts the signature of the payload. -/
  verify : Str → Str → HealthPayload → Bool
  hmac : EvidenceCore → Str
  digest : FleetHealthEvidence → Str
  encodedBytes : FleetHealthEvidence → ℕ

/-- The part of the store that belongs to the tenant; the last two fields are not durable. -/
structure Tenant where
  clockFloor : ℚ
  roster : Dict Str DeviceBinding
  records : Dict (Str × Str) FleetHealthEvidence
  heads : Dict Str FleetHealthEvidence
  healthRetentionDrops : ℕ
  healthSequenceGaps : ℕ
  rollouts : Dict Str Rollout
  /-- The rate state of `_HealthCustodyCache`. -/
  cache : Option HealthRateState
  lastClock : Option ℚ

def Tenant.empty : Tenant :=
  ⟨0, .empty, .empty, .empty, 0, 0, .empty, none, none⟩

/-- `_peek_now_locked`. -/
def Tenant.peekNow (f : Tenant) (clock : ℚ) : Except FabricError ℚ :=
  if clock < 0 then .error (.value "invalid fleet fabric time")
  else if f.lastClock.any (clock < ·) ∨ clock < f.clockFloor then
    .error (.runtime "fleet fabric clock moved backwards")
  else .ok clock

/-- The floor that a transaction leaves behind. -/
def Tenant.advance (f : Tenant) (stamp : ℚ) : Tenant :=
  { f with clockFloor := stamp, lastClock := some stamp }

theorem peekNow_cases {f : Tenant} {clock stamp : ℚ} (h : f.peekNow clock = .ok stamp) :
    stamp = clock ∧ 0 ≤ clock ∧ f.clockFloor ≤ clock := by
  rw [Tenant.peekNow] at h
  split at h
  · cases h
  · rename_i hneg
    split at h
    · cases h
    · rename_i hback
      cases h
      exact ⟨rfl, not_lt.mp hneg, not_lt.mp fun hlt => hback (.inr hlt)⟩

end Angerona.Fabric
