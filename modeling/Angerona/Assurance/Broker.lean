import Mathlib
import Angerona.Lib.Dict
import Angerona.Assurance.Values

/-!
    The broker of detector receipts, `core/assurance_receipts.py`.

    A producer enrolls once and draws a source epoch, from which its key is made. It answers an active
    challenge with a receipt over thirteen fields and an authenticator. The consumer presents what it
    was given; the broker compares the fields, then the authenticator, and takes the challenge away.

    What the broker holds by `id(producer)` is never replaced, what it holds by code is the last
    enrollment for that code, and a receipt that was issued is issued again while its challenge stays. -/

namespace Angerona.Assurance

/-- An object of the process; it is never a later one again, but its `id` may be. -/
abbrev Obj := ℕ

/-! ### Receipts -/

/-- `RECEIPT_FIELDS` without `producer_mac`. -/
inductive CoreField where
  | assuranceReceiptVersion
  | receiptType
  | probeId
  | probeKind
  | challengeDigest
  | targetDigest
  | responderCode
  | responderModule
  | capabilityId
  | observation
  | sourceEpoch
  | lifecycleGeneration
  | observedAt
  deriving DecidableEq

def CoreField.all : List CoreField :=
  [.assuranceReceiptVersion, .receiptType, .probeId, .probeKind, .challengeDigest, .targetDigest,
    .responderCode, .responderModule, .capabilityId, .observation, .sourceEpoch, .lifecycleGeneration,
    .observedAt]

theorem CoreField.mem_all (k : CoreField) : k ∈ all := by
  cases k <;> simp [all]

/-- What the readings of a presented dictionary give, which has exactly the fields of a receipt. It can
    be of a subclass of `dict`, and then each reading can give another value; one that raises gives a
    value that raises, and so does a dictionary whose fields cannot be listed. -/
structure Form (T : Type) where
  /-- `receipt.get(k)`. -/
  get : CoreField → Val T
  /-- `receipt["observed_at"]`, before the times are compared. -/
  observedAt : Val T
  /-- `receipt[k]`, of what is authenticated: `none` when a reading raises. -/
  core : Option (CoreField → Val T)
  /-- `receipt.get("producer_mac")`. -/
  producerMac : Val T
  /-- `receipt["lifecycle_generation"]`, once the receipt is accepted. -/
  generation : Val T
  /-- `receipt["observation"]`, once the receipt is accepted. -/
  observation : Val T

/-- A plain dictionary: every reading of a field gives its value. -/
def Form.plain {T : Type} (values : CoreField → Val T) (producerMac : Val T) : Form T :=
  ⟨values, values .observedAt, some values, producerMac, values .lifecycleGeneration, values .observation⟩

/-- `_canonical(core)`: `none` when it raises. -/
def canonical {T : Type} (core : CoreField → Val T) : Option (CoreField → Json T) :=
  if CoreField.all.all fun k => (core k).json.isSome then
    some fun k => (core k).json.getD .null
  else none

/-- An entry of `PRODUCER_CONTRACTS`; `observations` are the observations of each probe kind. -/
structure Contract where
  code : Str
  moduleName : Str
  capabilityId : Str
  observations : List (Str × List Str)

/-- `PRODUCER_CONTRACTS`. -/
def producerContracts : List Contract :=
  [⟨lit "APID", lit "API Patch / Anti-Blinding Detector", lit "angerona.builtin.api_patch_detector",
      [(lit "apid", [lit "api_prolog_integrity_observed"])]⟩,
    ⟨lit "NDRD", lit "Network Protocol Deep Decoder", lit "angerona.builtin.network_protocol_decoder",
      [(lit "ndrd", [lit "dns_entropy_observed"])]⟩,
    ⟨lit "FIM", lit "File Integrity Monitor", lit "angerona.builtin.file_integrity",
      [(lit "fim", [lit "file_content_observed"])]⟩,
    ⟨lit "AMSI", lit "AMSI Bridge", lit "angerona.builtin.amsi_bridge",
      [(lit "amsi", [lit "content_signature_observed"])]⟩]

/-- `AssuranceChallenge`; what its constructor checks is not needed here. -/
structure Challenge (T : Type) where
  probeId : Str
  probeKind : Str
  challengeDigest : Str
  targetDigest : Str
  targetRef : Str
  issuedAt : T
  expiresAt : T
  deriving DecidableEq

/-- `_ProducerEnrollment`; its key is the one of its source epoch. -/
structure Enrollment where
  producer : Obj
  code : Str
  moduleName : Str
  capabilityId : Str
  observations : List (Str × List Str)
  sourceEpoch : Str
  deriving DecidableEq

/-- What a receipt was issued for. -/
structure Receipt (T : Type) where
  enrollment : Enrollment
  challenge : Challenge T
  observation : Str
  generation : ℤ
  observedAt : T
  deriving DecidableEq

/-- What the broker runs on. -/
structure Host (T : Type) [LinearOrder T] extends Numbers T where
  /-- `t - 1.0`. -/
  early : T → T
  /-- `t + 2.0`. -/
  late : T → T
  /-- `t - 2.0`. -/
  past : T → T
  late_mono : Monotone late
  le_late : ∀ t, t ≤ late t
  /-- `id(o)`; an object that is gone may have had the same. -/
  ident : Obj → ℕ
  /-- `str(getattr(o, "CODE", ""))`. -/
  code : Obj → Str
  /-- `str(getattr(o, "name", ""))`. -/
  name : Obj → Str
  /-- The texts that `secrets.token_urlsafe` gives, in the order they are drawn. -/
  epoch : ℕ → Str
  epoch_injective : Function.Injective epoch
  /-- The hexadecimal HMAC under the key of a source epoch. -/
  mac : Str → (CoreField → Json T) → Str
  mac_hex : ∀ epoch core, isHex64 (mac epoch core) = true

variable {T : Type} [LinearOrder T]

/-- The fields of a receipt. -/
def Receipt.core (r : Receipt T) : CoreField → Val T
  | .assuranceReceiptVersion => .int 1
  | .receiptType => .str (lit "detector_object_observation")
  | .probeId => .str r.challenge.probeId
  | .probeKind => .str r.challenge.probeKind
  | .challengeDigest => .str r.challenge.challengeDigest
  | .targetDigest => .str r.challenge.targetDigest
  | .responderCode => .str r.enrollment.code
  | .responderModule => .str r.enrollment.moduleName
  | .capabilityId => .str r.enrollment.capabilityId
  | .observation => .str r.observation
  | .sourceEpoch => .str r.enrollment.sourceEpoch
  | .lifecycleGeneration => .int r.generation
  | .observedAt => .float (some r.observedAt)

/-- The authenticator of a receipt that has a canonical text. -/
def Receipt.mac (H : Host T) (r : Receipt T) : Str :=
  H.mac r.enrollment.sourceEpoch fun k => (r.core k).json.getD .null

/-- The receipt as the producer gets it. -/
def Receipt.form (H : Host T) (r : Receipt T) : Form T := .plain r.core (.str (r.mac H))

/-! ### The broker -/

structure Broker (T : Type) where
  consumer : Option Obj
  /-- `__producers`, by `id`. -/
  producers : Dict ℕ Enrollment
  byCode : Dict Str Enrollment
  active : Dict Str (Challenge T)
  issued : Dict (Str × Str) (Receipt T)
  /-- The number of source epochs drawn. -/
  drawn : ℕ

def Broker.fresh : Broker T := ⟨none, Dict.empty, Dict.empty, Dict.empty, Dict.empty, 0⟩

/-- What the broker finds around it. -/
structure Scene (T : Type) where
  clock : T
  /-- `registry().get(name)`; also `none` where the registry raises. -/
  registry : Str → Option Obj
  /-- `int(getattr(o, "_lifecycle_generation", 0))`. -/
  generation : Obj → ℤ
  alive : Obj → Bool

/-- What a weak reference gives. -/
def Scene.deref (scene : Scene T) (o : Obj) : Option Obj := if scene.alive o then some o else none

def maxActive : ℕ := 32

namespace Host

variable (H : Host T)

/-- `enroll_consumer`: `none` when it raises. -/
def enrollConsumer (scene : Scene T) (b : Broker T) (consumer : Obj) : Option (Broker T) :=
  if H.code consumer ≠ lit "CHAOS" ∨ H.name consumer ≠ lit "CHAOS" then none
  else if b.consumer.any fun c => scene.deref c ≠ some consumer then none
  else some { b with consumer := some consumer }

/-- `enroll_producer`: `none` when it raises. -/
def enrollProducer (b : Broker T) (producer : Obj) (code moduleName capabilityId : Str) :
    Option (Broker T) :=
  match producerContracts.find? fun c => c.code = code with
  | none => none
  | some expected =>
    if expected.moduleName ≠ moduleName ∨ expected.capabilityId ≠ capabilityId ∨
        H.code producer ≠ code ∨ H.name producer ≠ moduleName then none
    else if (b.producers.get? (H.ident producer)).isSome then some b
    else
      let e : Enrollment := ⟨producer, code, moduleName, capabilityId, expected.observations,
        H.epoch b.drawn⟩
      some { b with
        producers := b.producers.set (H.ident producer) e
        byCode := b.byCode.set code e
        drawn := b.drawn + 1 }

/-- `_expire_locked`. -/
def expire (now : T) (b : Broker T) : Broker T :=
  let expired := fun probe => (b.active.get? probe).any fun c => c.expiresAt < now
  { b with
    active := b.active.keep fun i => !expired i.1
    issued := b.issued.keep fun i => !expired i.1.2 }

/-- The oldest challenges that are over the limit go, with what was issued for them. -/
def bounded (b : Broker T) : Broker T :=
  let evicted := (b.active.items.take (b.active.size - maxActive)).map Prod.fst
  { b with
    active := b.active.keep fun i => !evicted.contains i.1
    issued := b.issued.keep fun i => !evicted.contains i.1.2 }

/-- `register_challenge`. -/
def registerChallenge (scene : Scene T) (b : Broker T) (consumer : Option Obj) (c : Challenge T) :
    Broker T × Bool :=
  if b.consumer = none ∨ b.consumer.bind scene.deref ≠ consumer then (b, false)
  else if !b.producers.values.any fun e => e.observations.any fun o => o.1 = c.probeKind then (b, false)
  else
    let b := expire scene.clock b
    if c.expiresAt ≤ H.past scene.clock ∨ (b.active.get? c.probeId).isSome then (b, false)
    else (bounded { b with active := b.active.set c.probeId c }, true)

/-- `_registry_matches`. -/
def registryMatches (scene : Scene T) (e : Enrollment) : Bool :=
  scene.alive e.producer && scene.registry e.moduleName = some e.producer

/-- `_active_for`. -/
def activeFor (scene : Scene T) (b : Broker T) (producer : Obj) (kind : Str) :
    Broker T × List (Challenge T) :=
  match b.producers.get? (H.ident producer) with
  | none => (b, [])
  | some e =>
    if scene.deref e.producer ≠ some producer ∨ !(e.observations.any fun o => o.1 = kind) ∨
        !registryMatches scene e then (b, [])
    else
      let b := expire scene.clock b
      (b, b.active.values.filter fun c => c.probeKind = kind)

/-- `_MAX_ACTIVE * len(PRODUCER_CONTRACTS)`. -/
def maxIssued : ℕ := maxActive * producerContracts.length

/-- A receipt is stored, and the oldest over the limit go. -/
def store (b : Broker T) (key : Str × Str) (r : Receipt T) : Broker T :=
  let issued := b.issued.set key r
  let evicted := (issued.items.take (issued.size - maxIssued)).map Prod.fst
  { b with issued := issued.keep fun i => !evicted.contains i.1 }

/-- The observation that is made at `stamp` answers the challenge. -/
def answers (scene : Scene T) (e : Enrollment) (c : Challenge T) (producer : Obj)
    (observation target : Str) (stamp : T) : Bool :=
  scene.deref e.producer = some producer && registryMatches scene e &&
    ((e.observations.lookup c.probeKind).any fun names => names.contains observation) &&
    target = c.targetDigest && H.early c.issuedAt ≤ stamp && stamp ≤ H.late c.expiresAt

/-- `_issue`, with `observed_at` as a float when it is given; the receipt is `none` when the answer is
    `None`, and the result is `none` when it raises. -/
def issue (scene : Scene T) (b : Broker T) (producer : Obj) (probe observation target : Str)
    (observedAt : Option (Option T)) : Broker T × Option (Option (Receipt T)) :=
  match b.producers.get? (H.ident producer), b.active.get? probe, observedAt.getD (some scene.clock) with
  | some e, some c, some stamp =>
    if !H.answers scene e c producer observation target stamp then (b, some none)
    else
      match b.issued.get? (e.code, c.probeId) with
      | some cached => (b, some (some cached))
      | none =>
        let r : Receipt T := ⟨e, c, observation, scene.generation producer, stamp⟩
        if (canonical r.core).isNone then (b, none)
        else (store b (e.code, c.probeId) r, some (some r))
  | _, _, _ => (b, some none)

/-! ### Verification -/

/-- The fields that are compared with texts before the observation, in order. -/
def expectedTexts (e : Enrollment) (c : Challenge T) : List (CoreField × Str) :=
  [(.receiptType, lit "detector_object_observation"), (.probeKind, c.probeKind),
    (.challengeDigest, c.challengeDigest), (.targetDigest, c.targetDigest),
    (.responderModule, e.moduleName), (.capabilityId, e.capabilityId), (.sourceEpoch, e.sourceEpoch)]

/-- The comparisons before the times, up to the first that fails: `none` when one raises. -/
def fieldsMatch (e : Enrollment) (c : Challenge T) (generation : ℤ) (get : CoreField → Val T) :
    Option Bool := do
  if !(← (get .assuranceReceiptVersion).isInt H.toNumbers 1) then return false
  if !(← (expectedTexts e c).allM fun p => (get p.1).isText p.2) then return false
  match e.observations.lookup c.probeKind with
  | none => return false
  | some names =>
    if !(← (get .observation).among names) then return false
    (get .lifecycleGeneration).isInt H.toNumbers generation

/-- The observation was made while the challenge stood, and not after `now`. -/
def timely (c : Challenge T) (now : T) (observed : Option T) : Bool :=
  observed.any fun t => H.early c.issuedAt ≤ t && t ≤ H.late c.expiresAt && t ≤ H.late now

/-- The authenticator is that of the fields under the key of `epoch`: `none` when this raises. -/
def authentic (epoch : Str) (f : Form T) : Option Bool := do
  let core ← f.core
  let supplied ← f.producerMac.textOr H.toNumbers
  if !isHex64 supplied then return false
  let canon ← canonical core
  return supplied = H.mac epoch canon

/-- What is checked once the enrollment and the challenge are found. -/
def checked (e : Enrollment) (c : Challenge T) (generation : ℤ) (now : T) (f : Form T) :
    Option Bool := do
  if !(← H.fieldsMatch e c generation f.get) then return false
  if !H.timely c now (← f.observedAt.toFloat H.toNumbers) then return false
  H.authentic e.sourceEpoch f

/-- The notification of an accepted receipt can be made. -/
def notified (f : Form T) : Bool := f.generation.isWhole H.toNumbers && (f.observation.text H.toNumbers).isSome

/-- The challenge and the receipt of it are taken away. -/
def consume (code probe : Str) (b : Broker T) : Broker T :=
  { b with active := b.active.erase probe, issued := b.issued.erase (code, probe) }

/-- `verify_and_consume`; a receipt is `none` when it is no dictionary with the fields of one, and the
    answer is `none` when it raises. -/
def verifyAndConsume (scene : Scene T) (b : Broker T) (consumer : Option Obj)
    (receipt : Option (Form T)) : Broker T × Option Bool :=
  match receipt with
  | none => (b, some false)
  | some f =>
    match (f.get .responderCode).textOr H.toNumbers, (f.get .probeId).textOr H.toNumbers with
    | some code, some probe =>
      if b.consumer = none ∨ b.consumer.bind scene.deref ≠ consumer then (b, some false)
      else
        let b := expire scene.clock b
        match b.byCode.get? code, b.active.get? probe with
        | some e, some c =>
          if !registryMatches scene e then (b, some false)
          else
            match H.checked e c (scene.generation e.producer) scene.clock f with
            | some true => (consume code probe b, if H.notified f then some true else none)
            | answer => (b, answer)
        | _, _ => (b, some false)
    | _, _ => (b, none)

end Host

end Angerona.Assurance
