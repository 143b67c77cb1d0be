import Angerona.Lib.Raising
import Angerona.Lib.Selection
import Angerona.Lib.Text

/-!
    The exposure graph: nodes, relationships with the evidence they rest on, and the manifest in which
    a provider declares what a complete graph contains.

    Nothing here depends on the checks that the constructors of rows and manifests make: what follows
    holds for any values of their fields. A digest is a parameter; it has no value where the encoding
    of the document raises. -/

namespace Angerona.Exposure
open Text

inductive ExposureError where
  /-- `ValueError(message)`. -/
  | refused (message : String)
  /-- What the encoding of a document raises. -/
  | encoding
  deriving DecidableEq

abbrev Result := Except ExposureError

def refuse {α : Type} (message : String) : Result α := .error (.refused message)

/-- A finite number: its value and how JSON writes it. -/
structure Number where
  value : ℚ
  text : Str
  deriving DecidableEq

/-- `_ID`. -/
def isIdentifier : Str → Bool
  | [] => false
  | c :: cs => c.isAlphanum ∧ cs.length ≤ 127 ∧
      cs.all fun c => c.isAlphanum ∨ c ∈ "._:@/-".toList

/-- `sha256:[0-9a-f]{64}`. -/
def isToken (s : Str) : Bool := s.take 7 = "sha256:".toList ∧ isHex 64 (s.drop 7)

inductive NodeKind where
  | entryPoint | asset | identity | service | software | vulnerability | control | data | zone
  | target
  deriving DecidableEq

inductive EdgeKind where
  | exposes | reaches | authenticates | runs | affectedBy | trusts | contains | protectedBy
  | transits | impacts
  deriving DecidableEq

inductive EvidenceProvenance where
  | sensor | inventory | configuration | scanner | threatIntelligence | analystAttestation
  | signedImport
  deriving DecidableEq

inductive EvidenceFreshness where
  | current | stale | missing | unknown
  deriving DecidableEq

inductive PrivacyClass where
  | publicData | internal | sensitive | restricted
  deriving DecidableEq

inductive AssertionState where
  | confirmed | speculative | closed
  deriving DecidableEq

inductive Applicability where
  | exact | assumed | unknown | notApplicable
  deriving DecidableEq

inductive ResourceStatus where
  | complete | incompleteResourceLimit
  deriving DecidableEq

inductive CoverageStatus where
  | verified | unverified | unusable
  deriving DecidableEq

inductive CoverageDomain where
  | exposureRelationships
  deriving DecidableEq

structure EvidenceBinding where
  evidenceId : Str
  source : Str
  provenance : EvidenceProvenance
  freshness : EvidenceFreshness
  confidence : Number
  privacy : PrivacyClass
  generation : ℕ
  observedAt : Number
  expiresAt : Number
  digest : Str
  deriving DecidableEq

structure ExposureNode where
  nodeId : Str
  kind : NodeKind
  label : Str
  criticality : ℕ
  cveId : Str
  knownExploited : Option Bool
  epss : Option Number
  controlEffectiveness : Option Number
  properties : List (Str × Str)
  threatEvidence : Option EvidenceBinding
  deriving DecidableEq

structure ExposureEdge where
  edgeId : Str
  sourceId : Str
  targetId : Str
  kind : EdgeKind
  assertion : AssertionState
  applicability : Applicability
  evidence : EvidenceBinding
  reason : Str
  observedVersion : Str
  affectedRange : Str
  deriving DecidableEq

/-- `_absence_fact`. -/
structure AbsenceFact where
  schema : Str
  scopeId : Str
  policyDigest : Str
  coverageDomain : CoverageDomain
  authorityId : Str
  evidence : EvidenceBinding
  deriving DecidableEq

structure RelationshipAbsenceAttestation extends AbsenceFact where
  digest : Str
  deriving DecidableEq

/-- `_coverage_fact`. -/
structure CoverageFact where
  schema : Str
  scopeId : Str
  policyDigest : Str
  expectedNodeIds : List Str
  expectedEdgeIds : List Str
  declaredComplete : Bool
  attestedAt : Number
  expiresAt : Number
  trustBasis : Str
  relationshipAbsence : Option AbsenceFact
  deriving DecidableEq

structure CoverageManifest where
  schema : Str
  scopeId : Str
  policyDigest : Str
  expectedNodeIds : List Str
  expectedEdgeIds : List Str
  declaredComplete : Bool
  attestedAt : Number
  expiresAt : Number
  trustBasis : Str
  digest : Str
  relationshipAbsence : Option RelationshipAbsenceAttestation
  deriving DecidableEq

def CoverageManifest.fact (m : CoverageManifest) : CoverageFact where
  schema := m.schema
  scopeId := m.scopeId
  policyDigest := m.policyDigest
  expectedNodeIds := m.expectedNodeIds
  expectedEdgeIds := m.expectedEdgeIds
  declaredComplete := m.declaredComplete
  attestedAt := m.attestedAt
  expiresAt := m.expiresAt
  trustBasis := m.trustBasis
  relationshipAbsence := m.relationshipAbsence.map (·.toAbsenceFact)

/-- What the digest of a snapshot covers; `_node_fact` and `_edge_fact` write every field. -/
structure SnapshotCore where
  schema : Str
  generation : ℕ
  observedAt : Number
  nodes : List ExposureNode
  edges : List ExposureEdge
  status : ResourceStatus
  truncationReasons : List String
  droppedNodes : ℕ
  droppedEdges : ℕ
  scopeId : Str
  policyDigest : Str
  coverageManifest : Option CoverageFact
  coverageManifestDigest : Option Str
  coverageStatus : CoverageStatus
  coverageReasons : List String
  deriving DecidableEq

structure ExposureSnapshot where
  schema : Str
  generation : ℕ
  observedAt : Number
  nodes : List ExposureNode
  edges : List ExposureEdge
  status : ResourceStatus
  truncationReasons : List String
  droppedNodes : ℕ
  droppedEdges : ℕ
  scopeId : Str
  policyDigest : Str
  coverageManifest : Option CoverageManifest
  coverageStatus : CoverageStatus
  coverageReasons : List String
  digest : Str
  deriving DecidableEq

inductive Document where
  | absence (fact : AbsenceFact)
  | coverage (fact : CoverageFact)
  | snapshot (core : SnapshotCore)
  deriving DecidableEq

/-- `_digest`; `none` when it raises. -/
abbrev Digest := Document → Option Str

/-- `GRAPH_SCHEMA`. -/
def graphSchema : Str := "angerona.aegis-path.exposure-graph.v1".toList

/-- `COVERAGE_SCHEMA`. -/
def coverageSchema : Str := "angerona.aegis-path.coverage-manifest.v1".toList

/-- `ABSENCE_SCHEMA`. -/
def absenceSchema : Str := "angerona.aegis-path.relationship-absence.v1".toList

/-- `HARD_MAX_NODES`. -/
def hardMaxNodes : ℕ := 16384

/-- `HARD_MAX_EDGES`. -/
def hardMaxEdges : ℕ := 65536

/-- `HARD_INPUT_NODES`. -/
def hardInputNodes : ℕ := 131072

/-- `HARD_INPUT_EDGES`. -/
def hardInputEdges : ℕ := 524288

/-! ### Evidence and coverage -/

/-- `evidence_is_current_bound`. -/
def evidenceIsCurrentBound (e : EvidenceBinding) (atTime : ℚ) (generation : ℕ) : Bool :=
  0 ≤ atTime ∧ e.freshness = .current ∧ 0 < e.confidence.value ∧ e.digest ≠ [] ∧
    e.observedAt.value ≤ atTime ∧ atTime < e.expiresAt.value ∧ e.generation = generation

/-- `verify_relationship_absence_attestation`. -/
def verifyRelationshipAbsence (digest : Digest) (attestation : Option RelationshipAbsenceAttestation)
    (scopeId policyDigest : Str) (generation : ℕ) (atTime : ℚ) : Bool :=
  match attestation with
  | none => false
  | some a =>
    a.schema = absenceSchema ∧ a.scopeId = scopeId ∧ a.policyDigest = policyDigest ∧
      a.coverageDomain = .exposureRelationships ∧
      (a.evidence.provenance = .analystAttestation ∨ a.evidence.provenance = .signedImport) ∧
      evidenceIsCurrentBound a.evidence atTime generation ∧
      some a.digest = digest (.absence a.toAbsenceFact)

/-- `verify_coverage_manifest`. -/
def verifyCoverageManifest (digest : Digest) (m : CoverageManifest) : Bool :=
  m.schema = coverageSchema ∧ some m.digest = digest (.coverage m.fact)

def reason (p : Prop) [Decidable p] (message : String) : List String := if p then [message] else []

/-- `tuple(sorted(reasons))`. -/
def sortReasons (reasons : List String) : List String := reasons.insertionSort (· ≤ ·)

/-- A node that a path may end at. -/
def ExposureNode.isTarget (node : ExposureNode) : Bool :=
  node.kind = .target ∨ node.kind = .data ∨ node.kind = .asset ∧ 4 ≤ node.criticality

/-- The reasons for which a graph is of no use. -/
def unusableReasons (nodes : List ExposureNode) : List String :=
  reason (nodes = []) "empty_graph" ++
  reason (¬nodes.any fun n => n.kind = .entryPoint) "no_declared_entry_points" ++
  reason (¬nodes.any ExposureNode.isTarget) "no_declared_targets"

def manifestReasons (digest : Digest) (nodes : List ExposureNode) (edges : List ExposureEdge)
    (scopeId policyDigest : Str) (manifest : Option CoverageManifest) (atTime : ℚ) : List String :=
  match manifest with
  | none => ["coverage_manifest_missing"]
  | some m =>
    if ¬verifyCoverageManifest digest m then ["coverage_manifest_digest_invalid"]
    else
      reason (m.scopeId ≠ scopeId) "coverage_scope_mismatch" ++
      reason (m.policyDigest ≠ policyDigest) "coverage_policy_mismatch" ++
      reason (¬m.declaredComplete) "provider_did_not_attest_complete_scope" ++
      reason (atTime < m.attestedAt.value) "coverage_manifest_future_dated" ++
      reason (m.expiresAt.value < atTime) "coverage_manifest_expired" ++
      reason (m.expectedNodeIds ≠ nodes.map (·.nodeId)) "coverage_node_set_mismatch" ++
      reason (m.expectedEdgeIds ≠ edges.map (·.edgeId)) "coverage_edge_set_mismatch"

/-- The reasons for which a graph that can be used is not verified. -/
def unverifiedReasons (digest : Digest) (nodes : List ExposureNode) (edges : List ExposureEdge)
    (status : ResourceStatus) (scopeId policyDigest : Str) (manifest : Option CoverageManifest)
    (generation : ℕ) (atTime : ℚ) : List String :=
  reason (status = .incompleteResourceLimit) "processing_incomplete" ++
  manifestReasons digest nodes edges scopeId policyDigest manifest atTime ++
  reason (¬edges.all fun e => evidenceIsCurrentBound e.evidence atTime generation)
    "relationship_evidence_not_current_finite_and_bound" ++
  reason (¬nodes.all fun n => n.threatEvidence.all fun e =>
    evidenceIsCurrentBound e atTime generation) "threat_evidence_not_current_finite_and_bound" ++
  reason (edges = [] ∧ ¬verifyRelationshipAbsence digest
      (manifest.bind (·.relationshipAbsence)) scopeId policyDigest generation atTime)
    "authorized_relationship_absence_attestation_missing_or_invalid"

/-- `_coverage_evaluation`. -/
def coverageEvaluation (digest : Digest) (nodes : List ExposureNode) (edges : List ExposureEdge)
    (status : ResourceStatus) (scopeId policyDigest : Str) (manifest : Option CoverageManifest)
    (generation : ℕ) (atTime : ℚ) : CoverageStatus × List String :=
  if unusableReasons nodes ≠ [] then (.unusable, sortReasons (unusableReasons nodes))
  else
    match unverifiedReasons digest nodes edges status scopeId policyDigest manifest generation
      atTime with
    | [] => (.verified, ["provider_attested_exact_declared_scope"])
    | reasons => (.unverified, sortReasons reasons)

end Angerona.Exposure
