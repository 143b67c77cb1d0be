import Angerona.Exposure.Model

/-!
    Building a snapshot of the exposure graph, and verifying one.

    Rows are cut to the first ones by identifier; uniqueness, endpoints and evidence are checked on
    what remains. The verifier checks the same graph again from the snapshot alone. -/

namespace Angerona.Exposure
open Text Selection

/-- `_identifier`. -/
def checkIdentifier (value : Str) (name : String) : Result Unit :=
  if value.contains '\x00' ∨ 128 < value.length ∨ strip value = [] then
    refuse (name ++ " is empty or exceeds its bounded schema")
  else if ¬isIdentifier value then refuse (name ++ " is not a valid bounded identifier")
  else .ok ()

/-- `max(1, min(int(limit), hard_limit))`. -/
def effectiveLimit (limit : ℤ) (hardLimit : ℕ) : ℕ := (max 1 (min limit hardLimit)).toNat

/-- `_bounded_selection`: the rows that are kept, how many are not, and whether there were too many to
    look at. -/
def boundedSelection {α : Type} (rows : List α) (limit : ℤ) (hardLimit hardInputLimit : ℕ)
    (identifier : α → Str) : List α × ℕ × Bool :=
  if hardInputLimit < rows.length then ([], rows.length, true)
  else
    let selected := smallest identifier (effectiveLimit limit hardLimit) rows
    (selected, rows.length - selected.length, false)

/-- `node_by_id`. -/
def nodeById (nodes : List ExposureNode) (nodeId : Str) : Option ExposureNode :=
  nodes.find? fun n => n.nodeId = nodeId

/-- Both ends of a relationship, if they are admitted. -/
def endpoints (nodes : List ExposureNode) (edge : ExposureEdge) :
    Option (ExposureNode × ExposureNode) :=
  (nodeById nodes edge.sourceId).bind fun source =>
    (nodeById nodes edge.targetId).map fun target => (source, target)

/-- The direction that two kinds of relationship must have. -/
def checkDirection (kind : EdgeKind) (source target : ExposureNode) : Result Unit :=
  if kind = .affectedBy ∧
      ((source.kind ≠ .asset ∧ source.kind ≠ .service ∧ source.kind ≠ .software) ∨
        target.kind ≠ .vulnerability ∨ target.cveId = []) then
    refuse "affected_by direction must be asset/service/software to exact CVE"
  else if kind = .protectedBy ∧ (source.kind = .control ∨ target.kind ≠ .control) then
    refuse "protected_by direction must be protected object to control"
  else .ok ()

/-! ### The verifier -/

def validateNode (generation : ℕ) (observedAt : ℚ) (node : ExposureNode) : Result Unit :=
  match node.threatEvidence with
  | none => .ok ()
  | some threat =>
    if threat.generation ≠ generation ∨ observedAt < threat.observedAt.value then
      refuse "threat evidence is outside the snapshot generation"
    else .ok ()

def validateEdge (nodes : List ExposureNode) (generation : ℕ) (observedAt : ℚ)
    (edge : ExposureEdge) : Result Unit :=
  match endpoints nodes edge with
  | none => refuse "snapshot edge endpoint is not admitted"
  | some (source, target) =>
    if edge.evidence.generation ≠ generation ∨ observedAt < edge.evidence.observedAt.value then
      refuse "edge evidence is outside the snapshot generation"
    else if edge.assertion = .closed ∧ (edge.evidence.expiresAt.value ≤ observedAt ∨
        ¬evidenceIsCurrentBound edge.evidence observedAt generation) then
      refuse "closed edge evidence is not current at snapshot time"
    else checkDirection edge.kind source target

/-- Identifiers that are unique and sorted. -/
def uniqueSorted (identifiers : List Str) : Bool :=
  identifiers = sortBy id identifiers ∧ identifiers.Nodup

/-- What a snapshot says about loss. -/
def validateLoss (s : ExposureSnapshot) : Result Unit :=
  if s.status = .complete ∧
      (s.truncationReasons ≠ [] ∨ s.droppedNodes ≠ 0 ∨ s.droppedEdges ≠ 0) then
    refuse "complete snapshot cannot contain loss or truncation"
  else if s.status ≠ .complete ∧ s.truncationReasons = [] then
    refuse "incomplete snapshot must disclose a truncation reason"
  else if s.coverageReasons = [] then refuse "snapshot must disclose semantic coverage reasons"
  else .ok ()

/-- `_validate_snapshot_structure`. -/
def validateSnapshotStructure (s : ExposureSnapshot) : Result Unit :=
  if hardMaxNodes < s.nodes.length ∨ hardMaxEdges < s.edges.length then
    refuse "snapshot exceeds hard structural verification bounds"
  else
    (s.nodes.forM (validateNode s.generation s.observedAt.value)) >>= fun _ =>
    if ¬uniqueSorted (s.nodes.map (·.nodeId)) then
      refuse "snapshot node identifiers must be unique and sorted"
    else
      (s.edges.forM (validateEdge s.nodes s.generation s.observedAt.value)) >>= fun _ =>
      if ¬uniqueSorted (s.edges.map (·.edgeId)) then
        refuse "snapshot edge identifiers must be unique and sorted"
      else validateLoss s

/-- `ExposureSnapshot.__post_init__`: the snapshot that the constructor returns. -/
def construct (s : ExposureSnapshot) : Result ExposureSnapshot :=
  if s.schema ≠ graphSchema then refuse "snapshot schema is not supported"
  else if s.observedAt.value < 0 then refuse "observed_at must be a finite number >= 0.0"
  else
    checkIdentifier s.scopeId "scope_id" >>= fun _ =>
    if ¬isToken s.policyDigest then refuse "policy_digest must be an exact SHA-256 token"
    else if ¬isToken s.digest then refuse "snapshot digest must be an exact SHA-256 token"
    else (validateSnapshotStructure s).map fun _ => s

/-- `_snapshot_core`. -/
def snapshotCore (s : ExposureSnapshot) : SnapshotCore where
  schema := s.schema
  generation := s.generation
  observedAt := s.observedAt
  nodes := s.nodes
  edges := s.edges
  status := s.status
  truncationReasons := s.truncationReasons
  droppedNodes := s.droppedNodes
  droppedEdges := s.droppedEdges
  scopeId := s.scopeId
  policyDigest := s.policyDigest
  coverageManifest := s.coverageManifest.map (·.fact)
  coverageManifestDigest := s.coverageManifest.map (·.digest)
  coverageStatus := s.coverageStatus
  coverageReasons := s.coverageReasons

/-- `verify_snapshot_digest`. -/
def verifySnapshotDigest (digest : Digest) (s : ExposureSnapshot) : Bool :=
  validateSnapshotStructure s = .ok () ∧ s.schema = graphSchema ∧
    some s.digest = digest (.snapshot (snapshotCore s))

/-! ### The builder -/

/-- The keyword arguments of `build_exposure_snapshot`; the time is the float of a finite number. -/
structure Request where
  generation : ℤ
  observedAt : Number
  maxNodes : ℤ
  maxEdges : ℤ
  scopeId : Str
  policyDigest : Str
  coverageManifest : Option CoverageManifest

def checkRequest (r : Request) : Result Unit :=
  if r.generation < 0 then refuse "generation must be a non-negative integer"
  else if r.observedAt.value < 0 then refuse "observed_at must be a finite number >= 0.0"
  else
    checkIdentifier r.scopeId "scope_id" >>= fun _ =>
    if ¬isToken r.policyDigest then refuse "policy_digest must be an exact SHA-256 token"
    else .ok ()

/-- The selected nodes, sorted. -/
def chosenNodes (r : Request) (nodes : List ExposureNode) : List ExposureNode × ℕ × Bool :=
  let chosen := boundedSelection nodes r.maxNodes hardMaxNodes hardInputNodes (·.nodeId)
  (sortBy (·.nodeId) chosen.1, chosen.2)

/-- The selected relationships, sorted. -/
def chosenEdges (r : Request) (edges : List ExposureEdge) : List ExposureEdge × ℕ × Bool :=
  let chosen := boundedSelection edges r.maxEdges hardMaxEdges hardInputEdges (·.edgeId)
  (sortBy (·.edgeId) chosen.1, chosen.2)

/-- The check of a node's threat evidence. -/
def admitNode (generation : ℕ) (observedAt : ℚ) (node : ExposureNode) : Result Unit :=
  match node.threatEvidence with
  | none => .ok ()
  | some threat =>
    if threat.generation ≠ generation then
      refuse "threat evidence generation does not match snapshot generation"
    else if observedAt < threat.observedAt.value then
      refuse "threat evidence cannot be observed after its snapshot"
    else .ok ()

/-- One pass of the loop over relationships: whether the relationship is admitted. -/
def admitEdge (nodes : List ExposureNode) (generation : ℕ) (observedAt : ℚ)
    (edge : ExposureEdge) : Result Bool :=
  if edge.evidence.generation ≠ generation then
    refuse "edge evidence generation does not match snapshot generation"
  else if observedAt < edge.evidence.observedAt.value then
    refuse "edge evidence cannot be observed after its snapshot"
  else
    match endpoints nodes edge with
    | none => .ok false
    | some (source, target) =>
      if edge.assertion = .closed ∧ ¬evidenceIsCurrentBound edge.evidence observedAt generation then
        refuse "expired evidence or otherwise non-current evidence cannot close an edge"
      else (checkDirection edge.kind source target).map fun _ => true

/-- The loop over relationships: those admitted, and how many have an end that is not. -/
def admitEdges (nodes : List ExposureNode) (generation : ℕ) (observedAt : ℚ) :
    List ExposureEdge → Result (List ExposureEdge × ℕ)
  | [] => .ok ([], 0)
  | edge :: edges =>
    admitEdge nodes generation observedAt edge >>= fun admitted =>
    (admitEdges nodes generation observedAt edges).map fun rest =>
      if admitted then (edge :: rest.1, rest.2) else (rest.1, rest.2 + 1)

/-- The disclosed reasons of an incomplete snapshot. -/
def truncationReasons (nodeHardLimit : Bool) (droppedNodes : ℕ) (edgeHardLimit : Bool)
    (initialDroppedEdges orphanEdges : ℕ) : List String :=
  (if nodeHardLimit then ["node_hard_input_limit"] else reason (droppedNodes ≠ 0) "node_limit") ++
  (if edgeHardLimit then ["edge_hard_input_limit"]
    else reason (initialDroppedEdges ≠ 0) "edge_limit") ++
  reason (orphanEdges ≠ 0) "edge_endpoint_not_admitted"

/-- The snapshot without its digest, of the rows that were chosen and admitted. -/
def snapshotOf (digest : Digest) (r : Request) (nodes : List ExposureNode × ℕ × Bool)
    (edges : List ExposureEdge × ℕ × Bool) (admitted : List ExposureEdge × ℕ) : ExposureSnapshot :=
  let reasons := truncationReasons nodes.2.2 nodes.2.1 edges.2.2 edges.2.1 admitted.2
  let status := if reasons = [] then ResourceStatus.complete else .incompleteResourceLimit
  let coverage := coverageEvaluation digest nodes.1 admitted.1 status r.scopeId r.policyDigest
    r.coverageManifest r.generation.toNat r.observedAt.value
  { schema := graphSchema
    generation := r.generation.toNat
    observedAt := r.observedAt
    nodes := nodes.1
    edges := admitted.1
    status := status
    truncationReasons := reasons
    droppedNodes := nodes.2.1
    droppedEdges := edges.2.1 + admitted.2
    scopeId := r.scopeId
    policyDigest := r.policyDigest
    coverageManifest := r.coverageManifest
    coverageStatus := coverage.1
    coverageReasons := coverage.2
    digest := [] }

/-- `ExposureSnapshot(…, digest=_digest(core))`. -/
def sealSnapshot (digest : Digest) (s : ExposureSnapshot) : Result ExposureSnapshot :=
  match digest (.snapshot (snapshotCore s)) with
  | none => .error .encoding
  | some token => construct { s with digest := token }

/-- What `build_exposure_snapshot` does once the rows are chosen. -/
def buildChosen (digest : Digest) (r : Request) (nodes : List ExposureNode × ℕ × Bool)
    (edges : List ExposureEdge × ℕ × Bool) : Result ExposureSnapshot :=
  if ¬(nodes.1.map (·.nodeId)).Nodup ∨ ¬(edges.1.map (·.edgeId)).Nodup then
    refuse "node and edge identifiers must be unique"
  else
    (nodes.1.forM (admitNode r.generation.toNat r.observedAt.value)) >>= fun _ =>
    (admitEdges nodes.1 r.generation.toNat r.observedAt.value edges.1) >>= fun admitted =>
    sealSnapshot digest (snapshotOf digest r nodes edges admitted)

/-- `build_exposure_snapshot`. -/
def buildExposureSnapshot (digest : Digest) (r : Request) (nodes : List ExposureNode)
    (edges : List ExposureEdge) : Result ExposureSnapshot :=
  checkRequest r >>= fun _ => buildChosen digest r (chosenNodes r nodes) (chosenEdges r edges)

end Angerona.Exposure
