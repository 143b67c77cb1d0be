import Angerona.Exposure.Builder

/-!
    What a snapshot that the builder returned says about the rows that were given: which rows it keeps,
    how many it does not, and when it may call itself complete or verified.

    A cut is clean when no row that is left has the identifier of a different row that is kept; then
    the order in which the rows are given does not matter. -/

namespace Angerona.Exposure
open Text Selection

variable {α : Type} {rows rows' : List α} {limit : ℤ} {hardLimit hardInputLimit : ℕ}
variable {identifier : α → Str} {digest : Digest} {r : Request} {s : ExposureSnapshot}
variable {nodes nodes' : List ExposureNode} {edges edges' : List ExposureEdge}

/-- The first rows by identifier, up to the limit; none when there are too many to look at. -/
def firstRows (rows : List α) (limit : ℤ) (hardLimit hardInputLimit : ℕ) (identifier : α → Str) :
    List α :=
  if hardInputLimit < rows.length then []
  else smallest identifier (effectiveLimit limit hardLimit) rows

/-- The rows are too many to look at, or no row is left that has the identifier of another, kept one. -/
def CutClean (rows : List α) (limit : ℤ) (hardLimit hardInputLimit : ℕ) (identifier : α → Str) :
    Prop :=
  hardInputLimit < rows.length ∨ CutsClean identifier (effectiveLimit limit hardLimit) rows

/-- Both ends of a relationship are among the nodes. -/
def bothAdmitted (nodes : List ExposureNode) (edge : ExposureEdge) : Bool :=
  nodes.any (·.nodeId = edge.sourceId) && nodes.any (·.nodeId = edge.targetId)

/-- What a snapshot says is true of the rows that were given. -/
structure Faithful (digest : Digest) (r : Request) (nodes : List ExposureNode)
    (edges : List ExposureEdge) (s : ExposureSnapshot) : Prop where
  verifies : verifySnapshotDigest digest s = true
  nodes_eq : s.nodes = firstRows nodes r.maxNodes hardMaxNodes hardInputNodes (·.nodeId)
  edges_eq : s.edges = (firstRows edges r.maxEdges hardMaxEdges hardInputEdges (·.edgeId)).filter
    (bothAdmitted s.nodes)
  nodes_accounted : s.nodes.length + s.droppedNodes = nodes.length
  edges_accounted : s.edges.length + s.droppedEdges = edges.length
  complete_iff : s.status = .complete ↔ s.droppedNodes = 0 ∧ s.droppedEdges = 0
  verified : s.coverageStatus = .verified → s.status = .complete ∧
    (nodes.map (·.nodeId)).Nodup ∧ (edges.map (·.edgeId)).Nodup ∧
      ∃ m, r.coverageManifest = some m ∧ m.expectedNodeIds.Perm (nodes.map (·.nodeId)) ∧
        m.expectedEdgeIds.Perm (edges.map (·.edgeId))

/-! ### The selection -/

theorem boundedSelection_fst : (boundedSelection rows limit hardLimit hardInputLimit identifier).1 =
    firstRows rows limit hardLimit hardInputLimit identifier := by
  rw [boundedSelection, firstRows]
  split <;> rfl

theorem pairwise_firstRows :
    (firstRows rows limit hardLimit hardInputLimit identifier).Pairwise
      fun a b => identifier a ≤ identifier b := by
  rw [firstRows]
  split
  · exact List.Pairwise.nil
  · exact pairwise_smallest _ _ _

theorem boundedSelection_accounted (rows : List α) (limit : ℤ) (hardLimit hardInputLimit : ℕ)
    (identifier : α → Str) :
    (firstRows rows limit hardLimit hardInputLimit identifier).length +
      (boundedSelection rows limit hardLimit hardInputLimit identifier).2.1 = rows.length := by
  rw [boundedSelection, firstRows]
  split
  · simp
  · have hle := length_smallest identifier (effectiveLimit limit hardLimit) rows
    simp only
    omega

/-- Too many rows are all left. -/
theorem boundedSelection_hard
    (h : (boundedSelection rows limit hardLimit hardInputLimit identifier).2.2 = true) :
    (boundedSelection rows limit hardLimit hardInputLimit identifier).2.1 ≠ 0 := by
  rw [boundedSelection] at h ⊢
  split at h
  · rename_i hlong
    rw [if_pos hlong]
    exact Nat.ne_of_gt (Nat.zero_lt_of_lt hlong)
  · cases h

/-- When no row is left, the rows that are kept are all rows. -/
theorem firstRows_perm
    (h : (boundedSelection rows limit hardLimit hardInputLimit identifier).2.1 = 0) :
    (firstRows rows limit hardLimit hardInputLimit identifier).Perm rows := by
  have hlength := boundedSelection_accounted rows limit hardLimit hardInputLimit identifier
  rw [h, Nat.add_zero] at hlength
  rw [firstRows] at hlength ⊢
  split
  · rename_i hlong
    rw [if_pos hlong] at hlength
    exact (List.eq_nil_of_length_eq_zero hlength.symm) ▸ List.Perm.nil
  · rename_i hshort
    rw [if_neg hshort] at hlength
    have hall : smallest identifier (effectiveLimit limit hardLimit) rows = sortBy identifier rows := by
      refine List.take_of_length_le ?_
      rw [length_smallest] at hlength
      rw [(perm_sortBy identifier rows).length_eq]
      exact hlength ▸ Nat.min_le_left _ _
    rw [hall]
    exact perm_sortBy identifier rows

/-- Sorting the selected rows again changes nothing. -/
theorem sortBy_boundedSelection :
    sortBy identifier (boundedSelection rows limit hardLimit hardInputLimit identifier).1 =
      firstRows rows limit hardLimit hardInputLimit identifier := by
  rw [boundedSelection_fst]
  exact sortBy_of_pairwise pairwise_firstRows

/-- The identifiers that are kept do not depend on the order of the rows. -/
theorem identifiers_firstRows (h : rows.Perm rows') :
    (firstRows rows limit hardLimit hardInputLimit identifier).map identifier =
      (firstRows rows' limit hardLimit hardInputLimit identifier).map identifier := by
  rw [firstRows, firstRows, h.length_eq]
  split
  · rfl
  · exact keys_smallest _ _ h

/-- After a clean cut, neither do the rows. -/
theorem boundedSelection_eq (h : rows.Perm rows')
    (hcut : CutClean rows limit hardLimit hardInputLimit identifier)
    (hnodup : ((firstRows rows limit hardLimit hardInputLimit identifier).map identifier).Nodup) :
    boundedSelection rows limit hardLimit hardInputLimit identifier =
      boundedSelection rows' limit hardLimit hardInputLimit identifier := by
  by_cases hlong : hardInputLimit < rows.length
  · rw [boundedSelection, boundedSelection, ← h.length_eq, if_pos hlong, if_pos hlong]
  · rw [firstRows, if_neg hlong] at hnodup
    rw [boundedSelection, boundedSelection, ← h.length_eq, if_neg hlong, if_neg hlong,
      smallest_eq h (hcut.resolve_left hlong) hnodup]

theorem chosenNodes_eq : chosenNodes r nodes =
    boundedSelection nodes r.maxNodes hardMaxNodes hardInputNodes (·.nodeId) :=
  Prod.ext (sortBy_boundedSelection.trans boundedSelection_fst.symm) rfl

theorem chosenEdges_eq : chosenEdges r edges =
    boundedSelection edges r.maxEdges hardMaxEdges hardInputEdges (·.edgeId) :=
  Prod.ext (sortBy_boundedSelection.trans boundedSelection_fst.symm) rfl

/-! ### Admission -/

theorem endpoints_isSome (edge : ExposureEdge) :
    (endpoints nodes edge).isSome = bothAdmitted nodes edge := by
  rw [bothAdmitted, ← List.isSome_find?, ← List.isSome_find?, endpoints, nodeById, nodeById]
  cases nodes.find? fun n => n.nodeId = edge.sourceId with
  | none => rfl
  | some source => simp

/-- One pass of the loop admits a relationship when both its ends are. -/
theorem admitEdge_ok {generation : ℕ} {observedAt : ℚ} {edge : ExposureEdge} {admitted : Bool}
    (h : admitEdge nodes generation observedAt edge = .ok admitted) :
    admitted = bothAdmitted nodes edge := by
  rw [admitEdge, refuse, refuse, Raising.if_error_ok, Raising.if_error_ok] at h
  obtain ⟨-, -, h⟩ := h
  rw [← endpoints_isSome]
  split at h
  · rename_i hnone
    rw [hnone]
    exact (Except.ok.inj h).symm
  · rename_i hsome
    rw [refuse, Raising.if_error_ok, Raising.map_ok] at h
    obtain ⟨-, -, -, rfl⟩ := h
    rw [hsome]
    rfl

/-- The loop keeps the relationships whose ends are admitted, and counts the others. -/
theorem admitEdges_ok {generation : ℕ} {observedAt : ℚ} {chosen : List ExposureEdge} :
    ∀ {admitted : List ExposureEdge × ℕ},
      admitEdges nodes generation observedAt chosen = .ok admitted →
        admitted.1 = chosen.filter (bothAdmitted nodes) ∧
          admitted.1.length + admitted.2 = chosen.length := by
  induction chosen with
  | nil =>
    intro admitted h
    obtain rfl := Except.ok.inj h
    exact ⟨rfl, rfl⟩
  | cons edge chosen ih =>
    intro admitted h
    obtain ⟨one, hone, h⟩ := Raising.bind_ok.mp h
    obtain ⟨rest, hrest, rfl⟩ := Raising.map_ok.mp h
    obtain ⟨hfilter, hlength⟩ := ih hrest
    have hadmitted := admitEdge_ok hone
    rw [List.filter_cons, ← hadmitted, ← hfilter]
    cases one with
    | true => exact ⟨rfl, by simp; omega⟩
    | false => exact ⟨rfl, by simp; omega⟩

/-! ### Coverage -/

theorem reason_eq_nil {p : Prop} [Decidable p] {message : String} : reason p message = [] ↔ ¬p := by
  by_cases hp : p
  · simp [reason, hp]
  · simp [reason, hp]

/-- No reason against a manifest: it names the graph. -/
theorem manifestReasons_eq_nil {scopeId policyDigest : Str} {manifest : Option CoverageManifest}
    {atTime : ℚ} (h : manifestReasons digest nodes edges scopeId policyDigest manifest atTime = []) :
    ∃ m, manifest = some m ∧ m.expectedNodeIds = nodes.map (·.nodeId) ∧
      m.expectedEdgeIds = edges.map (·.edgeId) := by
  rcases manifest with - | m
  · cases h
  rw [manifestReasons] at h
  split at h
  · cases h
  · obtain ⟨h, hedges⟩ := List.append_eq_nil_iff.mp h
    have hnodes := (List.append_eq_nil_iff.mp h).2
    exact ⟨m, rfl, not_not.mp (reason_eq_nil.mp hnodes), not_not.mp (reason_eq_nil.mp hedges)⟩

/-- A verified graph was processed completely, and a manifest names it. -/
theorem verified_of_evaluation {status : ResourceStatus} {scopeId policyDigest : Str}
    {manifest : Option CoverageManifest} {generation : ℕ} {atTime : ℚ}
    (h : (coverageEvaluation digest nodes edges status scopeId policyDigest manifest generation
      atTime).1 = .verified) :
    status = .complete ∧ ∃ m, manifest = some m ∧ m.expectedNodeIds = nodes.map (·.nodeId) ∧
      m.expectedEdgeIds = edges.map (·.edgeId) := by
  rw [coverageEvaluation] at h
  split at h
  · cases h
  split at h
  · rename_i hnone
    rw [unverifiedReasons] at hnone
    simp only [List.append_eq_nil_iff, reason_eq_nil] at hnone
    obtain ⟨⟨⟨⟨hstatus, hmanifest⟩, -⟩, -⟩, -⟩ := hnone
    refine ⟨?_, manifestReasons_eq_nil hmanifest⟩
    cases status with
    | complete => rfl
    | incompleteResourceLimit => exact absurd rfl hstatus
  · cases h

/-! ### The builder -/

theorem truncationReasons_eq_nil {nodeHardLimit edgeHardLimit : Bool}
    {droppedNodes initialDroppedEdges orphanEdges : ℕ}
    (hnodes : nodeHardLimit = true → droppedNodes ≠ 0)
    (hedges : edgeHardLimit = true → initialDroppedEdges ≠ 0) :
    truncationReasons nodeHardLimit droppedNodes edgeHardLimit initialDroppedEdges orphanEdges = [] ↔
      droppedNodes = 0 ∧ initialDroppedEdges + orphanEdges = 0 := by
  rw [truncationReasons, List.append_eq_nil_iff, List.append_eq_nil_iff, reason_eq_nil, not_not]
  have hnode : (if nodeHardLimit then ["node_hard_input_limit"]
      else reason (droppedNodes ≠ 0) "node_limit") = [] ↔ droppedNodes = 0 := by
    cases nodeHardLimit with
    | true => simpa using hnodes rfl
    | false => simp [reason_eq_nil]
  have hedge : (if edgeHardLimit then ["edge_hard_input_limit"]
      else reason (initialDroppedEdges ≠ 0) "edge_limit") = [] ↔ initialDroppedEdges = 0 := by
    cases edgeHardLimit with
    | true => simpa using hedges rfl
    | false => simp [reason_eq_nil]
  rw [hnode, hedge]
  omega

/-- What the constructor returns is what it was given, with a valid structure. -/
theorem construct_ok {t : ExposureSnapshot} (h : construct s = .ok t) :
    t = s ∧ s.schema = graphSchema ∧ validateSnapshotStructure s = .ok () := by
  rw [construct, refuse, refuse, refuse, refuse, Raising.if_error_ok, Raising.if_error_ok,
    Raising.bind_ok] at h
  obtain ⟨hschema, -, -, -, h⟩ := h
  rw [Raising.if_error_ok, Raising.if_error_ok, Raising.map_ok] at h
  obtain ⟨-, -, _, hvalid, rfl⟩ := h
  exact ⟨rfl, not_not.mp hschema, hvalid⟩

/-- A sealed snapshot carries the digest of its own contents. -/
theorem sealSnapshot_ok {t : ExposureSnapshot} (h : sealSnapshot digest s = .ok t) :
    verifySnapshotDigest digest t = true ∧ ∃ token, t = { s with digest := token } := by
  rw [sealSnapshot] at h
  split at h
  · cases h
  · rename_i token htoken
    obtain ⟨rfl, hschema, hvalid⟩ := construct_ok h
    refine ⟨?_, token, rfl⟩
    rw [verifySnapshotDigest]
    exact decide_eq_true ⟨hvalid, hschema, htoken.symm⟩

/-- What a build that returned has gone through. -/
theorem build_ok (h : buildExposureSnapshot digest r nodes edges = .ok s) :
    ((chosenNodes r nodes).1.map (·.nodeId)).Nodup ∧
      ((chosenEdges r edges).1.map (·.edgeId)).Nodup ∧
        ∃ admitted, admitEdges (chosenNodes r nodes).1 r.generation.toNat r.observedAt.value
          (chosenEdges r edges).1 = .ok admitted ∧
            sealSnapshot digest (snapshotOf digest r (chosenNodes r nodes) (chosenEdges r edges)
              admitted) = .ok s := by
  obtain ⟨-, -, h⟩ := Raising.bind_ok.mp h
  rw [buildChosen, refuse, Raising.if_error_ok, Raising.bind_ok] at h
  obtain ⟨hnodup, -, -, h⟩ := h
  obtain ⟨admitted, hadmitted, h⟩ := Raising.bind_ok.mp h
  obtain ⟨hnodes, hedges⟩ := not_or.mp hnodup
  exact ⟨not_not.mp hnodes, not_not.mp hedges, admitted, hadmitted, h⟩

theorem faithful_of_build (h : buildExposureSnapshot digest r nodes edges = .ok s) :
    Faithful digest r nodes edges s := by
  obtain ⟨hnodeIds, hedgeIds, admitted, hadmitted, hseal⟩ := build_ok h
  obtain ⟨hfilter, hlength⟩ := admitEdges_ok hadmitted
  obtain ⟨hverifies, token, rfl⟩ := sealSnapshot_ok hseal
  rw [chosenNodes_eq] at hnodeIds hfilter
  rw [chosenEdges_eq] at hedgeIds hlength hfilter
  rw [boundedSelection_fst] at hnodeIds hedgeIds hlength hfilter
  rw [boundedSelection_fst] at hfilter
  have hkept := boundedSelection_accounted nodes r.maxNodes hardMaxNodes hardInputNodes
    fun n => n.nodeId
  have hkeptEdges := boundedSelection_accounted edges r.maxEdges hardMaxEdges hardInputEdges
    fun e => e.edgeId
  have hhard : (chosenNodes r nodes).2.2 = true → (chosenNodes r nodes).2.1 ≠ 0 :=
    boundedSelection_hard
  have hhardEdges : (chosenEdges r edges).2.2 = true → (chosenEdges r edges).2.1 ≠ 0 :=
    boundedSelection_hard
  have hnodesEq : (chosenNodes r nodes).1 =
      firstRows nodes r.maxNodes hardMaxNodes hardInputNodes (·.nodeId) := by
    rw [chosenNodes_eq, boundedSelection_fst]
  have hcomplete : (snapshotOf digest r (chosenNodes r nodes) (chosenEdges r edges)
      admitted).status = .complete ↔
        (chosenNodes r nodes).2.1 = 0 ∧ (chosenEdges r edges).2.1 + admitted.2 = 0 := by
    rw [← truncationReasons_eq_nil hhard hhardEdges]
    change (if _ then _ else _) = ResourceStatus.complete ↔ _
    split
    · rename_i hreasons
      exact ⟨fun _ => hreasons, fun _ => rfl⟩
    · rename_i hreasons
      exact ⟨fun hstatus => absurd hstatus (by decide), fun hnone => absurd hnone hreasons⟩
  refine ⟨hverifies, hnodesEq, ?_, ?_, ?_, hcomplete, fun hverified => ?_⟩
  · change admitted.1 = _
    rw [hfilter]
    change _ = List.filter (bothAdmitted (chosenNodes r nodes).1) _
    rw [hnodesEq]
  · change (chosenNodes r nodes).1.length + _ = _
    rw [hnodesEq]
    exact hkept
  · change admitted.1.length + ((chosenEdges r edges).2.1 + admitted.2) = _
    rw [chosenEdges_eq]
    omega
  · obtain ⟨hstatus, m, hm, hnodeSet, hedgeSet⟩ := verified_of_evaluation hverified
    obtain ⟨hnodesLost, hedgesLost⟩ := hcomplete.mp hstatus
    obtain ⟨hinitial, horphans⟩ := Nat.add_eq_zero_iff.mp hedgesLost
    -- nothing was dropped: the rows of the snapshot are the rows that were given
    have hnodesPerm := firstRows_perm hnodesLost
    have hedgesPerm := firstRows_perm hinitial
    have hedgesAll : admitted.1 =
        firstRows edges r.maxEdges hardMaxEdges hardInputEdges (·.edgeId) := by
      rw [hfilter]
      refine List.filter_eq_self.mpr ?_
      rw [← List.length_filter_eq_length_iff, ← hfilter]
      omega
    refine ⟨hstatus, (hnodesPerm.map _).nodup_iff.mp hnodeIds,
      (hedgesPerm.map _).nodup_iff.mp hedgeIds, m, hm, ?_, ?_⟩
    · rw [hnodeSet, hnodesEq]
      exact hnodesPerm.map _
    · rw [hedgeSet, hedgesAll]
      exact hedgesPerm.map _

/-- After clean cuts the order of the rows does not matter. -/
theorem build_perm (hnodes : nodes.Perm nodes') (hedges : edges.Perm edges')
    (hnodeCut : CutClean nodes r.maxNodes hardMaxNodes hardInputNodes (·.nodeId))
    (hedgeCut : CutClean edges r.maxEdges hardMaxEdges hardInputEdges (·.edgeId)) :
    buildExposureSnapshot digest r nodes edges = buildExposureSnapshot digest r nodes' edges' := by
  rw [buildExposureSnapshot, buildExposureSnapshot]
  congr 1
  funext _
  rw [buildChosen, buildChosen]
  have hnodeIds : (chosenNodes r nodes).1.map (·.nodeId) =
      (chosenNodes r nodes').1.map (·.nodeId) := by
    rw [chosenNodes_eq, chosenNodes_eq, boundedSelection_fst, boundedSelection_fst]
    exact identifiers_firstRows hnodes
  have hedgeIds : (chosenEdges r edges).1.map (·.edgeId) =
      (chosenEdges r edges').1.map (·.edgeId) := by
    rw [chosenEdges_eq, chosenEdges_eq, boundedSelection_fst, boundedSelection_fst]
    exact identifiers_firstRows hedges
  rw [hnodeIds, hedgeIds]
  split
  · rfl
  · rename_i hnodup
    obtain ⟨hnodeNodup, hedgeNodup⟩ := not_or.mp hnodup
    rw [not_not, ← hnodeIds, chosenNodes_eq, boundedSelection_fst] at hnodeNodup
    rw [not_not, ← hedgeIds, chosenEdges_eq, boundedSelection_fst] at hedgeNodup
    rw [chosenNodes_eq, chosenNodes_eq, chosenEdges_eq, chosenEdges_eq,
      boundedSelection_eq hnodes hnodeCut hnodeNodup, boundedSelection_eq hedges hedgeCut hedgeNodup]

/-- CORRECT: a snapshot that was built verifies, keeps the first rows by identifier, accounts for all
    others, is complete exactly when there are none, and verified only for exactly the rows given;
    when the cuts are clean, the order of the rows changes neither a snapshot nor a refusal. -/
theorem snapshot_faithful (digest : Digest) (r : Request) (nodes : List ExposureNode)
    (edges : List ExposureEdge) :
    (∀ s, buildExposureSnapshot digest r nodes edges = .ok s → Faithful digest r nodes edges s) ∧
    ∀ nodes' edges', nodes.Perm nodes' → edges.Perm edges' →
      CutClean nodes r.maxNodes hardMaxNodes hardInputNodes (·.nodeId) →
      CutClean edges r.maxEdges hardMaxEdges hardInputEdges (·.edgeId) →
        buildExposureSnapshot digest r nodes edges = buildExposureSnapshot digest r nodes' edges' :=
  ⟨fun _ => faithful_of_build, fun _ _ => build_perm⟩

/-! ### Samples -/

def zeroToken : Str := "sha256:0000000000000000000000000000000000000000000000000000000000000000".toList

def sampleNode (nodeId : String) (kind : NodeKind) (label : String) : ExposureNode where
  nodeId := nodeId.toList
  kind := kind
  label := label.toList
  criticality := 0
  cveId := []
  knownExploited := none
  epss := none
  controlEffectiveness := none
  properties := []
  threatEvidence := none

def sampleEdge (edgeId target : String) : ExposureEdge where
  edgeId := edgeId.toList
  sourceId := "e".toList
  targetId := target.toList
  kind := .reaches
  assertion := .confirmed
  applicability := .exact
  evidence := {
    evidenceId := "v".toList
    source := "s".toList
    provenance := .sensor
    freshness := .current
    confidence := ⟨1, "1.0".toList⟩
    privacy := .internal
    generation := 0
    observedAt := ⟨0, "0.0".toList⟩
    expiresAt := ⟨9, "9.0".toList⟩
    digest := zeroToken }
  reason := "r".toList
  observedVersion := []
  affectedRange := []

def sampleManifest : CoverageManifest where
  schema := coverageSchema
  scopeId := "s".toList
  policyDigest := zeroToken
  expectedNodeIds := ["e".toList, "t".toList]
  expectedEdgeIds := ["r".toList]
  declaredComplete := true
  attestedAt := ⟨0, "0.0".toList⟩
  expiresAt := ⟨9, "9.0".toList⟩
  trustBasis := "b".toList
  digest := "sha256:14e85fc9a29805b556871083b1acaf66eac2c68ed23ba7528fd833fbec03822e".toList
  relationshipAbsence := none

/-- The digests of the samples' documents. -/
def sampleDigest : Digest
  | .absence _ => none
  | .coverage fact =>
    if fact = sampleManifest.fact then some sampleManifest.digest else none
  | .snapshot core =>
    if core.nodes = [sampleNode "n" .asset "a"] then
      if core.droppedNodes = 0 then
        some "sha256:d10351bebb94ed41f8989549372d0a47f7331c54b91fe4ce414e3f83620d966a".toList
      else some "sha256:bd6c77d3d860323b8b49ffbca4918e34aaa4a974c0e722dddce4ba49e4f8f11d".toList
    else if core.nodes = [sampleNode "n" .asset "b"] then
      some "sha256:5c9f01448dbfe6d8e098c94b57b008a38ca5d42ce33d2354edd2b22c6ad4639e".toList
    else if core.droppedNodes = 0 then
      some "sha256:3a6cbffd0043ccfcfd1f7ad62437cad8fd1ac4cb9e0e001741bca9d7e271e5ea".toList
    else some "sha256:7dbab76223b6d3cd0c77e3a2e914ce8a03935cc16f4f47b7eddda7105e73d69a".toList

def sampleRequest (maxNodes : ℤ) (manifest : Option CoverageManifest) : Request where
  generation := 0
  observedAt := ⟨0, "0.0".toList⟩
  maxNodes := maxNodes
  maxEdges := 8192
  scopeId := "s".toList
  policyDigest := zeroToken
  coverageManifest := manifest

/-- A node is kept although none may be; and of two nodes with one identifier the one that is given
    first is kept. -/
theorem limit_keeps_one :
    (buildExposureSnapshot sampleDigest (sampleRequest 0 none)
      [sampleNode "n" .asset "a"] []).map (fun s => (s.nodes, s.droppedNodes)) =
        .ok ([sampleNode "n" .asset "a"], 0) ∧
    [sampleNode "n" .asset "a", sampleNode "n" .asset "b"].Perm
      [sampleNode "n" .asset "b", sampleNode "n" .asset "a"] ∧
    (buildExposureSnapshot sampleDigest (sampleRequest 1 none)
      [sampleNode "n" .asset "a", sampleNode "n" .asset "b"] []).map (·.nodes) =
        .ok [sampleNode "n" .asset "a"] ∧
    (buildExposureSnapshot sampleDigest (sampleRequest 1 none)
      [sampleNode "n" .asset "b", sampleNode "n" .asset "a"] []).map (·.nodes) =
        .ok [sampleNode "n" .asset "b"] :=
  ⟨by decide +kernel, List.Perm.swap .., by decide +kernel, by decide +kernel⟩

/-- What a cut leaves out has other identifiers than what it keeps. -/
theorem cutClean_of_ids {α : Type} {rows : List α} {limit : ℤ} {hardLimit hardInputLimit : ℕ}
    {identifier : α → Str} (h : ((others identifier (effectiveLimit limit hardLimit) rows).all
      fun b => (smallest identifier (effectiveLimit limit hardLimit) rows).all
        fun a => identifier a ≠ identifier b) = true) :
    CutClean rows limit hardLimit hardInputLimit identifier := by
  refine Or.inr fun a ha b hb hids => absurd hids ?_
  exact of_decide_eq_true (List.all_eq_true.mp (List.all_eq_true.mp h b hb) a ha)

/-- A snapshot without the node that is cut and the relationship that ends there, the same in both
    orders. -/
theorem snapshot_faithful_cut :
    let nodes := [sampleNode "u" .asset "u", sampleNode "e" .entryPoint "e",
      sampleNode "t" .target "t"]
    let edges := [sampleEdge "r" "t", sampleEdge "s" "u"]
    let r := sampleRequest 2 (some sampleManifest)
    buildExposureSnapshot sampleDigest r nodes edges =
        buildExposureSnapshot sampleDigest r nodes.reverse edges.reverse ∧
      ∃ s, buildExposureSnapshot sampleDigest r nodes edges = .ok s ∧
        (s.coverageStatus, s.droppedNodes, s.droppedEdges) = (.unverified, 1, 1) ∧
        Faithful sampleDigest r nodes edges s := by
  intro nodes edges r
  have hcut : (buildExposureSnapshot sampleDigest r nodes edges).map
      (fun s => (s.coverageStatus, s.droppedNodes, s.droppedEdges)) = .ok (.unverified, 1, 1) := by
    decide +kernel
  obtain ⟨s, hs, hstatus⟩ := Raising.map_ok.mp hcut
  have hfaithful := snapshot_faithful sampleDigest r nodes edges
  refine ⟨hfaithful.2 _ _ nodes.reverse_perm.symm edges.reverse_perm.symm ?_ ?_, s, hs, hstatus,
    hfaithful.1 s hs⟩
  · exact cutClean_of_ids (by decide +kernel)
  · exact cutClean_of_ids (by decide +kernel)

end Angerona.Exposure
