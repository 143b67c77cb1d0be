import Mathlib
import Angerona.Fabric.Runs

/-!
    The canary gate: what it means that an evaluation makes a rollout `general-ready`.

    The evaluation reads the loss and the gap of each canary's newest evidence, and both only count
    from the evidence just before it. A loss that a canary reports is out of sight once it has sent a
    sample without one. -/

namespace Angerona.Fabric
open Text Raising Transition

variable {s : FleetFabricStore}

/-- Events were lost, or sequence numbers skipped, since the evidence before. -/
def FleetHealthEvidence.lossy (e : FleetHealthEvidence) : Bool :=
  e.sample.droppedSincePrevious ≠ 0 ∨ e.sequenceGap ≠ 0

/-- What was accepted from a device since the canary of a rollout was started. -/
def World.window (w : World) (rolloutId d : Str) : List FleetHealthEvidence :=
  ofDevice d (w.accepted.drop ((w.starts.get? rolloutId).getD 0))

/-- A canary that the gate may count on. -/
structure CleanCanary (s : FleetFabricStore) (w : World) (rolloutId : Str) (current : Rollout)
    (evaluatedAt : ℚ) (d : Str) : Prop where
  active : w.tenant.active d
  newest : ∃ e, (ofDevice d w.accepted).getLast? = some e ∧
    (current.canaryStartedAt ≤ e.sample.observedAt ∧ current.canaryStartedAt ≤ e.recordedAt) ∧
    (e.sample.observedAt ≤ evaluatedAt ∧ e.recordedAt ≤ evaluatedAt) ∧
    (s.difference evaluatedAt s.healthFreshness ≤ e.sample.observedAt ∧
      s.difference evaluatedAt s.healthFreshness ≤ e.recordedAt) ∧
    (e.sample.rolloutId = current.plan.rolloutId ∧
      e.sample.rolloutGeneration = current.canaryGeneration) ∧
    e.sample.desiredPolicyHash = current.plan.desiredPolicyHash ∧
    e.sample.effectivePolicyHash = current.plan.desiredPolicyHash ∧
    current.plan.minimumHealthPercent ≤ e.sample.healthPercent
  lossless : ∀ e ∈ w.window rolloutId d, e.lossy = false

/-- An evaluation that opens the gate had enough clean canaries. -/
def FleetFabricStore.GateSound (s : FleetFabricStore) (w : World) : Prop :=
  ∀ clock rolloutId version desired f evaluation,
    s.evaluateCanary w.tenant clock rolloutId version desired = (f, .ok evaluation) →
    evaluation.state = .generalReady →
    ∃ current, ∃ good : List Str, w.tenant.rollouts.get? rolloutId = some current ∧
      good.Sublist current.plan.canaryDeviceIds ∧
      current.plan.canaryDeviceIds.length - current.plan.maxCanaryFailures ≤ good.length ∧
      ∀ d ∈ good, CleanCanary s w rolloutId current clock d

/-- A canary from which a loss or a gap was accepted sends no sample without one. -/
def FleetFabricStore.KeepsLoss (s : FleetFabricStore) (w : World) : Call → Prop
  | .recordHealth i envelope =>
    ∀ gap ∈ (s.chainGap (w.tenant.heads.get? envelope.sample.deviceId)
        envelope.toHealthPayload).toOption,
      ∀ r ∈ w.tenant.rollouts.items, r.2.state = .canary →
        r.2.plan.canaryDeviceIds.contains envelope.sample.deviceId = true →
        (w.window r.1 envelope.sample.deviceId).any FleetHealthEvidence.lossy = true →
        (s.evidenceOf envelope i.clock gap).lossy = true
  | _ => True

instance (w : World) : (c : Call) → Decidable (s.KeepsLoss w c)
  | .recordHealth _ _ => Option.decidableForallMem _
  | .stageRollout _ _ => isTrue trivial
  | .startCanary _ _ _ _ => isTrue trivial
  | .evaluateCanary _ _ _ _ => isTrue trivial
  | .roster _ _ _ => isTrue trivial
  | .restart => isTrue trivial

/-- The newest evidence of a canary is lossy when anything accepted in its window is. -/
def Shown (w : World) : Prop :=
  ∀ rolloutId current, w.tenant.rollouts.get? rolloutId = some current → current.state = .canary →
    ∀ d ∈ current.plan.canaryDeviceIds, ∀ a ∈ w.window rolloutId d, a.lossy = true →
      ∃ head, w.tenant.heads.get? d = some head ∧ head.lossy = true

variable {w w' : World} {f f' : Tenant} {i : Surroundings} {envelope : SignedFleetHealthEnvelope}
  {e : FleetHealthEvidence} {rolloutId d : Str} {current : Rollout} {clock : ℚ}

/-! ### What becomes of a rollout -/

/-- The rollouts under observation are among those of another table. -/
def CanariesOf (rollouts rollouts' : Dict Str Rollout) : Prop :=
  ∀ rolloutId current, rollouts'.get? rolloutId = some current → current.state = .canary →
    rollouts.get? rolloutId = some current

theorem CanariesOf.refl (rollouts : Dict Str Rollout) : CanariesOf rollouts rollouts :=
  fun _ _ h _ => h

theorem CanariesOf.set {rollouts rollouts' : Dict Str Rollout} (h : CanariesOf rollouts rollouts')
    (hstate : current.state ≠ .canary) : CanariesOf rollouts (rollouts'.set rolloutId current) := by
  intro id r hr hcanary
  rw [Dict.get?_set] at hr
  by_cases hid : id = rolloutId
  · rw [if_pos hid] at hr
    exact absurd (Option.some.inj hr ▸ hcanary) hstate
  · rw [if_neg hid] at hr
    exact h id r hr hcanary

theorem room_canaries {rollouts : Dict Str Rollout} (h : s.rolloutRoom f = .ok rollouts) :
    CanariesOf f.rollouts rollouts := by
  intro id r hr _
  rw [FleetFabricStore.rolloutRoom] at h
  split at h
  · rw [Tenant.pruneRollout] at h
    split at h
    · cases h
    · rename_i r' _ _
      obtain rfl := Except.ok.inj h
      rw [Dict.get?_erase] at hr
      split at hr
      · cases hr
      · exact hr
  · exact Except.ok.inj h ▸ hr

/-- What holds of the rollouts that a transaction leaves when it is carried out. -/
theorem CanariesOf.outcome {α : Type} {body : Tenant → ℚ → Except FabricError (Tenant × α)}
    {r : Tenant × Except FabricError α} (ho : Outcome f clock body r)
    (hbody : ∀ f' a, body (f.advance clock) clock = .ok (f', a) →
      CanariesOf f.rollouts f'.rollouts) : CanariesOf f.rollouts r.1.rollouts := by
  obtain ⟨e, rfl⟩ | ⟨-, ⟨e, rfl⟩ | ⟨f', a, hok, rfl⟩⟩ := ho
  · exact .refl _
  · exact .refl f.rollouts
  · exact hbody f' a hok

theorem stage_canaries (plan : FleetRolloutPlan) (f : Tenant) (clock : ℚ) :
    CanariesOf f.rollouts (s.stageRollout f clock plan).1.rollouts := by
  rw [FleetFabricStore.stageRollout]
  split
  · exact .refl _
  refine .outcome (atNow_outcome ..) fun f' a h => ?_
  obtain ⟨-, h⟩ := if_error_ok.mp h
  obtain ⟨-, h⟩ := if_error_ok.mp h
  obtain ⟨rollouts, hroom, h⟩ := bind_ok.mp h
  obtain ⟨-, h⟩ := if_error_ok.mp h
  cases h
  have hcanaries : CanariesOf f.rollouts rollouts := room_canaries hroom
  exact hcanaries.set (by simp)

theorem evaluated_state (current : Rollout) (stamp : ℚ) (findings : List CanaryFinding) :
    (evaluated current stamp findings).state =
      if findings.length ≤ current.plan.maxCanaryFailures then .generalReady else .halted := by
  rw [evaluated]
  by_cases h : findings.length ≤ current.plan.maxCanaryFailures
  · simp [h]
  · simp [h]

theorem evaluate_canaries (f : Tenant) (clock : ℚ) (rolloutId : Str) (version : ℕ)
    (desired : Str) :
    CanariesOf f.rollouts (s.evaluateCanary f clock rolloutId version desired).1.rollouts := by
  refine .outcome (onRollout_outcome ..) fun f' a h => ?_
  obtain ⟨current, -, h⟩ := bind_ok.mp h
  obtain ⟨-, h⟩ := if_error_ok.mp h
  cases h
  refine (CanariesOf.refl f.rollouts).set ?_
  rw [evaluated_state]
  split <;> simp

/-- Starting a canary opens its window. -/
theorem start_canaries (w : World) (clock : ℚ) (rolloutId : Str) (version : ℕ) (desired : Str) :
    ∀ id current,
      (w.start clock rolloutId version desired).tenant.rollouts.get? id = some current →
      current.state = .canary →
      (w.tenant.rollouts.get? id = some current ∧
        (w.start clock rolloutId version desired).starts.get? id = w.starts.get? id) ∨
      (w.start clock rolloutId version desired).starts.get? id = some w.accepted.length := by
  intro id current hr _
  rw [World.start] at hr ⊢
  obtain ⟨e, hstart⟩ | ⟨-, ⟨e, hstart⟩ | ⟨f', a, hok, hstart⟩⟩ := onRollout_outcome w.tenant clock
    rolloutId desired (startTransaction rolloutId version desired)
  · rw [Tenant.startCanary, hstart] at hr ⊢
    exact .inl ⟨hr, rfl⟩
  · rw [Tenant.startCanary, hstart] at hr ⊢
    exact .inl ⟨hr, rfl⟩
  · rw [Tenant.startCanary, hstart] at hr ⊢
    obtain ⟨started, -, hok⟩ := bind_ok.mp hok
    obtain ⟨-, hok⟩ := if_error_ok.mp hok
    obtain ⟨-, hok⟩ := if_error_ok.mp hok
    cases hok
    dsimp only at hr ⊢
    rw [Dict.get?_set] at hr ⊢
    by_cases hid : id = rolloutId
    · exact .inr (if_pos hid)
    · rw [if_neg hid] at hr ⊢
      exact .inl ⟨hr, rfl⟩

/-- A rollout that is under observation after a call was so before, or its window is opened now. -/
theorem step_canaries (w : World) (c : Call) (rolloutId : Str) (current : Rollout)
    (hr : (s.step w c).tenant.rollouts.get? rolloutId = some current)
    (hcanary : current.state = .canary) :
    (w.tenant.rollouts.get? rolloutId = some current ∧
      (s.step w c).starts.get? rolloutId = w.starts.get? rolloutId) ∨
    (s.step w c).starts.get? rolloutId = some w.accepted.length := by
  cases c with
  | recordHealth i envelope =>
    have hsame : (s.record w i envelope).tenant.rollouts = w.tenant.rollouts ∧
        (s.record w i envelope).starts = w.starts := by
      rw [FleetFabricStore.record]
      rcases hrecord : s.recordHealth w.tenant i envelope with e | ⟨f', e⟩
      · exact ⟨rfl, rfl⟩
      · have hrollouts : f'.rollouts = w.tenant.rollouts := by
          rcases recordHealth_cases hrecord with ⟨rfl, -⟩ | haccepted
          · rfl
          · obtain ⟨-, -, -, -, -, -, rfl⟩ := haccepted.effect
            rfl
        dsimp only
        split
        · exact ⟨hrollouts, rfl⟩
        · exact ⟨hrollouts, rfl⟩
    exact .inl ⟨hsame.1 ▸ hr, congrArg (Dict.get? · rolloutId) hsame.2⟩
  | stageRollout clock plan => exact .inl ⟨stage_canaries plan _ clock _ _ hr hcanary, rfl⟩
  | startCanary clock id version desired =>
    exact start_canaries w clock id version desired rolloutId current hr hcanary
  | evaluateCanary clock id version desired =>
    exact .inl ⟨evaluate_canaries _ clock id version desired _ _ hr hcanary, rfl⟩
  | roster clock deviceId binding =>
    refine .inl ⟨?_, rfl⟩
    have hcanaries : CanariesOf w.tenant.rollouts
        (w.tenant.atNow clock (Tenant.enrol deviceId binding)).1.rollouts := by
      refine .outcome (atNow_outcome ..) fun f' a h => ?_
      rcases binding with - | binding
      · cases h
        exact .refl _
      · cases h
        exact .refl _
    exact hcanaries _ _ hr hcanary
  | restart => exact .inl ⟨hr, rfl⟩

/-! ### A loss stays in sight -/

theorem mem_window_snoc {a : FleetHealthEvidence} (h : a ∈ World.window
    ⟨f', w.accepted ++ [e], w.starts⟩ rolloutId d) :
    a ∈ w.window rolloutId d ∨ a = e ∧ e.sample.deviceId = d := by
  rw [World.window, List.drop_append, mem_ofDevice, List.mem_append] at h
  obtain ⟨ha | ha, hd⟩ := h
  · exact .inl (mem_ofDevice.mpr ⟨ha, hd⟩)
  · obtain rfl := List.mem_singleton.mp (List.mem_of_mem_drop ha)
    exact .inr ⟨rfl, hd⟩

theorem shown_initial : Shown World.initial := by
  intro rolloutId current h
  cases h

theorem Shown.quiet {c : Call} (h : Shown w) (ha : (s.step w c).accepted = w.accepted)
    (hq : Quiet s w.tenant (s.step w c).tenant) : Shown (s.step w c) := by
  intro rolloutId current hr hcanary d hd a hmem hlossy
  rw [World.window, ha] at hmem
  rw [hq.heads]
  rcases step_canaries w c rolloutId current hr hcanary with ⟨hbefore, hstart⟩ | hstart
  · rw [hstart] at hmem
    exact h rolloutId current hbefore hcanary d hd a hmem hlossy
  -- nothing has been accepted since the canary was started
  · rw [hstart, Option.getD_some, List.drop_length] at hmem
    cases hmem

theorem Shown.accept (h : Shown w) (ha : Accepted s w.tenant i envelope f' e)
    (hg : s.KeepsLoss w (.recordHealth i envelope)) : Shown ⟨f', w.accepted ++ [e], w.starts⟩ := by
  obtain ⟨-, -, -, -, ⟨gap, hgap, he⟩, -, updated, selected, -, -, -, rfl⟩ := ha
  intro rolloutId current hr hcanary d hd a hmem hlossy
  change ∃ head, (w.tenant.heads.set e.sample.deviceId e).get? d = some head ∧ head.lossy = true
  rw [Dict.get?_set]
  by_cases hde : d = e.sample.deviceId
  · rw [if_pos hde]
    refine ⟨e, rfl, ?_⟩
    rcases mem_window_snoc hmem with hmem | ⟨rfl, -⟩
    · have hdevice : envelope.sample.deviceId = d := by rw [hde, he]; rfl
      rw [he]
      refine hg gap (by rw [hgap]; rfl) (rolloutId, current) (Dict.mem_items.mpr hr) hcanary ?_ ?_
      · rw [hdevice]
        exact List.contains_iff_mem.mpr hd
      · rw [hdevice]
        exact List.any_eq_true.mpr ⟨a, hmem, hlossy⟩
    · exact hlossy
  · rw [if_neg hde]
    rcases mem_window_snoc hmem with hmem | ⟨-, hself⟩
    · exact h rolloutId current hr hcanary d hd a hmem hlossy
    · exact absurd hself.symm hde

theorem run_shown {calls : List Call}
    (h : Run (Guarded s.KeepsLoss s.Step) World.initial calls w) : Shown w := by
  refine h.invariant (fun w c w' hw hstep => ?_) shown_initial
  obtain ⟨hguard, rfl⟩ := hstep
  rcases step_cases w c with ⟨i, envelope, f', e, rfl, haccepted, hw'⟩ | ⟨hsame, hquiet⟩
  · rw [hw']
    exact hw.accept haccepted hguard
  · exact hw.quiet hsame hquiet

/-! ### The gate -/

theorem finding_nil {p : Prop} [Decidable p] {reason : String} : finding p reason = [] ↔ ¬p := by
  rw [finding]
  by_cases hp : p
  · simp [hp]
  · simp [hp]

/-- A canary without a finding is active, and its newest evidence meets the gate. -/
theorem canaryFinding_none (h : s.canaryFinding f current clock d = none) :
    f.active d ∧ ∃ e, f.heads.get? d = some e ∧
      (current.canaryStartedAt ≤ e.sample.observedAt ∧ current.canaryStartedAt ≤ e.recordedAt) ∧
      (e.sample.observedAt ≤ clock ∧ e.recordedAt ≤ clock) ∧ s.canaryReasons current clock e = [] := by
  rw [FleetFabricStore.canaryFinding] at h
  split at h
  · cases h
  rename_i hactive
  split at h
  · cases h
  rename_i e he
  split at h
  · cases h
  rename_i hstarted
  split at h
  · cases h
  rename_i hevaluated
  split at h
  · rename_i hreasons
    rw [not_or, not_lt, not_lt] at hstarted hevaluated
    exact ⟨not_not.mp hactive, e, he, hstarted, hevaluated, hreasons⟩
  · cases h

theorem canaryReasons_nil (h : s.canaryReasons current clock e = []) :
    (s.difference clock s.healthFreshness ≤ e.sample.observedAt ∧
      s.difference clock s.healthFreshness ≤ e.recordedAt) ∧
    (e.sample.rolloutId = current.plan.rolloutId ∧
      e.sample.rolloutGeneration = current.canaryGeneration) ∧
    e.sample.desiredPolicyHash = current.plan.desiredPolicyHash ∧
    e.sample.effectivePolicyHash = current.plan.desiredPolicyHash ∧
    current.plan.minimumHealthPercent ≤ e.sample.healthPercent ∧ e.lossy = false := by
  rw [FleetFabricStore.canaryReasons] at h
  simp only [List.append_eq_nil_iff, finding_nil, not_or, not_lt, not_not] at h
  obtain ⟨⟨⟨⟨⟨⟨⟨hfresh, hbound⟩, hdesired⟩, heffective⟩, hhealth⟩, hdropped⟩, hgap⟩, -⟩ := h
  refine ⟨hfresh, hbound, hdesired, heffective, hhealth, ?_⟩
  rw [FleetHealthEvidence.lossy, hdropped, hgap]
  rfl

/-- The canaries without a finding are those that the findings leave. -/
theorem length_canaries (g : Str → Option CanaryFinding) (l : List Str) :
    l.length = (l.filter fun d => (g d).isNone).length + (l.filterMap g).length := by
  induction l with
  | nil => rfl
  | cons d l ih =>
    rw [List.filter_cons, List.filterMap_cons]
    rcases g d with - | x
    · simp only [Option.isNone_none, if_true, List.length_cons]
      omega
    · simp only [Option.isNone_some, List.length_cons]
      rw [if_neg (by decide)]
      omega

/-- CORRECT: while no canary sends a clean sample after a lossy one, a gate that opens had enough
    clean canaries. -/
theorem gate_sound {calls : List Call}
    (h : Run (Guarded s.KeepsLoss s.Step) World.initial calls w) : s.GateSound w := by
  have hshown := run_shown h
  have hrecorded := run_recorded h
  intro clock rolloutId version desired f evaluation heval hready
  obtain ⟨e, hfailed⟩ | ⟨-, ⟨e, hfailed⟩ | ⟨f', a, hok, hdone⟩⟩ := onRollout_outcome w.tenant clock
    rolloutId desired (s.evaluateTransaction rolloutId version desired)
  · rw [FleetFabricStore.evaluateCanary, hfailed] at heval
    cases heval
  · rw [FleetFabricStore.evaluateCanary, hfailed] at heval
    cases heval
  rw [FleetFabricStore.evaluateCanary, hdone] at heval
  cases heval
  obtain ⟨current, hload, hok⟩ := bind_ok.mp hok
  obtain ⟨-, hok⟩ := if_error_ok.mp hok
  cases hok
  have hcurrent : w.tenant.rollouts.get? rolloutId = some current ∧ current.state = .canary := by
    rw [Tenant.loadRollout] at hload
    split at hload
    · cases hload
    · rename_i found hfound
      obtain ⟨-, hload⟩ := if_error_ok.mp hload
      obtain ⟨hstate, hload⟩ := if_error_ok.mp hload
      obtain ⟨-, hload⟩ := if_error_ok.mp hload
      cases hload
      exact ⟨hfound, not_not.mp hstate⟩
  set findings := s.canaryFindings (w.tenant.advance clock) current clock with hfindings
  have hbudget : findings.length ≤ current.plan.maxCanaryFailures := by
    change (evaluated current clock findings).state = _ at hready
    rw [evaluated_state] at hready
    split at hready
    · assumption
    · cases hready
  refine ⟨current, current.plan.canaryDeviceIds.filter fun d =>
    (s.canaryFinding (w.tenant.advance clock) current clock d).isNone, hcurrent.1,
    List.filter_sublist, ?_, fun d hd => ?_⟩
  · have hlength := length_canaries (s.canaryFinding (w.tenant.advance clock) current clock)
      current.plan.canaryDeviceIds
    rw [FleetFabricStore.canaryFindings] at hfindings
    rw [← hfindings] at hlength
    omega
  · obtain ⟨hcanary, hnone⟩ := List.mem_filter.mp hd
    obtain ⟨hactive, e, hhead, hstarted, hevaluated, hreasons⟩ :=
      canaryFinding_none (Option.isNone_iff_eq_none.mp hnone)
    obtain ⟨hfresh, hbound, hdesired, heffective, hhealth, hclean⟩ := canaryReasons_nil hreasons
    refine ⟨hactive, ⟨e, (hrecorded.heads d).symm.trans hhead, hstarted, hevaluated, hfresh, hbound,
      hdesired, heffective, hhealth⟩, fun a ha => ?_⟩
    by_contra hlossy
    rw [Bool.not_eq_false] at hlossy
    obtain ⟨head, hhead', hhidden⟩ :=
      hshown rolloutId current hcurrent.1 hcurrent.2 d hcanary a ha hlossy
    obtain rfl := Option.some.inj (hhead.symm.trans hhead')
    rw [hclean] at hhidden
    cases hhidden

/-! ### A loss out of sight -/

/-- One device, which is the canary; no failure is allowed. -/
def oneCanary : FleetRolloutPlan where
  tenantId := "tenant-1".toList
  rolloutId := "rollout-1".toList
  desiredPolicyHash := List.replicate 64 'd'
  previousPolicyHash := List.replicate 64 'e'
  targetDeviceIds := ["dev-a".toList]
  canaryDeviceIds := ["dev-a".toList]
  minimumHealthPercent := 90
  maxCanaryFailures := 0
  createdAt := 0
  identified := by decide
  digests := by decide
  changes := by decide
  targets := by decide
  canaries := by decide
  minimumHealth := by decide
  budget := by decide
  createdAt_nonneg := le_rfl

/-- A sample of the canary, with the events it has lost in all and since the sample before. -/
def canarySample (sampleId : Str) (observedAt : ℚ) (droppedTotal droppedSincePrevious : ℕ)
    (hid : isIdentifier "dev-a".toList ∧ isIdentifier sampleId) (hobserved : 0 ≤ observedAt)
    (hdropped : droppedSincePrevious ≤ droppedTotal) : FleetHealthSample :=
  { healthySample "dev-a".toList sampleId observedAt hid hobserved with
    droppedTotal := droppedTotal
    droppedSincePrevious := droppedSincePrevious
    dropped_le := hdropped
    rolloutId := oneCanary.rolloutId
    rolloutGeneration := 1
    rollout := by decide }

theorem lost_all : 1 ≤ 1 := le_rfl
theorem lost_before : 0 ≤ 1 := Nat.zero_le 1
theorem lost_none : 0 ≤ 0 := le_rfl

def startedCalls : List Call :=
  [.roster 0 "dev-a".toList (some deviceKey), .stageRollout 1 oneCanary,
    .startCanary 2 oneCanary.rolloutId 1 oneCanary.desiredPolicyHash]

/-- The canary reports a lost event, and then none. -/
def hiddenLossCalls : List Call := startedCalls ++
  [.recordHealth (quietSurroundings 3)
      (signed (canarySample "a-1".toList 3 1 1 named_a1 at_three lost_all) 0 digest_zero),
    .recordHealth (quietSurroundings 4)
      (signed (canarySample "a-2".toList 4 1 0 named_a2 at_four lost_before) 1 digest_one)]

def hiddenLoss : World := hiddenLossCalls.foldl smallStore.step World.initial

theorem hiddenLoss_ready :
    (smallStore.evaluateCanary hiddenLoss.tenant 5 oneCanary.rolloutId 2
      oneCanary.desiredPolicyHash).2.toOption.map (·.state) = some .generalReady := by
  decide +kernel

theorem hiddenLoss_plan : (hiddenLoss.tenant.rollouts.get? oneCanary.rolloutId).map
    (fun r => (r.plan.canaryDeviceIds, r.plan.maxCanaryFailures)) = some (["dev-a".toList], 0) := by
  decide +kernel

theorem hiddenLoss_window :
    (hiddenLoss.window oneCanary.rolloutId "dev-a".toList).any FleetHealthEvidence.lossy = true := by
  decide +kernel

/-- The gate opens for a canary that has reported a lost event while it was observed. -/
theorem hidden_loss_opens : ¬ ∀ (s : FleetFabricStore) (calls : List Call) (w : World),
    Run s.Step World.initial calls w → s.GateSound w := by
  intro h
  have hguarded : Run (Guarded (fun _ _ => True) smallStore.Step) World.initial hiddenLossCalls
      hiddenLoss := Run.of_foldl fun _ _ _ => trivial
  have hsound := h smallStore hiddenLossCalls hiddenLoss (hguarded.mono fun _ _ _ hstep => hstep.2)
  have hready := hiddenLoss_ready
  rcases heval : smallStore.evaluateCanary hiddenLoss.tenant 5 oneCanary.rolloutId 2
    oneCanary.desiredPolicyHash with ⟨f, e | evaluation⟩
  · rw [heval] at hready
    cases hready
  rw [heval] at hready
  obtain ⟨current, good, hcurrent, hsub, hlength, hclean⟩ :=
    hsound 5 _ 2 _ f evaluation heval (Option.some.inj hready)
  have hplan := hiddenLoss_plan
  rw [hcurrent] at hplan
  obtain ⟨hcanaries, hbudget⟩ := Prod.mk.inj (Option.some.inj hplan)
  rw [hcanaries, hbudget] at hlength
  rw [hcanaries] at hsub
  -- the only canary is counted on
  obtain ⟨d, rest, rfl⟩ := List.exists_cons_of_length_pos (Nat.lt_of_lt_of_le Nat.one_pos hlength)
  have hd : d = "dev-a".toList := List.mem_singleton.mp (hsub.subset List.mem_cons_self)
  obtain ⟨e, he, hlossy⟩ := List.any_eq_true.mp hiddenLoss_window
  have hlossless := (hclean d List.mem_cons_self).lossless e (hd ▸ he)
  rw [hlossy] at hlossless
  cases hlossless

/-- The canary reports no loss. -/
def cleanCalls : List Call := startedCalls ++
  [.recordHealth (quietSurroundings 3)
      (signed (canarySample "a-1".toList 3 0 0 named_a1 at_three lost_none) 0 digest_zero)]

theorem gate_sound_sample : ∃ w,
    Run (Guarded smallStore.KeepsLoss smallStore.Step) World.initial cleanCalls w ∧
      (smallStore.evaluateCanary w.tenant 5 oneCanary.rolloutId 2
        oneCanary.desiredPolicyHash).2.toOption.map (·.state) = some .generalReady ∧
      smallStore.GateSound w := by
  have hexec : (cleanCalls.foldlM (fun w c =>
      if smallStore.KeepsLoss w c then some (smallStore.step w c) else none) World.initial).any
        (fun w => (smallStore.evaluateCanary w.tenant 5 oneCanary.rolloutId 2
          oneCanary.desiredPolicyHash).2.toOption.map (·.state) = some .generalReady) = true := by
    decide +kernel
  obtain ⟨w, hw, hready⟩ := (Option.any_eq_true _ _).mp hexec
  have hrun : Run (Guarded smallStore.KeepsLoss smallStore.Step) World.initial cleanCalls w :=
    Run.of_checked hw
  exact ⟨w, hrun, of_decide_eq_true hready, gate_sound hrun⟩

end Angerona.Fabric
