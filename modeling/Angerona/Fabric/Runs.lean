import Angerona.Fabric.Canary
import Angerona.Lib.Transition

/-!
    What every run of the store keeps: evidence is accepted in the order of time, each device's in
    the order of its chain, the head of a device is the evidence accepted from it last, and nothing
    is retained that was not accepted. -/

namespace Angerona.Fabric
open Text Raising Transition

variable (s : FleetFabricStore)

/-- One call. -/
def FleetFabricStore.Step (w : World) (c : Call) (w' : World) : Prop := s.step w c = w'

/-- A call that accepted no evidence: the health tables are what they were. -/
structure Quiet (f f' : Tenant) : Prop where
  records : f'.records = f.records
  heads : f'.heads = f.heads
  drops : f'.healthRetentionDrops = f.healthRetentionDrops
  clock : f.clockFloor ≤ f'.clockFloor
  cache : ∀ state, f'.cache = some state → f.cache = some state ∨
    s.healthRateStateFromRecords f.healthRetentionDrops f.records.values = .ok state

variable {s} {f f' g : Tenant} {w w' : World} {c : Call} {clock stamp : ℚ}

theorem Quiet.refl (f : Tenant) : Quiet s f f := ⟨rfl, rfl, rfl, le_rfl, fun _ h => .inl h⟩

/-! ### What a call does -/

/-- A transaction that changes rollouts and the roster only. -/
def Local {α : Type} (body : Tenant → ℚ → Except FabricError (Tenant × α)) : Prop :=
  ∀ f stamp f' a, body f stamp = .ok (f', a) →
    f' = { f with rollouts := f'.rollouts, roster := f'.roster }

/-- A transaction fails before it has read the clock or after, or is carried out. -/
def Outcome {α : Type} (f : Tenant) (clock : ℚ)
    (body : Tenant → ℚ → Except FabricError (Tenant × α)) (r : Tenant × Except FabricError α) :
    Prop :=
  (∃ e, r = (f, .error e)) ∨ f.clockFloor ≤ clock ∧
    ((∃ e, r = (f.advance clock, .error e)) ∨
      ∃ f' a, body (f.advance clock) clock = .ok (f', a) ∧ r = (f', .ok a))

theorem atNow_outcome {α : Type} (f : Tenant) (clock : ℚ)
    (body : Tenant → ℚ → Except FabricError (Tenant × α)) :
    Outcome f clock body (f.atNow clock body) := by
  rcases hstamp : f.peekNow clock with e | stamp
  · exact .inl ⟨e, by rw [Tenant.atNow, hstamp]⟩
  · obtain ⟨rfl, -, hfloor⟩ := peekNow_cases hstamp
    refine .inr ⟨hfloor, ?_⟩
    rcases hbody : body (f.advance stamp) stamp with e | ⟨f', a⟩
    · exact .inl ⟨e, by rw [Tenant.atNow, hstamp]; dsimp only; rw [hbody]⟩
    · exact .inr ⟨f', a, rfl, by rw [Tenant.atNow, hstamp]; dsimp only; rw [hbody]⟩

theorem onRollout_outcome {α : Type} (f : Tenant) (clock : ℚ) (rolloutId desired : Str)
    (body : Tenant → ℚ → Except FabricError (Tenant × α)) :
    Outcome f clock body (f.onRollout clock rolloutId desired body) := by
  rw [Tenant.onRollout]
  split
  · exact .inl ⟨_, rfl⟩
  split
  · exact .inl ⟨_, rfl⟩
  · exact atNow_outcome f clock body

theorem Local.quiet {α : Type} {body : Tenant → ℚ → Except FabricError (Tenant × α)}
    {r : Tenant × Except FabricError α} (h : Local body) (ho : Outcome f clock body r) :
    Quiet s f r.1 := by
  obtain ⟨e, rfl⟩ | ⟨hclock, ⟨e, rfl⟩ | ⟨f', a, hbody, rfl⟩⟩ := ho
  · exact .refl f
  · exact ⟨rfl, rfl, rfl, hclock, fun _ h => .inl h⟩
  · rw [h _ _ _ _ hbody]
    exact ⟨rfl, rfl, rfl, hclock, fun _ h => .inl h⟩

theorem stage_local (plan : FleetRolloutPlan) : Local (s.stageTransaction plan) := by
  intro f stamp f' a h
  obtain ⟨-, h⟩ := if_error_ok.mp h
  obtain ⟨-, h⟩ := if_error_ok.mp h
  obtain ⟨rollouts, -, h⟩ := bind_ok.mp h
  obtain ⟨-, h⟩ := if_error_ok.mp h
  cases h
  rfl

theorem start_local (rolloutId : Str) (version : ℕ) (desired : Str) :
    Local (startTransaction rolloutId version desired) := by
  intro f stamp f' a h
  obtain ⟨current, -, h⟩ := bind_ok.mp h
  obtain ⟨-, h⟩ := if_error_ok.mp h
  obtain ⟨-, h⟩ := if_error_ok.mp h
  cases h
  rfl

theorem evaluate_local (rolloutId : Str) (version : ℕ) (desired : Str) :
    Local (s.evaluateTransaction rolloutId version desired) := by
  intro f stamp f' a h
  obtain ⟨current, -, h⟩ := bind_ok.mp h
  obtain ⟨-, h⟩ := if_error_ok.mp h
  cases h
  rfl

theorem enrol_local (deviceId : Str) (binding : Option DeviceBinding) :
    Local (Tenant.enrol deviceId binding) := by
  intro f stamp f' a h
  rcases binding with - | binding
  · cases h
    rfl
  · cases h
    rfl

theorem reopen_quiet (f : Tenant) : Quiet s f (s.reopen f) := by
  refine ⟨rfl, rfl, rfl, le_rfl, fun state h => .inr ?_⟩
  rcases hrebuilt : s.healthRateStateFromRecords f.healthRetentionDrops f.records.values
    with e | rebuilt
  · rw [FleetFabricStore.reopen, hrebuilt] at h
    cases h
  · rw [FleetFabricStore.reopen, hrebuilt] at h
    exact congrArg Except.ok (Option.some.inj h)

theorem start_world (w : World) (clock : ℚ) (rolloutId : Str) (version : ℕ) (desired : Str) :
    (w.start clock rolloutId version desired).accepted = w.accepted ∧
      (w.start clock rolloutId version desired).tenant =
        (w.tenant.startCanary clock rolloutId version desired).1 := by
  rw [World.start]
  rcases w.tenant.startCanary clock rolloutId version desired with ⟨f, e | a⟩
  · exact ⟨rfl, rfl⟩
  · exact ⟨rfl, rfl⟩

/-- A call accepts new evidence or none. -/
theorem step_cases (w : World) (c : Call) :
    (∃ i envelope f' e, c = .recordHealth i envelope ∧ Accepted s w.tenant i envelope f' e ∧
      s.step w c = ⟨f', w.accepted ++ [e], w.starts⟩) ∨
    (s.step w c).accepted = w.accepted ∧ Quiet s w.tenant (s.step w c).tenant := by
  cases c with
  | recordHealth i envelope =>
    rcases hrecord : s.recordHealth w.tenant i envelope with e | ⟨f', e⟩
    · have hstep : s.step w (.recordHealth i envelope) = w := by
        rw [FleetFabricStore.step, FleetFabricStore.record, hrecord]
      exact .inr (by rw [hstep]; exact ⟨rfl, .refl _⟩)
    · rcases recordHealth_cases hrecord with ⟨rfl, hstored⟩ | haccepted
      · have hstep : s.step w (.recordHealth i envelope) = w := by
          rw [FleetFabricStore.step, FleetFabricStore.record, hrecord]
          exact if_pos (by rw [hstored]; rfl)
        exact .inr (by rw [hstep]; exact ⟨rfl, .refl _⟩)
      · refine .inl ⟨i, envelope, f', e, rfl, haccepted, ?_⟩
        rw [FleetFabricStore.step, FleetFabricStore.record, hrecord]
        exact if_neg (by rw [haccepted.fresh]; decide)
  | stageRollout clock plan =>
    refine .inr ⟨rfl, ?_⟩
    change Quiet s w.tenant (s.stageRollout w.tenant clock plan).1
    rw [FleetFabricStore.stageRollout]
    split
    · exact .refl _
    · exact (stage_local plan).quiet (atNow_outcome ..)
  | startCanary clock rolloutId version desired =>
    obtain ⟨hsame, hstarted⟩ := start_world w clock rolloutId version desired
    refine .inr ⟨hsame, ?_⟩
    change Quiet s w.tenant (w.start clock rolloutId version desired).tenant
    rw [hstarted]
    exact (start_local rolloutId version desired).quiet (onRollout_outcome ..)
  | evaluateCanary clock rolloutId version desired =>
    exact .inr ⟨rfl, (evaluate_local rolloutId version desired).quiet (onRollout_outcome ..)⟩
  | roster clock deviceId binding =>
    exact .inr ⟨rfl, (enrol_local deviceId binding).quiet (atNow_outcome ..)⟩
  | restart => exact .inr ⟨rfl, reopen_quiet _⟩

/-! ### What a run keeps -/

structure Recorded (s : FleetFabricStore) (w : World) : Prop where
  past : ∀ e ∈ w.accepted, e.recordedAt ≤ w.tenant.clockFloor
  ordered : w.accepted.Pairwise fun a b => a.recordedAt ≤ b.recordedAt
  chains : w.accepted.Pairwise fun a b =>
    a.sample.deviceId = b.sample.deviceId → a.sequence < b.sequence
  tenants : ∀ e ∈ w.accepted, e.sample.tenantId = s.tenantId
  keyed : ∀ k e, w.tenant.records.get? k = some e → e.rowKey = k ∧ e ∈ w.accepted
  heads : ∀ d, w.tenant.heads.get? d = (ofDevice d w.accepted).getLast?

theorem recorded_initial : Recorded s World.initial where
  past := by simp [World.initial]
  ordered := List.Pairwise.nil
  chains := List.Pairwise.nil
  tenants := by simp [World.initial]
  keyed k e h := by cases h
  heads d := rfl

/-- A call that accepts nothing keeps what there is. -/
theorem Recorded.quiet (h : Recorded s w) (ha : w'.accepted = w.accepted)
    (hq : Quiet s w.tenant w'.tenant) : Recorded s w' where
  past := by rw [ha]; exact fun e he => (h.past e he).trans hq.clock
  ordered := by rw [ha]; exact h.ordered
  chains := by rw [ha]; exact h.chains
  tenants := by rw [ha]; exact h.tenants
  keyed := by rw [ha, hq.records]; exact h.keyed
  heads := by rw [ha, hq.heads]; exact h.heads

/-- New evidence stands behind the head of its device. -/
theorem chainGap_ok {head : FleetHealthEvidence} {p : HealthPayload} {gap : ℕ}
    (h : s.chainGap (some head) p = .ok gap) :
    head.sequence < p.sequence ∧ gap = p.sequence - head.sequence - 1 ∧
      p.sample.droppedSincePrevious = p.sample.droppedTotal - head.sample.droppedTotal := by
  obtain ⟨-, h⟩ := if_error_ok.mp h
  obtain ⟨hsequence, h⟩ := if_error_ok.mp h
  obtain ⟨-, h⟩ := if_error_ok.mp h
  obtain ⟨-, h⟩ := if_error_ok.mp h
  obtain ⟨-, h⟩ := if_error_ok.mp h
  obtain ⟨-, h⟩ := if_error_ok.mp h
  obtain ⟨hdropped, h⟩ := if_error_ok.mp h
  exact ⟨not_le.mp hsequence, (Except.ok.inj h).symm, not_not.mp hdropped⟩

/-- The last evidence of a device has the greatest sequence number. -/
theorem Recorded.sequence_le (h : Recorded s w) {d : Str} {a head : FleetHealthEvidence}
    (hhead : w.tenant.heads.get? d = some head) (ha : a ∈ ofDevice d w.accepted) :
    a = head ∨ a.sequence < head.sequence := by
  rw [h.heads d] at hhead
  obtain ⟨rest, hrest⟩ := List.getLast?_eq_some_iff.mp hhead
  have hchain : (ofDevice d w.accepted).Pairwise fun a b => a.sequence < b.sequence := by
    refine (h.chains.filter _).imp_of_mem fun {a b} ha hb hlt => ?_
    exact hlt ((of_decide_eq_true (List.mem_filter.mp ha).2).trans
      (of_decide_eq_true (List.mem_filter.mp hb).2).symm)
  rw [hrest] at ha hchain
  rcases List.mem_append.mp ha with ha | ha
  · exact .inr ((List.pairwise_append.mp hchain).2.2 a ha head List.mem_cons_self)
  · exact .inl (List.mem_singleton.mp ha)

theorem Recorded.accept {i : Surroundings} {envelope : SignedFleetHealthEnvelope}
    {e : FleetHealthEvidence} (h : Recorded s w) (ha : Accepted s w.tenant i envelope f' e) :
    Recorded s ⟨f', w.accepted ++ [e], w.starts⟩ := by
  obtain ⟨htenant, hclock, -, hfresh, ⟨gap, hgap, rfl⟩, -, updated, selected, -, -, -, rfl⟩ := ha
  set e := s.evidenceOf envelope i.clock gap with he
  have hpast : ∀ a ∈ w.accepted, a.recordedAt ≤ i.clock := fun a ha => (h.past a ha).trans hclock
  have hchain : ∀ a ∈ w.accepted, a.sample.deviceId = e.sample.deviceId →
      a.sequence < e.sequence := by
    intro a ha hd
    have hmem : a ∈ ofDevice e.sample.deviceId w.accepted := mem_ofDevice.mpr ⟨ha, hd⟩
    rcases hhead : w.tenant.heads.get? e.sample.deviceId with - | head
    · rw [h.heads, List.getLast?_eq_none_iff] at hhead
      rw [hhead] at hmem
      cases hmem
    · have hnext : head.sequence < e.sequence := (chainGap_ok (hhead ▸ hgap)).1
      rcases h.sequence_le hhead hmem with rfl | hlt
      · exact hnext
      · exact hlt.trans hnext
  constructor
  · intro a ha
    rcases List.mem_append.mp ha with ha | ha
    · exact hpast a ha
    · rw [List.mem_singleton.mp ha]
      exact le_rfl
  · refine List.pairwise_append.mpr ⟨h.ordered, List.pairwise_singleton _ _, fun a ha b hb => ?_⟩
    rw [List.mem_singleton.mp hb]
    exact hpast a ha
  · refine List.pairwise_append.mpr ⟨h.chains, List.pairwise_singleton _ _, fun a ha b hb => ?_⟩
    rw [List.mem_singleton.mp hb]
    exact hchain a ha
  · intro a ha
    rcases List.mem_append.mp ha with ha | ha
    · exact h.tenants a ha
    · rw [List.mem_singleton.mp ha]
      exact htenant
  · intro k a hk
    rw [Tenant.commit, Dict.get?_keep, Dict.get?_set, Option.filter_eq_some_iff] at hk
    rcases Decidable.em (k = e.rowKey) with rfl | hne
    · rw [if_pos rfl] at hk
      obtain rfl := Option.some.inj hk.1
      exact ⟨rfl, List.mem_append_right _ List.mem_cons_self⟩
    · rw [if_neg hne] at hk
      exact ⟨(h.keyed k a hk.1).1, List.mem_append_left _ (h.keyed k a hk.1).2⟩
  · intro d
    rw [Tenant.commit, Dict.get?_set, ofDevice_append, ofDevice_singleton]
    by_cases hd : e.sample.deviceId = d
    · rw [if_pos hd.symm, if_pos hd, List.getLast?_concat]
    · rw [if_neg (Ne.symm hd), if_neg hd, List.append_nil, h.heads]

/-- What a run has recorded. -/
theorem run_recorded {guard : World → Call → Prop} {calls : List Call}
    (h : Run (Guarded guard s.Step) World.initial calls w) : Recorded s w := by
  refine h.invariant (fun w c w' hw hstep => ?_) recorded_initial
  obtain rfl := hstep.2
  rcases step_cases w c with ⟨i, envelope, f', e, -, haccepted, hw'⟩ | ⟨hsame, hquiet⟩
  · rw [hw']
    exact hw.accept haccepted
  · exact hw.quiet hsame hquiet

/-! ### A small store -/

/-- A store that retains two records, whose devices sign with their public key and the sample. -/
def smallStore : FleetFabricStore where
  tenantId := "tenant-1".toList
  limiter := ⟨10, 40, 1 / 5, 4⟩
  maxHealth := 2
  maxRollouts := 100
  healthFreshness := 300
  maxHealth_range := by decide
  maxRollouts_range := by decide
  healthFreshness_range := by decide
  difference a b := a - b
  verify key signature p := signature = key ++ p.sample.sampleId
  hmac core := List.replicate 63 'a' ++ [Nat.digitChar (core.sequence % 16)]
  digest e := List.replicate 63 'b' ++ [Nat.digitChar (e.sequence % 16)]
  encodedBytes _ := 1200

def keySha256 : Str := List.replicate 64 'c'

def deviceKey : DeviceBinding := ⟨keySha256, "key".toList, 1⟩

/-- A healthy sample of a device with nothing to bind it to a rollout. -/
def healthySample (deviceId sampleId : Str) (observedAt : ℚ)
    (hid : isIdentifier deviceId ∧ isIdentifier sampleId) (hobserved : 0 ≤ observedAt) :
    FleetHealthSample where
  tenantId := "tenant-1".toList
  deviceId := deviceId
  sampleId := sampleId
  devicePublicKeySha256 := keySha256
  observedAt := observedAt
  desiredPolicyHash := List.replicate 64 'd'
  effectivePolicyHash := List.replicate 64 'd'
  healthPercent := 100
  healthReason := []
  queueCapacity := 100
  queueDepth := 0
  acceptedTotal := 0
  droppedTotal := 0
  droppedSincePrevious := 0
  rejectedTotal := 0
  rolloutId := []
  rolloutGeneration := 0
  identified := ⟨by decide, hid⟩
  digests := by decide
  observedAt_nonneg := hobserved
  healthPercent_le := by decide
  healthReason_bytes := by decide
  healthReason_given := by decide
  queueCapacity_range := by decide
  queueDepth_le := by decide
  dropped_le := by decide
  drift := by decide
  rollout := by decide

/-- The digest that the sample store has of a device's evidence. -/
def digestOf (sequence : ℕ) : Str :=
  if sequence = 0 then zeroDigest else List.replicate 63 'b' ++ [Nat.digitChar (sequence % 16)]

/-! What the samples are made of. -/

theorem named_a1 : isIdentifier "dev-a".toList ∧ isIdentifier "a-1".toList := by decide
theorem named_a2 : isIdentifier "dev-a".toList ∧ isIdentifier "a-2".toList := by decide
theorem named_a3 : isIdentifier "dev-a".toList ∧ isIdentifier "a-3".toList := by decide
theorem named_b1 : isIdentifier "dev-b".toList ∧ isIdentifier "b-1".toList := by decide
theorem named_b2 : isIdentifier "dev-b".toList ∧ isIdentifier "b-2".toList := by decide
theorem named_b3 : isIdentifier "dev-b".toList ∧ isIdentifier "b-3".toList := by decide
theorem named_b4 : isIdentifier "dev-b".toList ∧ isIdentifier "b-4".toList := by decide

theorem at_zero : (0 : ℚ) ≤ 0 := le_rfl
theorem at_three : (0 : ℚ) ≤ 3 := by decide
theorem at_four : (0 : ℚ) ≤ 4 := by decide
theorem at_five : (0 : ℚ) ≤ 5 := by decide

theorem digest_zero : isDigest (digestOf 0) := by decide
theorem digest_one : isDigest (digestOf 1) := by decide
theorem digest_two : isDigest (digestOf 2) := by decide
theorem digest_three : isDigest (digestOf 3) := by decide

/-- The next envelope of a device's chain. -/
def signed (sample : FleetHealthSample) (before : ℕ) (h : isDigest (digestOf before)) :
    SignedFleetHealthEnvelope where
  sample := sample
  bindingGeneration := 1
  sequence := before + 1
  previousEvidenceDigest := digestOf before
  signatureEd25519 := "key".toList ++ sample.sampleId
  bindingGeneration_pos := le_rfl
  sequence_pos := Nat.succ_pos before
  previousEvidenceDigest_hex := h

def quietSurroundings (clock : ℚ) : Surroundings := ⟨clock, true, .ok ()⟩

end Angerona.Fabric
