import Angerona.Fabric.Model
import Angerona.Lib.Raising
import Mathlib.Data.List.Lex
import Mathlib.Data.List.Sort
import Mathlib.Data.Prod.Lex
import Mathlib.Algebra.Order.Floor.Ring
import Mathlib.Data.Rat.Floor

/-!
    The admission rates of health evidence: the bucket of the tenant and those of its devices, how an
    accepted sample is charged, and how the buckets are rebuilt from the evidence that is retained. -/

namespace Angerona.Fabric
open Text BucketReplay Raising

/-- `_refill_health_rate_bucket`. -/
def refillHealthRateBucket (b : Bucket ℚ) (stamp rate : ℚ) (burst : ℕ) : Except FabricError ℚ :=
  match b.last with
  | none => .ok (min (burst : ℚ) b.tokens)
  | some lastSeen =>
    if stamp < lastSeen then .error (.runtime "fleet health admission clock moved backwards")
    else .ok (min (burst : ℚ) (b.tokens + (stamp - lastSeen) * rate))

/-- The order in which the rate state is rebuilt. -/
def replayKey (e : FleetHealthEvidence) : ℚ ×ₗ Str ×ₗ ℕ ×ₗ Str :=
  toLex (e.recordedAt, toLex (e.sample.deviceId, toLex (e.sequence, e.sample.sampleId)))

def replayOrder (records : List FleetHealthEvidence) : List FleetHealthEvidence :=
  records.insertionSort fun a b => replayKey a ≤ replayKey b

variable (s : FleetFabricStore)

/-- A bucket that was never charged. -/
def unused (burst : ℚ) : Bucket ℚ := ⟨burst, none⟩

def FleetFabricStore.replayRecord (pruned : Bool) (state : HealthRateState)
    (e : FleetHealthEvidence) : Except FabricError HealthRateState := do
  if e.sample.tenantId ≠ s.tenantId then
    throw (.runtime "fleet custody rate history crossed tenant authority")
  let tenantTokens ←
    refillHealthRateBucket state.tenant e.recordedAt s.limiter.tenantRate s.limiter.tenantBurst
  let deviceBucket := (state.devices.get? e.sample.deviceId).getD
    (unused (if pruned then 1 else s.limiter.deviceBurst))
  let deviceTokens ←
    refillHealthRateBucket deviceBucket e.recordedAt s.limiter.deviceRate s.limiter.deviceBurst
  return ⟨⟨tenantTokens - 1, some e.recordedAt⟩,
    state.devices.set e.sample.deviceId ⟨deviceTokens - 1, some e.recordedAt⟩⟩

/-- `_health_rate_state_from_records_locked`. -/
def FleetFabricStore.healthRateStateFromRecords (healthRetentionDrops : ℕ)
    (records : List FleetHealthEvidence) : Except FabricError HealthRateState :=
  let pruned : Bool := 0 < healthRetentionDrops
  let tenantInitial : ℚ := if pruned ∧ records ≠ [] then 1 else s.limiter.tenantBurst
  (replayOrder records).foldlM (s.replayRecord pruned) ⟨unused tenantInitial, .empty⟩

/-- What is still missing for a token, in seconds. -/
def retrySeconds (tokens rate : ℚ) : ℚ := if tokens < 1 then (1 - tokens) / rate else 0

/-- `_admit_persistent_health_rate_locked`. -/
def FleetFabricStore.admitPersistentHealthRate (deviceId : Str) (stamp : ℚ)
    (state : HealthRateState) : Except FabricError HealthRateState := do
  let tenantTokens ←
    refillHealthRateBucket state.tenant stamp s.limiter.tenantRate s.limiter.tenantBurst
  let deviceBucket := (state.devices.get? deviceId).getD (unused s.limiter.deviceBurst)
  let deviceTokens ←
    refillHealthRateBucket deviceBucket stamp s.limiter.deviceRate s.limiter.deviceBurst
  let retry := max (retrySeconds tenantTokens s.limiter.tenantRate)
    (retrySeconds deviceTokens s.limiter.deviceRate)
  if tenantTokens < 1 ∨ deviceTokens < 1 then throw (.rateLimit ⌈retry * 1000⌉)
  return ⟨⟨tenantTokens - 1, some stamp⟩, state.devices.set deviceId ⟨deviceTokens - 1, some stamp⟩⟩

/-! ### Refilling -/

variable {s} {b : Bucket ℚ} {stamp rate x : ℚ} {burst : ℕ}

theorem refill_eq (h : ∀ t ∈ b.last, t ≤ stamp) :
    refillHealthRateBucket b stamp rate burst = .ok (b.level rate burst stamp) := by
  obtain ⟨tokens, last⟩ := b
  cases last with
  | none => rfl
  | some t => exact if_neg (not_lt.mpr (h t rfl))

theorem refill_ok (h : refillHealthRateBucket b stamp rate burst = .ok x) :
    x = b.level rate burst stamp := by
  obtain ⟨tokens, last⟩ := b
  cases last with
  | none => exact (Except.ok.inj h).symm
  | some t => exact (Except.ok.inj (if_error_ok.mp h).2).symm

/-! ### The whole history -/

def times (records : List FleetHealthEvidence) : List ℚ := records.map (·.recordedAt)

/-- The evidence of one device. -/
def ofDevice (d : Str) (records : List FleetHealthEvidence) : List FleetHealthEvidence :=
  records.filter fun e => e.sample.deviceId = d

variable (s)

/-- The tenant's bucket after every event of a history was charged. -/
def FleetFabricStore.tenantCharged (history : List FleetHealthEvidence) : Bucket ℚ :=
  (unused s.limiter.tenantBurst).replay s.limiter.tenantRate s.limiter.tenantBurst (times history)

/-- The bucket of a device after every event of a history was charged. -/
def FleetFabricStore.deviceCharged (history : List FleetHealthEvidence) (d : Str) : Bucket ℚ :=
  (unused s.limiter.deviceBurst).replay s.limiter.deviceRate s.limiter.deviceBurst
    (times (ofDevice d history))

/-- The bucket that the store charges for a device. -/
def FleetFabricStore.deviceBucket (state : HealthRateState) (d : Str) : Bucket ℚ :=
  (state.devices.get? d).getD (unused s.limiter.deviceBurst)

/-- A rate state that grants no more than a history allows. -/
structure Covered (state : HealthRateState) (history : List FleetHealthEvidence) :
    Prop where
  tenant : state.tenant.Below (s.tenantCharged history)
  devices : ∀ d, (s.deviceBucket state d).Below (s.deviceCharged history d)

/-- Every event of a history found a token. -/
structure Admitted (history : List FleetHealthEvidence) : Prop where
  tenant : (unused s.limiter.tenantBurst).Admits s.limiter.tenantRate s.limiter.tenantBurst
    (times history)
  devices : ∀ d, (unused s.limiter.deviceBurst).Admits s.limiter.deviceRate s.limiter.deviceBurst
    (times (ofDevice d history))

variable {s} {state state' : HealthRateState} {d : Str} {e : FleetHealthEvidence}
  {history records : List FleetHealthEvidence}

theorem times_append (l m : List FleetHealthEvidence) : times (l ++ m) = times l ++ times m :=
  List.map_append

theorem times_snoc (l : List FleetHealthEvidence) (e : FleetHealthEvidence) :
    times (l ++ [e]) = times l ++ [e.recordedAt] := times_append l [e]

theorem ofDevice_append (d : Str) (l m : List FleetHealthEvidence) :
    ofDevice d (l ++ m) = ofDevice d l ++ ofDevice d m := List.filter_append ..

theorem mem_ofDevice : e ∈ ofDevice d records ↔ e ∈ records ∧ e.sample.deviceId = d := by
  rw [ofDevice, List.mem_filter, decide_eq_true_iff]

theorem ofDevice_singleton (e : FleetHealthEvidence) (d : Str) :
    ofDevice d [e] = if e.sample.deviceId = d then [e] else [] := by
  by_cases h : e.sample.deviceId = d
  · simp [ofDevice, h]
  · simp [ofDevice, h]

/-! ### Charging one event -/

/-- What is left of a token is a fraction of one. -/
theorem admit_cases (h : s.admitPersistentHealthRate d stamp state = .ok state') :
    1 ≤ state.tenant.level s.limiter.tenantRate s.limiter.tenantBurst stamp ∧
    1 ≤ (s.deviceBucket state d).level s.limiter.deviceRate s.limiter.deviceBurst stamp ∧
    state' = ⟨state.tenant.charge s.limiter.tenantRate s.limiter.tenantBurst stamp,
      state.devices.set d
        ((s.deviceBucket state d).charge s.limiter.deviceRate s.limiter.deviceBurst stamp)⟩ := by
  rw [FleetFabricStore.admitPersistentHealthRate] at h
  obtain ⟨tenantTokens, htenant, h⟩ := bind_ok.mp h
  obtain ⟨deviceTokens, hdevice, h⟩ := bind_ok.mp h
  obtain rfl := refill_ok htenant
  obtain rfl := refill_ok hdevice
  dsimp only at h
  split at h
  · cases h
  · rename_i henough
    rw [not_or, not_lt, not_lt] at henough
    cases h
    exact ⟨henough.1, henough.2, rfl⟩

/-- An admitted event keeps a rate state covered, and had a token of the whole history. -/
theorem Covered.admits (hc : Covered s state history) (ha : Admitted s history)
    (he : s.admitPersistentHealthRate e.sample.deviceId e.recordedAt state = .ok state') :
    Covered s state' (history ++ [e]) ∧ Admitted s (history ++ [e]) := by
  obtain ⟨htenant, hdevice, rfl⟩ := admit_cases he
  refine ⟨⟨?_, fun d => ?_⟩, ?_, fun d => ?_⟩
  · rw [FleetFabricStore.tenantCharged, times_snoc, replay_snoc]
    exact hc.tenant.charge e.recordedAt
  · rw [FleetFabricStore.deviceBucket, Dict.get?_set, FleetFabricStore.deviceCharged,
      ofDevice_append, ofDevice_singleton]
    by_cases hd : e.sample.deviceId = d
    · subst hd
      rw [if_pos rfl, if_pos rfl, times_snoc, replay_snoc]
      exact (hc.devices _).charge e.recordedAt
    · rw [if_neg (Ne.symm hd), if_neg hd, List.append_nil]
      exact hc.devices d
  · rw [times_snoc]
    exact admits_snoc.mpr ⟨ha.tenant, htenant.trans (hc.tenant.level _)⟩
  · rw [ofDevice_append, ofDevice_singleton]
    by_cases hd : e.sample.deviceId = d
    · subst hd
      rw [if_pos rfl, times_snoc]
      exact admits_snoc.mpr ⟨ha.devices _, hdevice.trans ((hc.devices _).level _)⟩
    · rw [if_neg hd, List.append_nil]
      exact ha.devices d

/-! ### Rebuilding -/

theorem perm_replayOrder (records : List FleetHealthEvidence) :
    (replayOrder records).Perm records := List.perm_insertionSort _ _

theorem pairwise_replayOrder (records : List FleetHealthEvidence) :
    (replayOrder records).Pairwise fun a b => replayKey a ≤ replayKey b :=
  List.pairwise_insertionSort _ _

theorem recordedAt_le_of_replayKey {a b : FleetHealthEvidence} (h : replayKey a ≤ replayKey b) :
    a.recordedAt ≤ b.recordedAt := (Prod.Lex.monotone_fst _ _ h)

theorem sorted_replayOrder (records : List FleetHealthEvidence) :
    (replayOrder records).Pairwise fun a b => a.recordedAt ≤ b.recordedAt :=
  (pairwise_replayOrder records).imp recordedAt_le_of_replayKey

/-- Where a bucket starts that is rebuilt. -/
def FleetFabricStore.deviceInitial (s : FleetFabricStore) (pruned : Bool) : Bucket ℚ :=
  unused (if pruned then 1 else s.limiter.deviceBurst)

/-- A replayed bucket was charged last when one of the events was recorded. -/
theorem last_replay_le {l : List FleetHealthEvidence} {initial t : ℚ}
    (h : ∀ e ∈ l, e.recordedAt ≤ t) :
    ∀ u ∈ ((unused initial).replay rate burst (times l)).last, u ≤ t := by
  intro u hu
  rcases mem_last_replay hu with hu | hu
  · obtain ⟨e, he, rfl⟩ := List.mem_map.mp hu
    exact h e he
  · cases hu

theorem replayRecord_eq {pruned : Bool} {b : Bucket ℚ} (hown : e.sample.tenantId = s.tenantId)
    (hb : (state.devices.get? e.sample.deviceId).getD (s.deviceInitial pruned) = b)
    (htenant : ∀ t ∈ state.tenant.last, t ≤ e.recordedAt) (hdevice : ∀ t ∈ b.last, t ≤ e.recordedAt) :
    s.replayRecord pruned state e = .ok
      ⟨state.tenant.charge s.limiter.tenantRate s.limiter.tenantBurst e.recordedAt,
        state.devices.set e.sample.deviceId
          (b.charge s.limiter.deviceRate s.limiter.deviceBurst e.recordedAt)⟩ := by
  subst hb
  rw [FleetFabricStore.replayRecord, if_neg (not_not.mpr hown), refill_eq htenant]
  exact bind_ok.mpr ⟨_, rfl, bind_ok.mpr ⟨_, refill_eq hdevice, rfl⟩⟩

/-- Replaying evidence in the order it was recorded returns, and charges each bucket with its own. -/
theorem replayRecords_eq {pruned : Bool} {initial : ℚ} {l : List FleetHealthEvidence}
    (htenant : ∀ e ∈ l, e.sample.tenantId = s.tenantId)
    (hsorted : l.Pairwise fun a b => a.recordedAt ≤ b.recordedAt) :
    ∃ state, l.foldlM (s.replayRecord pruned) ⟨unused initial, .empty⟩ = .ok state ∧
      state.tenant =
        (unused initial).replay s.limiter.tenantRate s.limiter.tenantBurst (times l) ∧
      ∀ d, state.devices.get? d = if ofDevice d l = [] then none else
        some ((s.deviceInitial pruned).replay s.limiter.deviceRate s.limiter.deviceBurst
          (times (ofDevice d l))) := by
  induction l using List.reverseRecOn with
  | nil => exact ⟨_, rfl, rfl, fun d => rfl⟩
  | append_singleton l e ih =>
    obtain ⟨hl, -, hle⟩ := List.pairwise_append.mp hsorted
    have hpast : ∀ a ∈ l, a.recordedAt ≤ e.recordedAt := fun a ha => hle a ha e List.mem_cons_self
    obtain ⟨state, hstate, htenantBucket, hdevices⟩ :=
      ih (fun a ha => htenant a (List.mem_append_left _ ha)) hl
    -- the device's bucket, whether or not it has been charged before
    have hbucket : (state.devices.get? e.sample.deviceId).getD (s.deviceInitial pruned) =
        (s.deviceInitial pruned).replay s.limiter.deviceRate s.limiter.deviceBurst
          (times (ofDevice e.sample.deviceId l)) := by
      rw [hdevices]
      split
      · rename_i hnone
        rw [hnone]
        rfl
      · rfl
    have hstep := replayRecord_eq (htenant e (List.mem_append_right _ List.mem_cons_self)) hbucket
      (htenantBucket ▸ last_replay_le hpast)
      (last_replay_le fun a ha => hpast a (mem_ofDevice.mp ha).1)
    have hfold : ∀ state', s.replayRecord pruned state e = .ok state' →
        (l ++ [e]).foldlM (s.replayRecord pruned) ⟨unused initial, .empty⟩ = .ok state' := by
      intro state' h
      rw [List.foldlM_append, hstate]
      exact bind_ok.mpr ⟨state, rfl, bind_ok.mpr ⟨_, h, rfl⟩⟩
    refine ⟨_, hfold _ hstep, ?_, fun d => ?_⟩
    · rw [times_snoc, replay_snoc, htenantBucket]
    · rw [Dict.get?_set, ofDevice_append, ofDevice_singleton]
      by_cases hd : e.sample.deviceId = d
      · subst hd
        rw [if_pos rfl, if_pos rfl, if_neg (by simp), times_snoc, replay_snoc]
      · rw [if_neg (Ne.symm hd), if_neg hd, List.append_nil, hdevices]

/-- A history in time order of which only older events are gone has the times of those, then the
    times of the others. -/
theorem times_split {gone kept : List FleetHealthEvidence} (hperm : history.Perm (gone ++ kept))
    (hhistory : history.Pairwise fun a b => a.recordedAt ≤ b.recordedAt)
    (hgone : gone.Pairwise fun a b => a.recordedAt ≤ b.recordedAt)
    (hkept : kept.Pairwise fun a b => a.recordedAt ≤ b.recordedAt)
    (holder : ∀ a ∈ gone, ∀ b ∈ kept, a.recordedAt ≤ b.recordedAt) :
    times history = times gone ++ times kept := by
  rw [← times_append]
  refine (hperm.map _).eq_of_pairwise (fun a b _ _ => le_antisymm) ?_ ?_
  · exact List.pairwise_map.mpr hhistory
  · exact List.pairwise_map.mpr (List.pairwise_append.mpr ⟨hgone, hkept, holder⟩)

/-- A bucket that is rebuilt from the times that are left, from one token when some are gone, grants
    no more than the one that was charged with all of them. -/
theorem rebuilt_below {gone kept history : List ℚ} {full : ℚ} {pruned : Prop} [Decidable pruned]
    (hsplit : history = gone ++ kept) (hadmits : (unused full).Admits rate burst history)
    (hpruned : ¬pruned → gone = []) (hkept : pruned → kept ≠ []) :
    Bucket.Below ((unused (if pruned then 1 else full)).replay rate burst kept)
      ((unused full).replay rate burst history) := by
  subst hsplit
  by_cases hp : pruned
  · obtain ⟨t, rest, rfl⟩ := List.exists_cons_of_ne_nil (hkept hp)
    rw [if_pos hp]
    exact replay_one_below hadmits
  · rw [if_neg hp, hpruned hp]
    exact .refl _

/-- What pruning has left of a history: the oldest events are gone, and no device is without. -/
structure Pruned (gone kept history : List FleetHealthEvidence) : Prop where
  perm : history.Perm (gone ++ kept)
  older : ∀ a ∈ gone, ∀ b ∈ kept, a.recordedAt ≤ b.recordedAt
  devices : ∀ a ∈ history, ∃ b ∈ kept, b.sample.deviceId = a.sample.deviceId

/-- The times of one device, of those gone first. -/
theorem Pruned.split {gone kept : List FleetHealthEvidence} (h : Pruned gone kept history)
    (hhistory : history.Pairwise fun a b => a.recordedAt ≤ b.recordedAt)
    (p : FleetHealthEvidence → Bool) :
    times (history.filter p) =
      times ((replayOrder gone).filter p) ++ times ((replayOrder kept).filter p) := by
  refine times_split ?_ (hhistory.filter p) ((sorted_replayOrder gone).filter p)
    ((sorted_replayOrder kept).filter p) fun a ha b hb => ?_
  · rw [← List.filter_append]
    exact (h.perm.trans ((perm_replayOrder gone).append (perm_replayOrder kept)).symm).filter p
  · exact h.older a ((perm_replayOrder gone).mem_iff.mp (List.mem_of_mem_filter ha)) b
      ((perm_replayOrder kept).mem_iff.mp (List.mem_of_mem_filter hb))

/-- The rate state that is rebuilt from what pruning has left grants no more than the history. -/
theorem rebuild_covered {gone kept : List FleetHealthEvidence} (h : Pruned gone kept history)
    (hhistory : history.Pairwise fun a b => a.recordedAt ≤ b.recordedAt)
    (htenant : ∀ e ∈ kept, e.sample.tenantId = s.tenantId) (hadmitted : Admitted s history) :
    ∃ state, s.healthRateStateFromRecords gone.length kept = .ok state ∧ Covered s state history := by
  have hall := h.split hhistory fun _ => true
  rw [List.filter_true, List.filter_true, List.filter_true] at hall
  have hgone : ¬0 < gone.length → gone = [] := fun hn =>
    List.length_eq_zero_iff.mp (Nat.eq_zero_of_not_pos hn)
  have hkept : gone ≠ [] → kept ≠ [] := by
    intro hne
    obtain ⟨a, rest, rfl⟩ := List.exists_cons_of_ne_nil hne
    obtain ⟨b, hb, -⟩ := h.devices a (h.perm.mem_iff.mpr (List.mem_append_left _ List.mem_cons_self))
    exact List.ne_nil_of_mem hb
  obtain ⟨state, hstate, hbucket, hdevices⟩ := @replayRecords_eq s (decide (0 < gone.length))
    (if decide (0 < gone.length) = true ∧ kept ≠ [] then 1 else s.limiter.tenantBurst)
    (replayOrder kept) (fun e he => htenant e ((perm_replayOrder kept).mem_iff.mp he))
    (sorted_replayOrder kept)
  refine ⟨state, hstate, ?_, fun d => ?_⟩
  · rw [hbucket]
    refine rebuilt_below hall hadmitted.tenant (fun hn => ?_) fun hp => ?_
    · by_cases hempty : gone = []
      · rw [hempty]
        rfl
      · exact absurd ⟨decide_eq_true (List.length_pos_iff.mpr hempty), hkept hempty⟩ hn
    · intro hnil
      have hsorted : replayOrder kept = [] := List.map_eq_nil_iff.mp hnil
      exact hp.2 (hsorted ▸ perm_replayOrder kept).nil_eq.symm
  · rw [FleetFabricStore.deviceBucket, hdevices]
    split
    -- a device without evidence was never charged
    · rename_i hnone
      have hhistoryNone : ofDevice d history = [] := by
        refine List.filter_eq_nil_iff.mpr fun a ha hd => ?_
        obtain ⟨b, hb, hbd⟩ := h.devices a ha
        have hbmem : b ∈ ofDevice d (replayOrder kept) :=
          mem_ofDevice.mpr ⟨(perm_replayOrder kept).mem_iff.mpr hb, hbd.trans (of_decide_eq_true hd)⟩
        rw [hnone] at hbmem
        cases hbmem
      rw [FleetFabricStore.deviceCharged, hhistoryNone]
      exact .refl _
    · rename_i hsome
      refine rebuilt_below (h.split hhistory fun e => e.sample.deviceId = d) (hadmitted.devices d)
        (fun hn => ?_) fun _ => ?_
      · rw [hgone (by simpa using hn)]
        rfl
      · exact fun hnil => hsome (List.map_eq_nil_iff.mp hnil)

end Angerona.Fabric
