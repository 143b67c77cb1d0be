import Mathlib.Algebra.Order.Floor.Ring
import Mathlib.Algebra.Order.Archimedean.Basic
import Mathlib.Data.Rat.Floor
import Angerona.Lib.TokenBucket
import Angerona.Lib.PyJson
import Angerona.Lib.Dict

/-!
    `FleetIngestionRateLimiter` (`core/fleet_control_plane.py`), in exact arithmetic: one bucket a
    tenant and one a device, kept under the tenant with the device id, or with no id for the tenant
    itself. A request charges its tenant and all its devices, or nobody. -/

namespace Angerona.Fleet.RateLimit
open Text PyJson TokenBucket

/-! ### The limiter -/

/-- What `__init__` keeps of its arguments. -/
structure Limits where
  tenantRate : ℚ
  deviceRate : ℚ
  tenantBurst : ℕ
  deviceBurst : ℕ
  maxBuckets : ℕ
  tenantRate_pos : 0 < tenantRate
  deviceRate_pos : 0 < deviceRate
  tenantBurst_pos : 1 ≤ tenantBurst
  deviceBurst_pos : 1 ≤ deviceBurst
  maxBuckets_bounds : 100 ≤ maxBuckets ∧ maxBuckets ≤ 500000

/-- Tenant and device; the device of a tenant's own bucket is the empty text. -/
abbrev BucketKey := Str × Str

structure Limiter where
  buckets : Dict BucketKey (Bucket ℚ)
  /-- Events admitted and rejected, by tenant. -/
  stats : Dict Str (ℤ × ℤ)

def Limiter.start : Limiter := ⟨Dict.empty, Dict.empty⟩

/-- A call of `consume`; `FleetControlPlane` passes valid device ids. -/
structure Call where
  now : ℚ
  tenant : Str
  deviceCounts : Dict Str ℤ
  named : ∀ d ∈ deviceCounts.items, d.1 ≠ []

def Call.total (c : Call) : ℤ := c.deviceCounts.values.sum

structure Requirement where
  key : BucketKey
  required : ℤ
  rate : ℚ
  burst : ℕ

namespace Limits

variable (L : Limits)

def requirements (c : Call) : List Requirement :=
  ⟨(c.tenant, []), c.total, L.tenantRate, L.tenantBurst⟩ ::
    (c.deviceCounts.items.insertionSort textLe).map fun d =>
      ⟨(c.tenant, d.1), d.2, L.deviceRate, L.deviceBurst⟩

/-- `_refill`: the tokens of the bucket; `none` when there is no room for a new bucket. -/
def refill (now : ℚ) (r : Requirement) (buckets : Dict BucketKey (Bucket ℚ)) :
    Option (ℚ × Dict BucketKey (Bucket ℚ)) :=
  match buckets.get? r.key with
  | none =>
    if L.maxBuckets ≤ buckets.size then none
    else some (r.burst, buckets.set r.key ⟨r.burst, now⟩)
  | some prior =>
    let tokens := min (r.burst : ℚ) (prior.tokens + max 0 (now - prior.stamp) * r.rate)
    some (tokens, (buckets.erase r.key).set r.key ⟨tokens, now⟩)

/-- The loop over the requirements: `available`, or `none` when a bucket found no room. -/
def probe (now : ℚ) : List Requirement → Dict BucketKey (Bucket ℚ) →
    Dict BucketKey (Bucket ℚ) × Option (List (Requirement × ℚ))
  | [], buckets => (buckets, some [])
  | r :: rest, buckets =>
    match L.refill now r buckets with
    | none => (buckets, none)
    | some (tokens, buckets) =>
      let (buckets, available) := probe now rest buckets
      (buckets, available.map ((r, tokens) :: ·))

end Limits

/-- `retry_seconds`. -/
def retrySeconds (available : List (Requirement × ℚ)) : ℚ :=
  available.foldl (fun seconds p =>
    if p.2 < p.1.required then max seconds ((p.1.required - p.2) / p.1.rate) else seconds) 0

/-- Every bucket pays. -/
def take (now : ℚ) (available : List (Requirement × ℚ)) (buckets : Dict BucketKey (Bucket ℚ)) :
    Dict BucketKey (Bucket ℚ) :=
  available.foldl (fun buckets p => buckets.set p.1.key ⟨p.2 - p.1.required, now⟩) buckets

inductive Refusal where
  /-- `ValueError`. -/
  | counts
  /-- `FleetRateLimitError`. -/
  | limited (retryAfterMs : ℤ)
  deriving DecidableEq

/-- `FleetRateLimitError(retry_after_ms)`. -/
def rateLimitError (retryAfterMs : ℤ) : Refusal := .limited (max 1 retryAfterMs)

/-- `self._stats[tenant_id]`. -/
def Limiter.statsOf (l : Limiter) (tenant : Str) : ℤ × ℤ := (l.stats.get? tenant).getD (0, 0)

namespace Limits

variable (L : Limits)

/-- `consume`; `none` when the request is admitted. -/
def consume (l : Limiter) (c : Call) : Limiter × Option Refusal :=
  if c.total < 1 ∨ c.deviceCounts.values.any (· < 1) then (l, some .counts)
  else
    match L.probe c.now (L.requirements c) l.buckets with
    | (buckets, none) => ({ l with buckets }, some (rateLimitError 1000))
    | (buckets, some available) =>
      let (accepted, rejected) := l.statsOf c.tenant
      if 0 < retrySeconds available then
        (⟨buckets, l.stats.set c.tenant (accepted, rejected + c.total)⟩,
          some (rateLimitError ⌈retrySeconds available * 1000⌉))
      else
        (⟨take c.now available buckets, l.stats.set c.tenant (accepted + c.total, rejected)⟩, none)

/-- One more call, after a run. -/
def step (w : Limiter × List Call) (c : Call) : Limiter × List Call :=
  ((L.consume w.1 c).1, if (L.consume w.1 c).2 = none then w.2 ++ [c] else w.2)

/-- A run of calls: the limiter, and the calls that were admitted. -/
def run (calls : List Call) : Limiter × List Call := calls.foldl L.step (.start, [])

/-! ### What a bucket has -/

def rate (k : BucketKey) : ℚ := if k.2 = [] then L.tenantRate else L.deviceRate

def burst (k : BucketKey) : ℕ := if k.2 = [] then L.tenantBurst else L.deviceBurst

/-- The tokens of a bucket at time `t`; one that does not exist yet is full. -/
def avail (buckets : Dict BucketKey (Bucket ℚ)) (k : BucketKey) (t : ℚ) : ℚ :=
  match buckets.get? k with
  | none => L.burst k
  | some b => b.level (L.rate k) (L.burst k) t

end Limits

/-- The events of a call that a bucket pays for. -/
def Call.cost (c : Call) (k : BucketKey) : ℤ :=
  if k.1 = c.tenant then
    if k.2 = [] then c.total else (c.deviceCounts.get? k.2).getD 0
  else 0

/-- The events that were admitted for a bucket between two times. -/
def admitted (calls : List Call) (k : BucketKey) (a b : ℚ) : ℤ :=
  ((calls.filter fun c => a ≤ c.now ∧ c.now ≤ b).map (Call.cost · k)).sum

/-- No bucket was written after `now`, and none is overdrawn. -/
structure Sound (buckets : Dict BucketKey (Bucket ℚ)) (now : ℚ) : Prop where
  past : ∀ k b, buckets.get? k = some b → b.stamp ≤ now
  solvent : ∀ k b, buckets.get? k = some b → 0 ≤ b.tokens

/-! ### Probing -/

variable {L : Limits} {now : ℚ} {buckets buckets' buckets'' : Dict BucketKey (Bucket ℚ)}

theorem rate_pos (k : BucketKey) : 0 < L.rate k := by
  rw [Limits.rate]
  split
  · exact L.tenantRate_pos
  · exact L.deviceRate_pos

theorem avail_none {k : BucketKey} (h : buckets.get? k = none) (t : ℚ) :
    L.avail buckets k t = L.burst k := by
  rw [Limits.avail, h]

theorem avail_some {k : BucketKey} {b : Bucket ℚ} (h : buckets.get? k = some b) (t : ℚ) :
    L.avail buckets k t = b.level (L.rate k) (L.burst k) t := by
  rw [Limits.avail, h]

theorem avail_le (k : BucketKey) (t : ℚ) : L.avail buckets k t ≤ L.burst k := by
  rw [Limits.avail]
  split
  · exact le_rfl
  · exact level_le t

theorem avail_nonneg (hs : Sound buckets now) (k : BucketKey) (t : ℚ) :
    0 ≤ L.avail buckets k t := by
  rw [Limits.avail]
  split
  · exact Nat.cast_nonneg _
  · rename_i b hb
    exact level_nonneg (rate_pos k).le (Nat.cast_nonneg _) (hs.solvent k b hb) t

theorem Sound.mono {later : ℚ} (hs : Sound buckets now) (h : now ≤ later) : Sound buckets later :=
  ⟨fun k b hb => (hs.past k b hb).trans h, hs.solvent⟩

/-- Buckets were written anew, or made; what they have is as before. -/
structure Probed (L : Limits) (now : ℚ) (buckets buckets' : Dict BucketKey (Bucket ℚ)) : Prop where
  sound : Sound buckets' now
  avail : ∀ k t, now ≤ t → L.avail buckets' k t = L.avail buckets k t
  kept : ∀ k, (buckets.get? k).isSome = true → (buckets'.get? k).isSome = true

theorem Probed.refl (hs : Sound buckets now) : Probed L now buckets buckets :=
  ⟨hs, fun _ _ _ => rfl, fun _ h => h⟩

theorem Probed.trans (h : Probed L now buckets buckets') (h' : Probed L now buckets' buckets'') :
    Probed L now buckets buckets'' :=
  ⟨h'.sound, fun k t ht => (h'.avail k t ht).trans (h.avail k t ht), fun k hk => h'.kept k (h.kept k hk)⟩

/-- The rate and burst of a requirement are those of its key. -/
def Priced (L : Limits) (r : Requirement) : Prop := r.rate = L.rate r.key ∧ r.burst = L.burst r.key

/-- Writing the level of a bucket changes nothing. -/
theorem Probed.restamp (hs : Sound buckets now) {k : BucketKey}
    (hset : buckets'.get? k = some ⟨L.avail buckets k now, now⟩)
    (hframe : ∀ j, j ≠ k → buckets'.get? j = buckets.get? j) : Probed L now buckets buckets' := by
  refine ⟨⟨fun j b hb => ?_, fun j b hb => ?_⟩, fun j t ht => ?_, fun j hj => ?_⟩
  · by_cases hjk : j = k
    · obtain rfl := Option.some.inj ((hjk ▸ hset).symm.trans hb)
      exact le_rfl
    · exact hs.past j b ((hframe j hjk).symm.trans hb)
  · by_cases hjk : j = k
    · subst hjk
      obtain rfl := Option.some.inj (hset.symm.trans hb)
      exact avail_nonneg (L := L) hs j now
    · exact hs.solvent j b ((hframe j hjk).symm.trans hb)
  · by_cases hjk : j = k
    · subst hjk
      rw [avail_some hset]
      rcases hb : buckets.get? j with _ | b
      · rw [avail_none hb, avail_none hb]
        exact level_full (rate_pos j).le ht
      · rw [avail_some hb, avail_some hb]
        exact level_restamp (rate_pos j).le (hs.past j b hb) ht
    · rw [Limits.avail, Limits.avail, hframe j hjk]
  · by_cases hjk : j = k
    · rw [hjk, hset]
      rfl
    · rwa [hframe j hjk]

theorem refill_some {r : Requirement} {tokens : ℚ} (hr : Priced L r) (hs : Sound buckets now)
    (h : L.refill now r buckets = some (tokens, buckets')) :
    tokens = L.avail buckets r.key now ∧ Probed L now buckets buckets' ∧
      (buckets'.get? r.key).isSome = true := by
  obtain ⟨hrate, hburst⟩ := hr
  rw [Limits.refill] at h
  split at h
  · rename_i hb
    split at h
    · cases h
    · obtain ⟨rfl, rfl⟩ := Prod.mk.inj (Option.some.inj h)
      have htokens : (r.burst : ℚ) = L.avail buckets r.key now := by rw [avail_none hb, hburst]
      refine ⟨htokens, .restamp hs (k := r.key) ?_ fun j hj => ?_, by simp⟩
      · rw [Dict.get?_set, if_pos rfl, htokens]
      · rw [Dict.get?_set, if_neg hj]
  · rename_i prior hb
    obtain ⟨rfl, rfl⟩ := Prod.mk.inj (Option.some.inj h)
    have htokens : min (r.burst : ℚ) (prior.tokens + max 0 (now - prior.stamp) * r.rate) =
        L.avail buckets r.key now := by
      rw [avail_some hb, hburst, hrate]
      rfl
    refine ⟨htokens, .restamp hs (k := r.key) ?_ fun j hj => ?_, by simp⟩
    · rw [Dict.get?_set, if_pos rfl, htokens]
    · rw [Dict.get?_set, if_neg hj, Dict.get?_erase, if_neg hj]

/-- There is no room only for a bucket that does not exist. -/
theorem refill_none {r : Requirement} (h : L.refill now r buckets = none) :
    buckets.get? r.key = none ∧ L.maxBuckets ≤ buckets.size := by
  rw [Limits.refill] at h
  split at h
  · rename_i hb
    split at h
    · rename_i hsize
      exact ⟨hb, hsize⟩
    · cases h
  · cases h

theorem probe_probed {rs : List Requirement} (hrs : ∀ r ∈ rs, Priced L r)
    (hs : Sound buckets now) : Probed L now buckets (L.probe now rs buckets).1 := by
  induction rs generalizing buckets with
  | nil => exact .refl hs
  | cons r rest ih =>
    rw [Limits.probe]
    rcases hr : L.refill now r buckets with _ | ⟨tokens, buckets'⟩
    · exact .refl hs
    · obtain ⟨-, hprobed, -⟩ := refill_some (hrs r List.mem_cons_self) hs hr
      exact hprobed.trans (ih (fun r hr => hrs r (List.mem_cons_of_mem _ hr)) hprobed.sound)

/-- What the loop finds in the buckets. -/
theorem probe_available {rs : List Requirement} {available : List (Requirement × ℚ)}
    (hrs : ∀ r ∈ rs, Priced L r) (hs : Sound buckets now)
    (h : (L.probe now rs buckets).2 = some available) :
    available = rs.map (fun r => (r, L.avail buckets r.key now)) ∧
      ∀ r ∈ rs, ((L.probe now rs buckets).1.get? r.key).isSome = true := by
  induction rs generalizing buckets available with
  | nil =>
    obtain rfl := Option.some.inj h
    exact ⟨rfl, by simp⟩
  | cons r rest ih =>
    rw [Limits.probe] at h ⊢
    rcases hr : L.refill now r buckets with _ | ⟨tokens, buckets'⟩
    · rw [hr] at h
      cases h
    · rw [hr] at h
      obtain ⟨rest', hrest, rfl⟩ := Option.map_eq_some_iff.mp h
      obtain ⟨htokens, hprobed, hsome⟩ := refill_some (hrs r List.mem_cons_self) hs hr
      have hrs' := fun r hr => hrs r (List.mem_cons_of_mem _ hr)
      obtain ⟨rfl, hkeys⟩ := ih hrs' hprobed.sound hrest
      refine ⟨?_, fun q hq => ?_⟩
      · rw [List.map_cons, htokens]
        congr 1
        exact List.map_congr_left fun q _ => by rw [hprobed.avail q.key now le_rfl]
      · rcases List.mem_cons.mp hq with rfl | hq
        · exact (probe_probed hrs' hprobed.sound).kept _ hsome
        · exact hkeys q hq

/-- The loop stops at a bucket that does not exist. -/
theorem probe_none {rs : List Requirement} (h : (L.probe now rs buckets).2 = none) :
    ∃ r ∈ rs, (L.probe now rs buckets).1.get? r.key = none := by
  induction rs generalizing buckets with
  | nil => cases h
  | cons r rest ih =>
    rw [Limits.probe] at h ⊢
    rcases hr : L.refill now r buckets with _ | ⟨tokens, buckets'⟩
    · exact ⟨r, List.mem_cons_self, (refill_none hr).1⟩
    · rw [hr] at h
      obtain ⟨q, hq, hnone⟩ := ih (Option.map_eq_none_iff.mp h)
      exact ⟨q, List.mem_cons_of_mem _ hq, hnone⟩

/-- When all buckets exist, they are found. -/
theorem probe_of_exists {rs : List Requirement} (hrs : ∀ r ∈ rs, Priced L r) (hs : Sound buckets now)
    (hall : ∀ r ∈ rs, (buckets.get? r.key).isSome = true) :
    ∃ available, (L.probe now rs buckets).2 = some available := by
  induction rs generalizing buckets with
  | nil => exact ⟨[], rfl⟩
  | cons r rest ih =>
    rw [Limits.probe]
    rcases hr : L.refill now r buckets with _ | ⟨tokens, buckets'⟩
    · have hmem := hall r List.mem_cons_self
      rw [(refill_none hr).1] at hmem
      cases hmem
    · obtain ⟨-, hprobed, -⟩ := refill_some (hrs r List.mem_cons_self) hs hr
      obtain ⟨available, havailable⟩ := ih (fun r hr => hrs r (List.mem_cons_of_mem _ hr)) hprobed.sound
        fun r hr => hprobed.kept _ (hall r (List.mem_cons_of_mem _ hr))
      exact ⟨(r, tokens) :: available, by simp [havailable]⟩

/-! ### The retry hint -/

theorem retrySeconds_spec (available : List (Requirement × ℚ)) :
    (∀ p ∈ available, p.2 < p.1.required →
      (p.1.required - p.2) / p.1.rate ≤ retrySeconds available) ∧
    ((∀ p ∈ available, (p.1.required : ℚ) ≤ p.2) → retrySeconds available = 0) := by
  rw [retrySeconds]
  induction available using List.reverseRecOn with
  | nil => simp
  | append_singleton available q ih =>
    obtain ⟨hmissing, hnone⟩ := ih
    rw [List.foldl_append, List.foldl_cons, List.foldl_nil]
    refine ⟨fun p hp hlt => ?_, fun hall => ?_⟩
    · rcases List.mem_append.mp hp with hp | hp
      · refine (hmissing p hp hlt).trans ?_
        split
        · exact le_max_left _ _
        · exact le_rfl
      · obtain rfl := List.mem_singleton.mp hp
        rw [if_pos hlt]
        exact le_max_right _ _
    · rw [if_neg (not_lt.mpr (hall q (by simp)))]
      exact hnone fun p hp => hall p (List.mem_append_left _ hp)

theorem retrySeconds_pos {available : List (Requirement × ℚ)} (hrate : ∀ p ∈ available, 0 < p.1.rate) :
    0 < retrySeconds available ↔ ∃ p ∈ available, p.2 < p.1.required := by
  obtain ⟨hmissing, hnone⟩ := retrySeconds_spec available
  constructor
  · intro hpos
    by_contra hall
    push Not at hall
    exact hpos.ne' (hnone hall)
  · rintro ⟨p, hp, hlt⟩
    exact (div_pos (sub_pos.mpr hlt) (hrate p hp)).trans_le (hmissing p hp hlt)

/-! ### Paying -/

theorem take_of_notMem {k : BucketKey} : ∀ {available : List (Requirement × ℚ)}
    {buckets : Dict BucketKey (Bucket ℚ)}, (∀ p ∈ available, p.1.key ≠ k) →
    (take now available buckets).get? k = buckets.get? k
  | [], _, _ => rfl
  | p :: rest, buckets, h => by
    rw [take, List.foldl_cons, ← take,
      take_of_notMem fun q hq => h q (List.mem_cons_of_mem _ hq), Dict.get?_set,
      if_neg (h p List.mem_cons_self).symm]

theorem take_of_mem {p : Requirement × ℚ} : ∀ {available : List (Requirement × ℚ)}
    {buckets : Dict BucketKey (Bucket ℚ)}, (available.map (·.1.key)).Nodup → p ∈ available →
    (take now available buckets).get? p.1.key = some ⟨p.2 - p.1.required, now⟩
  | [], _, _, h => by cases h
  | q :: rest, buckets, hn, h => by
    rw [List.map_cons, List.nodup_cons] at hn
    rw [take, List.foldl_cons, ← take]
    rcases List.mem_cons.mp h with rfl | h
    · rw [take_of_notMem fun r hr he => hn.1 (List.mem_map.mpr ⟨r, hr, he⟩), Dict.get?_set,
        if_pos rfl]
    · exact take_of_mem hn.2 h

/-! ### One call -/

variable {c : Call} {l : Limiter}

theorem mem_requirements {r : Requirement} (hr : r ∈ L.requirements c) :
    Priced L r ∧ r.required = c.cost r.key := by
  rw [Limits.requirements] at hr
  rcases List.mem_cons.mp hr with rfl | hr
  · exact ⟨⟨(if_pos rfl).symm, (if_pos rfl).symm⟩, by rw [Call.cost, if_pos rfl, if_pos rfl]⟩
  · obtain ⟨d, hd, rfl⟩ := List.mem_map.mp hr
    have hmem := (List.perm_insertionSort textLe _).subset hd
    have hname := c.named d hmem
    refine ⟨⟨(if_neg hname).symm, (if_neg hname).symm⟩, ?_⟩
    rw [Call.cost, if_pos rfl, if_neg hname, Dict.mem_items.mp hmem]
    rfl

theorem cost_of_notMem {k : BucketKey} (h : ∀ r ∈ L.requirements c, r.key ≠ k) : c.cost k = 0 := by
  rw [Call.cost]
  split
  · rename_i htenant
    split
    · rename_i hdevice
      exact absurd (Prod.ext htenant.symm hdevice.symm)
        (h ⟨(c.tenant, []), c.total, L.tenantRate, L.tenantBurst⟩ List.mem_cons_self)
    · rcases hd : c.deviceCounts.get? k.2 with _ | count
      · rfl
      · have hmem := (List.perm_insertionSort textLe _).mem_iff.mpr (Dict.mem_items.mpr hd)
        have hne := h ⟨(c.tenant, k.2), count, L.deviceRate, L.deviceBurst⟩
          (List.mem_cons_of_mem _ (List.mem_map.mpr ⟨_, hmem, rfl⟩))
        exact (hne (Prod.ext htenant.symm rfl)).elim
  · rfl

theorem requirements_nodup (c : Call) : ((L.requirements c).map (·.key)).Nodup := by
  rw [Limits.requirements, List.map_cons, List.map_map, List.nodup_cons]
  constructor
  · intro hmem
    obtain ⟨d, hd, he⟩ := List.mem_map.mp hmem
    exact c.named d ((List.perm_insertionSort textLe _).subset hd) (Prod.mk.inj he).2
  · have hdevices : ((c.deviceCounts.items.insertionSort textLe).map Prod.fst).Nodup :=
      ((List.perm_insertionSort textLe _).map Prod.fst).nodup_iff.mpr c.deviceCounts.nodup
    have hinj := List.Nodup.map (f := fun d => (c.tenant, d)) (fun _ _ he => (Prod.mk.inj he).2) hdevices
    rwa [List.map_map] at hinj

theorem avail_grow (hs : Sound buckets now) (k : BucketKey) {t : ℚ} (ht : now ≤ t) :
    L.avail buckets k t ≤ L.avail buckets k now + (t - now) * L.rate k := by
  have hgrow : 0 ≤ (t - now) * L.rate k := mul_nonneg (sub_nonneg.mpr ht) (rate_pos k).le
  rcases hb : buckets.get? k with _ | b
  · rw [avail_none hb, avail_none hb]
    exact le_add_of_nonneg_right hgrow
  · rw [avail_some hb, avail_some hb]
    have hle : Bucket.level (L.rate k) (L.burst k) ⟨b.level (L.rate k) (L.burst k) now - 0, now⟩ t ≤
        b.level (L.rate k) (L.burst k) now - 0 + (t - now) * L.rate k := level_take_le ht
    rw [sub_zero, level_restamp (rate_pos k).le (hs.past k b hb) ht] at hle
    exact hle

/-- An admitted call: every bucket had its events, and is charged for them. -/
structure Paid (L : Limits) (c : Call) (buckets buckets' : Dict BucketKey (Bucket ℚ)) : Prop where
  sound : Sound buckets' c.now
  enough : ∀ k, (c.cost k : ℚ) ≤ L.avail buckets k c.now
  avail : ∀ k t, c.now ≤ t →
    L.avail buckets' k t ≤ L.avail buckets k c.now - c.cost k + (t - c.now) * L.rate k

theorem take_paid {available : List (Requirement × ℚ)} (hprobed : Probed L c.now buckets buckets')
    (havailable : available = (L.requirements c).map fun r => (r, L.avail buckets r.key c.now))
    (henough : ∀ p ∈ available, (p.1.required : ℚ) ≤ p.2) :
    Paid L c buckets (take c.now available buckets') := by
  have hkeys : (available.map (·.1.key)).Nodup := by
    rw [havailable, List.map_map]
    exact requirements_nodup c
  -- a bucket of the request, and one of the others
  have hpays : ∀ k, (∃ p ∈ available, p.1.key = k ∧ p.2 = L.avail buckets k c.now ∧
      p.1.required = c.cost k) ∨ (∀ p ∈ available, p.1.key ≠ k) ∧ c.cost k = 0 := by
    intro k
    by_cases hk : ∃ r ∈ L.requirements c, r.key = k
    · obtain ⟨r, hr, rfl⟩ := hk
      exact Or.inl ⟨_, havailable ▸ List.mem_map_of_mem hr, rfl, rfl, (mem_requirements hr).2⟩
    · push Not at hk
      refine Or.inr ⟨fun p hp => ?_, cost_of_notMem hk⟩
      obtain ⟨r, hr, rfl⟩ := List.mem_map.mp (havailable ▸ hp)
      exact hk r hr
  refine ⟨⟨fun k b hb => ?_, fun k b hb => ?_⟩, fun k => ?_, fun k t ht => ?_⟩
  · rcases hpays k with ⟨p, hp, rfl, -, -⟩ | ⟨hne, -⟩
    · rw [take_of_mem hkeys hp] at hb
      obtain rfl := Option.some.inj hb
      exact le_rfl
    · rw [take_of_notMem hne] at hb
      exact hprobed.sound.past k b hb
  · rcases hpays k with ⟨p, hp, rfl, -, -⟩ | ⟨hne, -⟩
    · rw [take_of_mem hkeys hp] at hb
      obtain rfl := Option.some.inj hb
      exact sub_nonneg.mpr (henough p hp)
    · rw [take_of_notMem hne] at hb
      exact hprobed.sound.solvent k b hb
  · rcases hpays k with ⟨p, hp, rfl, htokens, hcost⟩ | ⟨-, hcost⟩
    · rw [← htokens, ← hcost]
      exact henough p hp
    · rw [hcost, ← hprobed.avail k c.now le_rfl, Int.cast_zero]
      exact avail_nonneg hprobed.sound k c.now
  · rcases hpays k with ⟨p, hp, rfl, htokens, hcost⟩ | ⟨hne, hcost⟩
    · rw [avail_some (take_of_mem hkeys hp), htokens, hcost]
      exact (level_of_le (b := ⟨_, c.now⟩) ht).trans_le (min_le_right _ _)
    · have hgrow := avail_grow (L := L) hprobed.sound k ht
      rw [hprobed.avail k c.now le_rfl] at hgrow
      rw [Limits.avail, take_of_notMem hne, hcost, Int.cast_zero, sub_zero]
      exact hgrow

/-- What a call does: it is admitted and paid for, or refused and nothing is taken. -/
theorem consume_cases (hs : Sound l.buckets c.now) :
    ((L.consume l c).2 = none ∧ Paid L c l.buckets (L.consume l c).1.buckets) ∨
      ∃ e, (L.consume l c).2 = some e ∧ Probed L c.now l.buckets (L.consume l c).1.buckets := by
  have hpriced : ∀ r ∈ L.requirements c, Priced L r := fun r hr => (mem_requirements hr).1
  have hprobed := probe_probed hpriced hs
  rw [Limits.consume]
  split
  · exact Or.inr ⟨_, rfl, .refl hs⟩
  · rcases hp : L.probe c.now (L.requirements c) l.buckets with ⟨buckets, _ | available⟩
    · rw [hp] at hprobed
      exact Or.inr ⟨_, rfl, hprobed⟩
    · have hfound := (probe_available hpriced hs (congrArg Prod.snd hp)).1
      rw [hp] at hprobed
      have hrate : ∀ p ∈ available, 0 < p.1.rate := by
        intro p hp
        obtain ⟨r, hr, rfl⟩ := List.mem_map.mp (hfound ▸ hp)
        rw [(hpriced r hr).1]
        exact rate_pos _
      by_cases hretry : 0 < retrySeconds available
      · simp only [if_pos hretry]
        exact Or.inr ⟨_, rfl, hprobed⟩
      · simp only [if_neg hretry]
        rw [retrySeconds_pos hrate] at hretry
        push Not at hretry
        exact Or.inl ⟨trivial, take_paid hprobed hfound hretry⟩

/-! ### Runs -/

variable {calls between : List Call}

/-- No call came after `t`. -/
def Late (calls : List Call) (t : ℚ) : Prop := ∀ c ∈ calls, c.now ≤ t

/-- What a bucket paid, and when. -/
def payments (calls : List Call) (k : BucketKey) : List (ℚ × ℚ) :=
  calls.map fun c => (c.now, (c.cost k : ℚ))

structure Invariant (L : Limits) (calls : List Call) : Prop where
  sound : ∀ t, Late calls t → Sound (L.run calls).1.buckets t
  admitted : ∀ c ∈ (L.run calls).2, c ∈ calls
  within : ∀ k, Within (L.rate k) (L.burst k) (payments (L.run calls).2 k) (Late calls)
    (L.avail (L.run calls).1.buckets k)

theorem run_append (calls : List Call) (c : Call) :
    L.run (calls ++ [c]) = L.step (L.run calls) c := by
  rw [Limits.run, List.foldl_append, List.foldl_cons, List.foldl_nil, ← Limits.run]

theorem late_append {t : ℚ} : Late (calls ++ [c]) t ↔ Late calls t ∧ c.now ≤ t := by
  simp [Late, or_imp, forall_and]

theorem invariant_start : Invariant L [] := by
  refine ⟨fun t _ => ⟨?_, ?_⟩, ?_, fun k => ?_⟩
  · exact fun k b hb => by cases hb
  · exact fun k b hb => by cases hb
  · exact fun c hc => by cases hc
  · exact Within.start (rate_pos k).le fun t _ => avail_le k t

theorem invariant_step (h : Invariant L calls) (hlate : Late calls c.now) :
    Invariant L (calls ++ [c]) := by
  have hs := h.sound c.now hlate
  have hmono : ∀ d ∈ (L.run calls).2, d ∈ calls ++ [c] := fun d hd =>
    List.mem_append_left _ (h.admitted d hd)
  rcases consume_cases hs with ⟨hok, hpaid⟩ | ⟨e, he, hprobed⟩
  · have hlog : (L.run (calls ++ [c])).2 = (L.run calls).2 ++ [c] := by
      rw [run_append, Limits.step, if_pos hok]
    refine ⟨fun t ht => ?_, fun d hd => ?_, fun k => ?_⟩
    · rw [run_append]
      exact hpaid.sound.mono (late_append.mp ht).2
    · rw [hlog] at hd
      rcases List.mem_append.mp hd with hd | hd
      · exact hmono d hd
      · exact List.mem_append_right _ hd
    · rw [hlog, payments, List.map_append, ← payments, run_append]
      refine (h.within k).take (rate_pos k).le hlate ?_ (fun t _ => avail_le k t) fun t ht =>
        hpaid.avail k t (late_append.mp ht).2
      intro e he
      obtain ⟨d, hd, rfl⟩ := List.mem_map.mp he
      exact hlate d (h.admitted d hd)
  · have hlog : (L.run (calls ++ [c])).2 = (L.run calls).2 := by
      have hne : (L.consume (L.run calls).1 c).2 ≠ none := he ▸ Option.some_ne_none e
      rw [run_append, Limits.step, if_neg hne]
    refine ⟨fun t ht => ?_, fun d hd => hmono d (hlog ▸ hd), fun k => ?_⟩
    · rw [run_append]
      exact hprobed.sound.mono (late_append.mp ht).2
    · rw [hlog, run_append]
      exact (h.within k).wait (fun t ht => (late_append.mp ht).1) fun t ht =>
        (hprobed.avail k t (late_append.mp ht).2).le

theorem sorted_append (h : (calls ++ [c]).Pairwise (·.now ≤ ·.now)) :
    calls.Pairwise (·.now ≤ ·.now) ∧ Late calls c.now := by
  obtain ⟨hcalls, -, hlate⟩ := List.pairwise_append.mp h
  exact ⟨hcalls, fun d hd => hlate d hd c List.mem_cons_self⟩

theorem invariant_run (h : calls.Pairwise (·.now ≤ ·.now)) : Invariant L calls := by
  induction calls using List.reverseRecOn with
  | nil => exact invariant_start
  | append_singleton calls c ih =>
    obtain ⟨hcalls, hlate⟩ := sorted_append h
    exact invariant_step (ih hcalls) hlate

theorem admitted_eq_spent {k : BucketKey} {a b : ℚ} (h : Late calls b) :
    (admitted calls k a b : ℚ) = spent (payments calls k) a := by
  have hfilter : calls.filter (fun c => a ≤ c.now ∧ c.now ≤ b) = calls.filter (a ≤ ·.now) := by
    refine List.filter_congr fun c hc => ?_
    simp [h c hc]
  rw [admitted, hfilter, payments, spent, List.filter_map, List.map_map, Int.cast_list_sum,
    List.map_map]
  rfl

/-- In any window of time a bucket pays for no more than its burst and what its rate adds. -/
theorem admitted_le (h : calls.Pairwise (·.now ≤ ·.now)) (k : BucketKey) {a b : ℚ} (hab : a ≤ b) :
    (admitted (L.run calls).2 k a b : ℚ) ≤ L.burst k + L.rate k * (b - a) := by
  induction calls using List.reverseRecOn with
  | nil =>
    have hgrow : 0 ≤ L.rate k * (b - a) := mul_nonneg (rate_pos k).le (sub_nonneg.mpr hab)
    have hburst : (0 : ℚ) ≤ L.burst k := Nat.cast_nonneg _
    have hzero : admitted (L.run []).2 k a b = 0 := rfl
    rw [hzero, Int.cast_zero]
    linarith
  | append_singleton calls c ih =>
    obtain ⟨hcalls, hlate⟩ := sorted_append h
    by_cases hc : c.now ≤ b
    -- the window holds every call that came after it opened
    · have hend : Late (calls ++ [c]) b := late_append.mpr ⟨fun d hd => (hlate d hd).trans hc, hc⟩
      have hinv := invariant_run (L := L) h
      have hlog : Late (L.run (calls ++ [c])).2 b := fun d hd => hend d (hinv.admitted d hd)
      have hwithin := hinv.within k a b hend hab
      have hleft := avail_nonneg (L := L) (hinv.sound b hend) k b
      rw [admitted_eq_spent hlog]
      linarith
    · have hsame : admitted (L.run (calls ++ [c])).2 k a b = admitted (L.run calls).2 k a b := by
        rw [run_append, Limits.step]
        split
        · simp [admitted, List.filter_append, hc]
        · rfl
      rw [hsame]
      exact ih hcalls

/-! ### Refusals -/

/-- The bursts allow the request. -/
def Call.Fits (L : Limits) (c : Call) : Prop := ∀ r ∈ L.requirements c, r.required ≤ r.burst

/-- Every bucket of the request exists. -/
def Call.Tracked (L : Limits) (c : Call) (l : Limiter) : Prop :=
  ∀ r ∈ L.requirements c, (l.buckets.get? r.key).isSome = true

theorem step_log_le (w : Limiter × List Call) (c : Call) :
    w.2.length ≤ (L.step w c).2.length := by
  rw [Limits.step]
  split
  · simp
  · exact le_rfl

theorem run_log_le (before between : List Call) :
    (L.run before).2.length ≤ (L.run (before ++ between)).2.length := by
  induction between using List.reverseRecOn with
  | nil => rw [List.append_nil]
  | append_singleton between c ih =>
    rw [← List.append_assoc, run_append]
    exact ih.trans (step_log_le _ c)

/-- Refused calls leave what every bucket has. -/
theorem run_refused {before : List Call} (h : (before ++ between).Pairwise (·.now ≤ ·.now))
    (hnone : (L.run (before ++ between)).2.length ≤ (L.run before).2.length) :
    ∀ t, Late (before ++ between) t →
      Probed L t (L.run before).1.buckets (L.run (before ++ between)).1.buckets := by
  induction between using List.reverseRecOn with
  | nil =>
    intro t ht
    rw [List.append_nil] at h ht ⊢
    exact .refl ((invariant_run h).sound t ht)
  | append_singleton between c ih =>
    intro t ht
    rw [← List.append_assoc] at h hnone ht ⊢
    obtain ⟨hbefore, hlate⟩ := sorted_append h
    have hs := (invariant_run (L := L) hbefore).sound c.now hlate
    rw [run_append] at hnone ⊢
    have hless : (L.run (before ++ between)).2.length ≤ (L.run before).2.length :=
      (step_log_le _ c).trans hnone
    have hprev := ih hbefore hless t (late_append.mp ht).1
    rcases consume_cases hs with ⟨hok, -⟩ | ⟨e, -, hprobed⟩
    · rw [Limits.step, if_pos hok, List.length_append, List.length_singleton] at hnone
      have hgrown := run_log_le (L := L) before between
      omega
    · have hnow := (late_append.mp ht).2
      exact hprev.trans ⟨hprobed.sound.mono hnow, fun k u hu => hprobed.avail k u (hnow.trans hu),
        hprobed.kept⟩

/-- A refusal for want of tokens says how long to wait for every bucket. -/
theorem wait_of_limited (hs : Sound l.buckets c.now) {m : ℤ}
    (h : (L.consume l c).2 = some (.limited m)) (htracked : c.Tracked L (L.consume l c).1) :
    (1 ≤ c.total ∧ ∀ n ∈ c.deviceCounts.values, 1 ≤ n) ∧ ∀ r ∈ L.requirements c,
      ((r.required : ℚ) - L.avail l.buckets r.key c.now) / L.rate r.key ≤ m / 1000 := by
  have hpriced : ∀ r ∈ L.requirements c, Priced L r := fun r hr => (mem_requirements hr).1
  rw [Limits.consume] at h htracked
  split at h
  · cases Option.some.inj h
  · rename_i hcounts
    rw [if_neg hcounts] at htracked
    refine ⟨by simpa using hcounts, fun r hr => ?_⟩
    rcases hp : L.probe c.now (L.requirements c) l.buckets with ⟨buckets, _ | available⟩
    -- without room for a bucket the request does not have them all
    · obtain ⟨q, hq, hmissing⟩ := probe_none (congrArg Prod.snd hp)
      have hexists := htracked q hq
      simp only [hp] at hexists hmissing
      rw [hmissing] at hexists
      cases hexists
    · have hfound := (probe_available hpriced hs (congrArg Prod.snd hp)).1
      rw [hp] at h
      by_cases hretry : 0 < retrySeconds available
      · simp only [if_pos hretry, rateLimitError, Option.some.injEq, Refusal.limited.injEq] at h
        have hceil : (⌈retrySeconds available * 1000⌉ : ℚ) ≤ m := by
          exact_mod_cast h ▸ le_max_right _ _
        have hm := (Int.le_ceil (retrySeconds available * 1000)).trans hceil
        have hmem : (r, L.avail l.buckets r.key c.now) ∈ available :=
          hfound ▸ List.mem_map_of_mem hr
        rw [le_div_iff₀ (by norm_num)]
        refine le_trans (mul_le_mul_of_nonneg_right ?_ (by norm_num)) hm
        by_cases hlt : L.avail l.buckets r.key c.now < r.required
        · rw [← (hpriced r hr).1]
          exact (retrySeconds_spec available).1 _ hmem hlt
        · exact (div_nonpos_of_nonpos_of_nonneg (sub_nonpos.mpr (not_lt.mp hlt))
            (rate_pos _).le).trans hretry.le
      · simp only [if_neg hretry] at h
        cases h

/-- A call whose buckets exist and have its events is admitted. -/
theorem consume_admits (hs : Sound l.buckets c.now)
    (hcounts : 1 ≤ c.total ∧ ∀ n ∈ c.deviceCounts.values, 1 ≤ n) (htracked : c.Tracked L l)
    (henough : ∀ r ∈ L.requirements c, (r.required : ℚ) ≤ L.avail l.buckets r.key c.now) :
    (L.consume l c).2 = none := by
  have hpriced : ∀ r ∈ L.requirements c, Priced L r := fun r hr => (mem_requirements hr).1
  obtain ⟨available, havailable⟩ := probe_of_exists hpriced hs htracked
  have hfound := (probe_available hpriced hs havailable).1
  have hretry : retrySeconds available = 0 := by
    refine (retrySeconds_spec available).2 fun p hp => ?_
    obtain ⟨r, hr, rfl⟩ := List.mem_map.mp (hfound ▸ hp)
    exact henough r hr
  rw [Limits.consume, if_neg (by simpa using hcounts)]
  rcases hp : L.probe c.now (L.requirements c) l.buckets with ⟨buckets, found⟩
  rw [hp] at havailable
  obtain rfl : found = some available := havailable
  simp only [hretry, lt_irrefl, if_false]

/-- After a refusal for want of tokens, the same request is admitted once the time that the refusal
    names has passed, unless another one was admitted. -/
theorem retry_admitted {before : List Call} {m : ℤ} {t : ℚ}
    (h : (before ++ c :: between).Pairwise (·.now ≤ ·.now)) (hfits : c.Fits L)
    (hlimited : (L.consume (L.run before).1 c).2 = some (.limited m))
    (htracked : c.Tracked L (L.run (before ++ [c])).1)
    (hnone : (L.run (before ++ c :: between)).2 = (L.run before).2)
    (hlate : Late (before ++ c :: between) t) (hwait : c.now + m / 1000 ≤ t) :
    (L.consume (L.run (before ++ c :: between)).1 { c with now := t }).2 = none := by
  have hassoc : before ++ c :: between = (before ++ [c]) ++ between := by simp
  have hsorted : (before ++ [c]).Pairwise (·.now ≤ ·.now) :=
    h.sublist ((List.singleton_sublist.mpr List.mem_cons_self).append_left before)
  obtain ⟨hbefore, hbeforeLate⟩ := sorted_append hsorted
  have hs := (invariant_run (L := L) hbefore).sound c.now hbeforeLate
  have hstep : (L.run (before ++ [c])).1 = (L.consume (L.run before).1 c).1 := by
    rw [run_append, Limits.step]
  have htracked' := hstep ▸ htracked
  obtain ⟨hcounts, hmissing⟩ := wait_of_limited hs hlimited htracked'
  have hnow : c.now ≤ t := hlate c (by simp)
  have hafter : Probed L t (L.run before).1.buckets (L.run (before ++ c :: between)).1.buckets :=
    run_refused h (congrArg List.length hnone).le t hlate
  have hkept : Probed L t (L.run (before ++ [c])).1.buckets
      (L.run (before ++ c :: between)).1.buckets := by
    rw [hassoc] at h hnone hlate ⊢
    exact run_refused h (hnone ▸ run_log_le before [c]) t hlate
  refine consume_admits (c := { c with now := t }) hafter.sound hcounts
    (fun r hr => hkept.kept r.key (htracked r hr)) fun r hr => ?_
  have hr' : r ∈ L.requirements c := hr
  rw [hafter.avail r.key t le_rfl]
  have hwait' := (hmissing r hr').trans (show (m : ℚ) / 1000 ≤ t - c.now by linarith)
  have hburst : (r.required : ℚ) ≤ L.burst r.key := by
    rw [← (mem_requirements hr').1.2]
    exact_mod_cast hfits r hr'
  rcases hb : (L.run before).1.buckets.get? r.key with _ | b
  · rwa [avail_none hb]
  · rw [avail_some hb] at hwait' ⊢
    exact le_level_of_wait (rate_pos _) (hs.past _ b hb) hburst hnow hwait'

/-- What the limiter owes to every tenant and device over a run of calls. -/
structure Correct (L : Limits) (calls : List Call) : Prop where
  bounded : ∀ k a b, a ≤ b →
    (admitted (L.run calls).2 k a b : ℚ) ≤ L.burst k + L.rate k * (b - a)
  refused : ∀ before c after, calls = before ++ c :: after →
    (L.consume (L.run before).1 c).2 ≠ none → ∀ k t, c.now ≤ t →
      L.avail (L.run (before ++ [c])).1.buckets k t = L.avail (L.run before).1.buckets k t
  retried : ∀ before c between m t, calls = before ++ c :: between → c.Fits L →
    (L.consume (L.run before).1 c).2 = some (.limited m) →
    c.Tracked L (L.run (before ++ [c])).1 → (L.run calls).2 = (L.run before).2 →
    Late calls t → c.now + m / 1000 ≤ t →
      (L.consume (L.run calls).1 { c with now := t }).2 = none

/-- CORRECT: what is admitted in a window of time is within the bound of every tenant and device; a
    refused call takes nothing; and the hint of a refusal for want of tokens is long enough. -/
theorem consume_correct (L : Limits) {calls : List Call}
    (h : calls.Pairwise (·.now ≤ ·.now)) : Correct L calls := by
  refine ⟨fun k a b hab => admitted_le h k hab, ?_, ?_⟩
  · rintro before c after rfl hrefused k t ht
    have hsorted : (before ++ [c]).Pairwise (·.now ≤ ·.now) :=
      h.sublist ((List.singleton_sublist.mpr List.mem_cons_self).append_left before)
    obtain ⟨hbefore, hlate⟩ := sorted_append hsorted
    rcases consume_cases ((invariant_run (L := L) hbefore).sound c.now hlate) with
      ⟨hok, -⟩ | ⟨e, -, hprobed⟩
    · exact absurd hok hrefused
    · rw [run_append, Limits.step]
      exact hprobed.avail k t ht
  · rintro before c between m t rfl hfits hlimited htracked hnone hlate hwait
    exact retry_admitted h hfits hlimited htracked hnone hlate hwait

/-! ### A full table -/

def sampleLimits : Limits :=
  { tenantRate := 10, deviceRate := 1, tenantBurst := 200, deviceBurst := 1, maxBuckets := 100
    tenantRate_pos := by norm_num, deviceRate_pos := by norm_num, tenantBurst_pos := by decide
    deviceBurst_pos := by decide, maxBuckets_bounds := by decide }

/-- A call with one event of one device. -/
def Call.one (now : ℚ) (tenant : Str) (device : Char) : Call :=
  ⟨now, tenant, ⟨[([device], 1)], by simp⟩, by simp⟩

theorem consume_correct_sample :
    Correct sampleLimits [.one 0 ['a'] 'd', .one 0 ['a'] 'd', .one 1 ['a'] 'd'] :=
  consume_correct _ (by simp [Call.one])

/-- Ninety-nine devices of one tenant fill the table. -/
def crowd : Call :=
  ⟨0, ['a'], ⟨(List.range 99).map fun i => ([Char.ofNat (200 + i)], 1), by decide +kernel⟩,
    by decide +kernel⟩

/-- A request that needs a bucket when the table is full is refused as it stands. -/
theorem consume_full {r : Requirement} {rest : List Requirement}
    (hcounts : ¬(c.total < 1 ∨ c.deviceCounts.values.any (· < 1)))
    (hrequirements : L.requirements c = r :: rest) (hmissing : l.buckets.get? r.key = none)
    (hfull : L.maxBuckets ≤ l.buckets.size) : L.consume l c = (l, some (.limited 1000)) := by
  rw [Limits.consume, if_neg hcounts, hrequirements, Limits.probe, Limits.refill, hmissing]
  simp only [if_pos hfull]
  rfl

/-- Another tenant finds no room: it is told to come back in a second, and it is refused then and
    at any later time, with nobody admitted and no bucket made in between. -/
theorem full_table_refuses : (sampleLimits.consume .start crowd).2 = none ∧
    (Call.one 0 ['b'] 'd').Fits sampleLimits ∧
    ∀ t, sampleLimits.consume (sampleLimits.run [crowd]).1 (.one t ['b'] 'd') =
      ((sampleLimits.run [crowd]).1, some (.limited 1000)) := by
  refine ⟨by decide +kernel, ?_, fun t => ?_⟩
  · intro r hr
    fin_cases hr <;> decide
  · have hmissing : ((sampleLimits.run [crowd]).1.buckets.get? (['b'], [])) = none :=
      Option.isNone_iff_eq_none.mp (by decide +kernel)
    exact consume_full (by simp [Call.one, Call.total, Dict.values]) rfl hmissing (by decide +kernel)

end Angerona.Fleet.RateLimit
