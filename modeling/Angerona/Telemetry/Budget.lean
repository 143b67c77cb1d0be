import Angerona.Lib.Dict
import Mathlib.Data.Rat.Defs
import Mathlib.Algebra.Order.Ring.Rat

/-!
    Admission of telemetry writes, `TelemetryStorageBudget` in `core/telemetry_storage_policy.py`.

    Each method is one section under the lock, but for `refresh_on_worker`, which leaves the lock
    while the sampler looks at the files. -/

namespace Angerona.Telemetry

def mib : ℕ := 1024 * 1024

/-- `STORAGE_UNIT_BYTES`. -/
def storageUnitBytes : ℕ := mib

/-- `STORAGE_REASONS`, without the empty one. -/
inductive Reason where
  | unconfigured | factsUnmeasured | factsStale | probePending | operatorBlocked | dbTarget
  | walTarget | freeFloor | probeFailed | identityChanged | unitTooLarge
  deriving DecidableEq

/-- `STORAGE_STATES`. -/
inductive State where
  | unconfigured | unmeasured | ready | held | unavailable
  deriving DecidableEq

structure Policy where
  blocked : Bool
  dbTargetBytes : ℕ
  walTargetBytes : ℕ
  minFreeBytes : ℕ

/-- The bounds of `configure`. -/
def Policy.ok (p : Policy) : Bool :=
  (16 * mib ≤ p.dbTargetBytes ∧ p.dbTargetBytes ≤ 16384 * mib) ∧
    (4 * mib ≤ p.walTargetBytes ∧ p.walTargetBytes ≤ 1024 * mib) ∧
    512 * mib ≤ p.minFreeBytes ∧ p.minFreeBytes ≤ 65536 * mib

structure Facts where
  dbBytes : ℕ
  walBytes : ℕ
  shmBytes : ℕ
  freeBytes : ℕ

/-- The device and the inode of the directory, and those of the database. -/
structure Identity where
  parent : ℕ × ℕ
  db : ℕ × ℕ
  deriving DecidableEq

/-- What the sampler returns, when it returns whole numbers that are not negative. -/
structure Sample where
  facts : Facts
  identity : Identity

/-- The checks on what the sampler returned. -/
def Sample.ok (s : Sample) : Bool :=
  (s.facts.dbBytes < 2 ^ 63 ∧ s.facts.walBytes < 2 ^ 63 ∧ s.facts.shmBytes < 2 ^ 63 ∧
    s.facts.freeBytes < 2 ^ 63) ∧
    (0 < s.identity.parent.1 ∧ 0 < s.identity.parent.2 ∧ 0 < s.identity.db.1 ∧
      0 < s.identity.db.2) ∧ s.identity.parent.1 = s.identity.db.1

structure Budget where
  policy : Option Policy
  generation : ℕ
  factsGeneration : ℕ
  facts : Option Facts
  observed : Option ℚ
  age : Option ℚ
  stale : Bool
  probing : Bool
  lastProbe : Option ℚ
  dirty : Bool
  identity : Option Identity
  reason : Option Reason
  state : State
  reserved : ℤ
  leases : Dict ℕ ℕ
  serial : ℕ
  holdAttempts : ℕ

namespace Budget

/-- `__init__`. -/
def new : Budget where
  policy := none
  generation := 0
  factsGeneration := 0
  facts := none
  observed := none
  age := none
  stale := true
  probing := false
  lastProbe := none
  dirty := false
  identity := none
  reason := some .unconfigured
  state := .unconfigured
  reserved := 0
  leases := .empty
  serial := 0
  holdAttempts := 0

/-- `configure`: whether the policy is accepted, and the budget afterwards. -/
def configure (b : Budget) (p : Policy) : Bool × Budget :=
  if p.ok = false then (false, b)
  else (true, { b with
    policy := some p
    generation := b.generation + 1
    stale := true
    state := if p.blocked then .held else .unmeasured
    reason := some (if p.blocked then .operatorBlocked else .factsUnmeasured) })

/-- `self._reason in {"probe_failed", "identity_changed"}`. -/
def unavailable (b : Budget) : Bool :=
  b.reason = some .probeFailed ∨ b.reason = some .identityChanged

/-- `_reason_locked`; `none` is the empty reason. -/
def reasonLocked (b : Budget) : Option Reason :=
  match b.policy with
  | none => some .unconfigured
  | some policy =>
    if policy.blocked then some .operatorBlocked
    else if b.probing then some .probePending
    else if b.stale ∧ b.unavailable then b.reason
    else
      match b.facts with
      | none => some .factsUnmeasured
      | some facts =>
        if b.factsGeneration ≠ b.generation then some .factsUnmeasured
        else if b.stale then if b.unavailable then b.reason else some .factsStale
        else if policy.dbTargetBytes ≤ facts.dbBytes then some .dbTarget
        else if policy.walTargetBytes ≤ facts.walBytes then some .walTarget
        else if facts.freeBytes ≤ policy.minFreeBytes then some .freeFloor
        else none

/-- The age of the facts is taken anew. -/
def aged (b : Budget) (now : ℚ) : Budget :=
  match b.observed with
  | none => b
  | some observed =>
    { b with
      age := some (max 0 (now - observed))
      stale := b.stale || 5 < max 0 (now - observed) }

/-- `refresh_on_worker` up to the sampler: the budget, and the generation if the sampler is
    called. -/
def refreshBegin (b : Budget) (force : Bool) (now : ℚ) : Budget × Option ℕ :=
  match b.policy with
  | none => (b, none)
  | some policy =>
    let b := b.aged now
    if policy.blocked ∨ b.probing then (b, none)
    else if !force ∧ !b.dirty ∧ b.reasonLocked = none ∧ b.age.any (· ≤ 5) then (b, none)
    else if !force ∧ !b.dirty ∧ b.lastProbe.any (now - · < 1) then (b, none)
    else ({ b with probing := true, lastProbe := some now, dirty := false }, some b.generation)

/-- `refresh_on_worker` after the sampler, which returned, or raised. -/
def refreshEnd (b : Budget) (generation : ℕ) (now : ℚ) (sample : Option Sample) : Budget :=
  let b := { b with probing := false }
  if generation ≠ b.generation then b
  else
    match sample.filter Sample.ok with
    | none => { b with stale := true, state := .unavailable, reason := some .probeFailed }
    | some s =>
      if b.identity.any (· ≠ s.identity) then
        { b with stale := true, state := .unavailable, reason := some .identityChanged }
      else
        let b := { b with
          identity := some s.identity
          facts := some s.facts
          observed := some now
          age := some 0
          stale := b.dirty
          factsGeneration := generation }
        { b with
          reason := b.reasonLocked
          state := if b.reasonLocked.isSome then .held else .ready }

/-- What `admit` returns or raises. -/
inductive Admission where
  /-- `None`: there is no policy. -/
  | none
  | lease (id : ℕ)
  | held (reason : Reason)

/-- Why a unit is not admitted beside what is reserved. -/
def projected (policy : Policy) (facts : Facts) (projection : ℤ) : Option Reason :=
  if policy.dbTargetBytes < facts.dbBytes + projection then some .dbTarget
  else if policy.walTargetBytes < facts.walBytes + projection then some .walTarget
  else if facts.freeBytes - projection < policy.minFreeBytes then some .freeFloor
  else .none

/-- The reason `admit` raises with, of a budget whose age was taken. -/
def refusal (b : Budget) (unitBytes : ℤ) : Option Reason :=
  if storageUnitBytes < unitBytes then some .unitTooLarge
  else
    match b.reasonLocked, b.facts, b.policy with
    | some reason, _, _ => some reason
    | .none, some facts, some policy => projected policy facts (b.reserved + max 0 unitBytes)
    -- without a reason there are facts and a policy
    | .none, _, _ => .none

/-- `admit`. -/
def admitUnit (b : Budget) (unitBytes : ℤ) (now : ℚ) : Budget × Admission :=
  match b.policy with
  | none => (b, .none)
  | some _ =>
    let b := b.aged now
    match b.refusal unitBytes with
    | some reason =>
      ({ b with holdAttempts := b.holdAttempts + 1, reason := some reason, state := .held },
        .held reason)
    | none =>
      ({ b with
        serial := b.serial + 1
        state := .ready
        reason := none
        leases := b.leases.set (b.serial + 1) unitBytes.toNat
        reserved := b.reserved + max 0 unitBytes }, .lease (b.serial + 1))

/-- `release`. -/
def release (b : Budget) (lease : Option ℕ) (wrote : Bool) : Budget :=
  match lease with
  | none => b
  | some id =>
    { b with
      reserved := b.reserved - (b.leases.get? id).getD 0
      leases := b.leases.erase id
      stale := b.stale || wrote
      dirty := b.dirty || wrote }

end Budget

end Angerona.Telemetry
