import Angerona.Lib.Effect
import Angerona.Lib.Text
import Angerona.Lib.Transition

/-!
    Crash-loop recovery of one supervised component (`resilience/supervisor.py`).

    A visit is what one pass of `_tick_locked` does to one component. What it learns from outside
    (readings of the clock, the assessment, whether a termination, a launch or a save succeeds) is
    its input; every outcome is possible. Times are exact numbers of any ordered field. -/

namespace Angerona.Supervisor
open Text Effect

/-! ### The recovery state -/

/-- The bounds of a component and of the backoff. -/
structure Policy (T : Type) [Field T] [LinearOrder T] where
  maxFailures : ℕ
  windowS : T
  initialBackoffS : T
  maxBackoffS : T
  initial_pos : 0 < initialBackoffS
  initial_le : initialBackoffS ≤ maxBackoffS

/-- The fields of `Component` that recovery is decided by, which are also the stored record. -/
structure Recovery (T : Type) where
  failures : List T
  safeMode : Bool
  safeModeSince : T
  nextRestartAt : T
  lastState : Str
  stateFault : Bool

/-- A call of `_spawn`, with the state it is made in. -/
structure Launch (T : Type) where
  now : T
  state : Str
  safeMode : Bool
  stateFault : Bool
  /-- `next_restart_at`. -/
  deadline : T
  /-- Whether the call returned. -/
  returned : Bool
  deriving DecidableEq

inductive Event (T : Type) where
  /-- A registered failure: the start of its tick, its own time, and whether it was saved. -/
  | failure (start time : T) (saved : Bool)
  | launch (l : Launch T)
  deriving DecidableEq

structure World (T : Type) where
  recovery : Recovery T
  stored : Recovery T
  /-- What happened, oldest first. -/
  log : List (Event T)
  /-- No reading so far is later. -/
  clock : T

/-- What `_assess` finds. -/
inductive Assessment (T : Type) where
  /-- `alive` by an authenticated heartbeat; `_decay` reads the clock. -/
  | heartbeat (decayedAt : T)
  | judged (state : Str)
  | raised

/-- The inputs of a visit. -/
structure Visit (T : Type) where
  /-- The reading at the start of the tick. -/
  now : T
  /-- An operator asked for a restart. -/
  forced : Bool
  assessment : Assessment T
  /-- The reading of `_register_failure`. -/
  failedAt : T
  /-- The save after a cooldown succeeds. -/
  cooled : Bool
  /-- The other save succeeds. -/
  saved : Bool
  /-- What `_terminate` returns; `none` when it raises. -/
  terminated : Option Bool
  /-- The reading of `_decay`, when `_spawn` finds an earlier launch running and alive. -/
  adoptedAt : Option T
  /-- What `_spawn` returns; `none` when it raises. -/
  spawned : Option Bool
  /-- A reading after the visit. -/
  ended : T

def alive : Str := "alive".toList
def dead : Str := "dead".toList
def suspended : Str := "suspended".toList

section Steps

variable {T : Type} [Field T] [LinearOrder T]

/-- `_SAFE_MODE_COOLDOWN`. -/
def cooldown : T := 120

/-- The failures that are left when the old ones are popped. -/
def prune (window t : T) (failures : List T) : List T :=
  failures.dropWhile fun f => window < t - f

/-- `_decay`. -/
def Policy.decay (p : Policy T) (t : T) (c : Recovery T) : Recovery T :=
  let failures := prune p.windowS t c.failures
  { c with
    failures
    safeMode := c.safeMode && (c.stateFault || failures ≠ []) }

/-- `_register_failure`. -/
def Policy.register (p : Policy T) (t : T) (c : Recovery T) : Recovery T :=
  { c with failures := prune p.windowS t (c.failures ++ [t]) }

/-- The delay after a registered failure. -/
def Policy.delay (p : Policy T) (c : Recovery T) : T :=
  min p.maxBackoffS (p.initialBackoffS * 2 ^ (c.failures.length - 1))

/-- `_MAX_FAILURES_PER_COMPONENT`, as the store keeps them. -/
def maxStored : ℕ := 64

/-- What `update_component` writes: the last failures only. -/
def Recovery.record (c : Recovery T) : Recovery T :=
  { c with failures := c.failures.drop (c.failures.length - maxStored) }

/-- What a manual restart leaves. -/
def Recovery.reset (c : Recovery T) : Recovery T :=
  { c with failures := [], safeMode := false, safeModeSince := 0, nextRestartAt := 0
           stateFault := false }

abbrev Action (T α : Type) := Effect Unit (World T) α

def update (f : Recovery T → Recovery T) : Action T Unit :=
  modify fun w => { w with recovery := f w.recovery }

def note (e : Event T) : Action T Unit := modify fun w => { w with log := w.log ++ [e] }

/-- `_persist`. -/
def persist (saved : Bool) : Action T Unit :=
  modify fun w => if saved then { w with stored := w.recovery.record } else w

/-! ### The branches of a visit -/

variable (p : Policy T)

/-- `_spawn`. -/
def spawn (v : Visit T) : Action T Unit := do
  v.adoptedAt.elim (pure ()) fun t => update (p.decay t)
  let _ ← demand v.spawned ()
  pure ()

/-- An operator's restart. -/
def manualRestart (v : Visit T) : Action T Unit := do
  update Recovery.reset
  -- `clear_component`
  modify fun w =>
    if v.saved then { w with stored := { w.recovery.reset with lastState := manual } } else w
  let stopped ← demand v.terminated ()
  if stopped then spawn p v else pure ()
where
  manual : Str := "manual-restart".toList

/-- A cooldown that is over. -/
def leaveSafeMode (v : Visit T) : Action T Unit := do
  let w ← read
  let c := w.recovery
  if c.safeMode = true ∧ c.stateFault = false ∧ cooldown ≤ v.now - c.safeModeSince then do
    update fun c => { c with safeMode := false, safeModeSince := 0, nextRestartAt := 0, failures := [] }
    persist v.cooled
  else pure ()

/-- `_assess`. -/
def assess : Assessment T → Action T Str
  | .heartbeat t => do
    update (p.decay t)
    pure alive
  | .judged state => pure state
  | .raised => raise ()

/-- The new label is kept, and whether it differs. -/
def noteState (state : Str) : Action T Bool := do
  let w ← read
  update fun c => { c with lastState := state }
  pure (w.recovery.lastState ≠ state)

/-- A failure is registered: a backoff deadline, or SAFE_MODE. -/
def schedule (v : Visit T) : Action T Unit := do
  update (p.register v.failedAt)
  note (.failure v.now v.failedAt v.saved)
  let w ← read
  if p.maxFailures ≤ w.recovery.failures.length then do
    update fun c => { c with safeMode := true, safeModeSince := v.now, nextRestartAt := 0 }
    persist v.saved
  else do
    update fun c => { c with nextRestartAt := v.now + p.delay c }
    persist v.saved
    if v.saved then pure ()
    else update fun c => { c with safeMode := true, safeModeSince := v.now, stateFault := true }

/-- The call of `_spawn` and what follows it. -/
def launch (v : Visit T) (state : Str) : Action T Unit := do
  let w ← read
  let c := w.recovery
  note (.launch ⟨v.now, state, c.safeMode, c.stateFault, c.nextRestartAt, v.spawned.isSome⟩)
  spawn p v
  update fun c => { c with nextRestartAt := 0 }
  persist v.saved

/-- The deadline has passed. -/
def respawn (v : Visit T) (state : Str) : Action T Unit := do
  if state = suspended then do
    let stopped ← demand v.terminated ()
    if stopped then launch p v state
    else do
      update fun c => { c with nextRestartAt := v.now + p.maxBackoffS }
      persist v.saved
  else launch p v state

/-- What the assessment leads to. -/
def recover (v : Visit T) (state : Str) (changed : Bool) : Action T Unit := do
  let w ← read
  let c := w.recovery
  if (state = dead ∨ state = suspended) ∧ c.safeMode = false then
    if c.nextRestartAt ≠ 0 ∧ v.now < c.nextRestartAt then
      if changed then persist v.saved else pure ()
    else if c.nextRestartAt = 0 then schedule p v
    else respawn p v state
  else if state = alive ∧ c.nextRestartAt ≠ 0 then do
    update fun c => { c with nextRestartAt := 0 }
    persist v.saved
  else if changed then persist v.saved
  else pure ()

/-- The part of `_tick_locked` for one component, outside a stand-down. -/
def visit (v : Visit T) : Action T Unit := do
  if v.forced then manualRestart p v
  else do
    leaveSafeMode v
    let state ← assess p v.assessment
    let changed ← noteState state
    recover p v state changed

def World.exec (w : World T) (v : Visit T) : World T := { (visit p v w).2 with clock := v.ended }

end Steps

end Angerona.Supervisor
