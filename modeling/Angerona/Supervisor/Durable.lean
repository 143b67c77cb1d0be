import Angerona.Supervisor.Budget

/-!
    The stored recovery record and a supervisor rebuilt from it.

    Every branch of a visit but one saves what it changed: an assessment that releases a component
    from SAFE_MODE is saved only when the label of the component changes. And a rebuilt supervisor
    launches whatever is not in SAFE_MODE, whether or not its backoff deadline has passed.
    `quiet_durable` says which histories and which restarts these two do not touch. -/

namespace Angerona.Supervisor
open Text Effect Transition

variable {T : Type} [Field T] [LinearOrder T]

/-! ### Agreement -/

/-- The failures still inside the window at `t`. -/
def inside (window t : T) (failures : List T) : List T := failures.filter fun f => t - f ≤ window

variable (p : Policy T)

/-- The record says what the component's state says, as far as a restart depends on it. -/
structure Agrees (t : T) (c r : Recovery T) : Prop where
  safeMode : r.safeMode = c.safeMode
  safeModeSince : r.safeModeSince = c.safeModeSince
  nextRestartAt : r.nextRestartAt = c.nextRestartAt
  stateFault : r.stateFault = c.stateFault
  failures : inside p.windowS t r.failures = inside p.windowS t c.failures

/-! ### Rebuilding -/

/-- Seven days: no time of a record may be further in the future. -/
def horizon : T := 7 * 24 * 3600

/-- `component` accepts the times of the record. -/
def Recovery.Readable (r : Recovery T) (t : T) : Prop :=
  ∀ x ∈ r.safeModeSince :: r.nextRestartAt :: r.failures, 0 ≤ x ∧ x ≤ t + horizon

instance (r : Recovery T) (t : T) : Decidable (r.Readable t) :=
  inferInstanceAs (Decidable (∀ x ∈ _, _))

/-- `add`: a record that cannot be read leaves the component in SAFE_MODE. -/
def Recovery.rebuilt (r : Recovery T) (t : T) : Recovery T :=
  if r.Readable t then r
  else ⟨[], true, t, 0, "unknown".toList, true⟩

/-- `start` leaves the component stopped. -/
def Recovery.Held (c : Recovery T) (running : Bool) : Prop := c.safeMode = true ∧ running = false

/-- `start` calls `_spawn`, and there is no running process to adopt. -/
def Recovery.Launched (c : Recovery T) (running : Bool) : Prop := c.safeMode = false ∧ running = false

/-- A supervisor rebuilt at `t` holds back nothing that was released and launches nothing early. -/
structure World.Faithful (w : World T) (t : T) (running : Bool) : Prop where
  held : (w.stored.rebuilt t).Held running → w.recovery.safeMode = true
  launched : (w.stored.rebuilt t).Launched running → w.stored.nextRestartAt ≤ t

/-- The stored record agrees with the state, and a supervisor rebuilt from it is faithful exactly
    when the component runs, is in SAFE_MODE, or is past its stored deadline. -/
structure World.Durable (w : World T) : Prop where
  agrees : ∀ t, w.clock ≤ t → Agrees p t w.recovery w.stored
  faithful : ∀ t running, w.Faithful t running ↔ running = true ∨ w.recovery.safeMode = true ∨
    w.stored.Readable t ∧ w.stored.nextRestartAt ≤ t

/-! ### Histories -/

inductive Deed (T : Type) where
  | visit (v : Visit T)
  /-- Another component saves its record under the same normalised name. -/
  | foreign (r : Recovery T)

def World.deed (w : World T) : Deed T → World T
  | .visit v => w.exec p v
  | .foreign r => { w with stored := r }

/-- A component added from its stored record. -/
def World.added (r : Recovery T) (clock : T) : World T := ⟨r, r, [], clock⟩

/-- All saves succeed, and the clock does not go back. -/
def Deed.Saved (w : World T) : Deed T → Prop
  | .visit v => v.Ordered w.clock ∧ v.cooled = true ∧ v.saved = true
  | .foreign _ => True

/-- The assessment of a component already seen alive does not release it from SAFE_MODE; a failure
    is registered among at most 64; and no other component shares the record. -/
def Deed.Quiet (w : World T) : Deed T → Prop
  | .visit v => v.forced = true ∨
      (∀ t, v.assessment = .heartbeat t → w.recovery.lastState = alive →
        w.recovery.safeMode = true → w.recovery.stateFault = false →
          cooldown ≤ v.now - w.recovery.safeModeSince ∨ w.recovery.nextRestartAt ≠ 0 ∨
            prune p.windowS t w.recovery.failures ≠ []) ∧
      (w.recovery.safeMode = false → w.recovery.nextRestartAt = 0 →
        (∀ t, v.assessment ≠ .heartbeat t) →
          (p.register v.failedAt w.recovery).failures.length ≤ maxStored)
  | .foreign _ => False

/-! ### The invariant -/

/-- What was popped since the last save was already outside the window. -/
structure Synced (t : T) (w : World T) : Prop where
  safeMode : w.stored.safeMode = w.recovery.safeMode
  safeModeSince : w.stored.safeModeSince = w.recovery.safeModeSince
  nextRestartAt : w.stored.nextRestartAt = w.recovery.nextRestartAt
  stateFault : w.stored.stateFault = w.recovery.stateFault
  failures : ∃ popped, w.stored.failures = popped ++ w.recovery.failures ∧
    ∀ f ∈ popped, p.windowS < t - f
  few : w.recovery.failures.length ≤ maxStored

section Steps

variable [IsStrictOrderedRing T] {p} {w : World T} {v : Visit T} {t t' clock : T}

theorem Synced.mono (h : Synced p t w) (hle : t ≤ t') : Synced p t' w := by
  obtain ⟨popped, heq, hold⟩ := h.failures
  exact { h with failures := ⟨popped, heq, fun f hf => (hold f hf).trans_le (sub_le_sub_right hle f)⟩ }

theorem Synced.agrees (h : Synced p clock w) (hle : clock ≤ t) : Agrees p t w.recovery w.stored where
  safeMode := h.safeMode
  safeModeSince := h.safeModeSince
  nextRestartAt := h.nextRestartAt
  stateFault := h.stateFault
  failures := by
    obtain ⟨popped, heq, hold⟩ := h.failures
    have hgone : inside p.windowS t popped = [] := by
      rw [inside, List.filter_eq_nil_iff]
      intro f hf hin
      have hlt := (hold f hf).trans_le (sub_le_sub_right hle f)
      exact absurd (of_decide_eq_true hin) (not_le.mpr hlt)
    rw [heq, inside, List.filter_append]
    change inside p.windowS t popped ++ _ = _
    rw [hgone]
    rfl

omit [IsStrictOrderedRing T] in
theorem Synced.faithful (h : Synced p clock w) (t : T) (running : Bool) : w.Faithful t running ↔
    running = true ∨ w.recovery.safeMode = true ∨
      w.stored.Readable t ∧ w.stored.nextRestartAt ≤ t := by
  constructor
  · rintro ⟨hheld, hlaunched⟩
    rcases hr : running with _ | _
    · rcases hs : w.recovery.safeMode with _ | _
      · refine .inr (.inr ?_)
        by_cases hread : w.stored.Readable t
        · rw [Recovery.rebuilt, if_pos hread] at hlaunched
          exact ⟨hread, hlaunched ⟨h.safeMode.trans hs, hr⟩⟩
        · rw [Recovery.rebuilt, if_neg hread] at hheld
          exact absurd (hs.symm.trans (hheld ⟨rfl, hr⟩)) (by simp)
      · exact .inr (.inl rfl)
    · exact .inl rfl
  · intro hcond
    refine ⟨fun hheld => ?_, fun hlaunched => ?_⟩
    · rcases hcond with hr | hs | ⟨hread, -⟩
      · exact absurd (hr.symm.trans hheld.2) (by simp)
      · exact hs
      · rw [Recovery.rebuilt, if_pos hread] at hheld
        exact h.safeMode.symm.trans hheld.1
    · rcases hcond with hr | hs | ⟨-, hle⟩
      · exact absurd (hr.symm.trans hlaunched.2) (by simp)
      · have hsafe : (w.stored.rebuilt t).safeMode = true := by
          rw [Recovery.rebuilt]
          split
          · exact h.safeMode.trans hs
          · rfl
        exact absurd (hsafe.symm.trans hlaunched.1) (by simp)
      · exact hle

/-! ### One visit -/

omit [IsStrictOrderedRing T] in
theorem synced_saved (hfew : w.recovery.failures.length ≤ maxStored) :
    wp (persist true) (fun _ => Synced p t) (fun _ => Synced p t) w := by
  rw [persist, wp_modify, if_pos rfl]
  have hall : w.recovery.record.failures = w.recovery.failures := by
    rw [Recovery.record, Nat.sub_eq_zero_of_le hfew]
    rfl
  exact ⟨rfl, rfl, rfl, rfl, ⟨[], hall, fun _ hf => absurd hf List.not_mem_nil⟩, hfew⟩

omit [IsStrictOrderedRing T] in
/-- `_spawn` pops nothing of a component that was just reset. -/
theorem adopted_reset (c : Recovery T) : p.adopted v c.reset = c.reset := by
  rw [Policy.adopted]
  rcases v.adoptedAt with _ | t <;> rfl

omit [IsStrictOrderedRing T] in
theorem synced_manualRestart (hsaved : v.saved = true) :
    wp (manualRestart p v) (fun _ => Synced p t) (fun _ => Synced p t) w := by
  have hreset : ∀ label, Synced p t { w with
      recovery := w.recovery.reset, stored := { w.recovery.reset.reset with lastState := label } } :=
    fun _ => ⟨rfl, rfl, rfl, rfl, ⟨[], rfl, fun _ hf => absurd hf List.not_mem_nil⟩, Nat.zero_le _⟩
  rw [manualRestart, wp_bind, update, wp_modify, wp_bind, wp_modify, wp_bind, wp_demand, hsaved]
  refine ⟨fun stopped _ => ?_, fun _ => hreset _⟩
  rw [wp_ite]
  refine ⟨fun _ => ?_, fun _ => hreset _⟩
  simp only [wp_spawn, if_true, adopted_reset]
  exact ⟨fun _ => hreset _, fun _ => hreset _⟩

/-- What a failure of this visit leaves in the deque, should one be registered. -/
def Fits (p : Policy T) (v : Visit T) (c : Recovery T) : Prop :=
  c.safeMode = false → c.nextRestartAt = 0 →
    (p.register v.failedAt c).failures.length ≤ maxStored

omit [IsStrictOrderedRing T] in
theorem fits_cleared {c : Recovery T} (h : c.failures = []) : Fits p v c := by
  intro _ _
  have hlen := length_prune_le p.windowS v.failedAt (c.failures ++ [v.failedAt])
  rw [h] at hlen
  rw [Policy.register, h]
  exact hlen.trans (by simp [maxStored])

omit [IsStrictOrderedRing T] in
/-- A cooldown that is over is saved. -/
theorem synced_leaveSafeMode (hcooled : v.cooled = true) (h : Synced p t w) :
    wp (leaveSafeMode v) (fun _ w' => Synced p t w' ∧
        (w'.recovery.failures = [] ∧ w'.recovery.safeMode = false ∨
          w' = w ∧ ¬(w.recovery.safeMode = true ∧ w.recovery.stateFault = false ∧
            cooldown ≤ v.now - w.recovery.safeModeSince)))
      (fun _ => Synced p t) w := by
  rw [leaveSafeMode, wp_bind, wp_read, wp_ite]
  refine ⟨fun _ => ?_, fun hstay => ⟨h, .inr ⟨rfl, hstay⟩⟩⟩
  rw [wp_bind, update, wp_modify, hcooled, persist, wp_modify, if_pos rfl]
  exact ⟨⟨rfl, rfl, rfl, rfl, ⟨[], rfl, fun _ hf => absurd hf List.not_mem_nil⟩, Nat.zero_le _⟩,
    .inl ⟨rfl, rfl⟩⟩

/-- Failures are popped, and the component stays in SAFE_MODE or out of it. -/
theorem Synced.decay (h : Synced p t w) (hle : t ≤ clock) (ht' : t' ≤ clock)
    (hkept : (p.decay t' w.recovery).safeMode = w.recovery.safeMode) :
    Synced p clock { w with recovery := p.decay t' w.recovery } where
  safeMode := h.safeMode.trans hkept.symm
  safeModeSince := h.safeModeSince
  nextRestartAt := h.nextRestartAt
  stateFault := h.stateFault
  failures := by
    obtain ⟨popped, heq, hold⟩ := h.failures
    refine ⟨popped ++ w.recovery.failures.takeWhile fun f => p.windowS < t' - f, ?_, ?_⟩
    · change _ = _ ++ prune p.windowS t' w.recovery.failures
      rw [heq, List.append_assoc, prune, List.takeWhile_append_dropWhile]
    · intro f hf
      rcases List.mem_append.mp hf with hf | hf
      · exact (hold f hf).trans_le (sub_le_sub_right hle f)
      · have hpopped := List.mem_takeWhile_imp hf
        exact (of_decide_eq_true hpopped).trans_le (sub_le_sub_right ht' f)
  few := (length_prune_le _ _ _).trans h.few

/-- `_spawn` pops failures of a component that is not in SAFE_MODE. -/
theorem Synced.adopt (h : Synced p t w) (hle : ∀ t', v.adoptedAt = some t' → t' ≤ t)
    (hsafe : w.recovery.safeMode = false) :
    Synced p t { w with recovery := p.adopted v w.recovery } := by
  rw [Policy.adopted]
  rcases hadopted : v.adoptedAt with _ | t'
  · exact h
  · exact h.decay le_rfl (hle t' hadopted) (by simp [Policy.decay, hsafe])

/-- What is left to save after an assessment that released the component. -/
def Unsaved (state : Str) (w : World T) : Prop :=
  state = alive ∧ w.recovery.failures.length ≤ maxStored ∧
    (w.recovery.lastState ≠ alive ∨ w.recovery.nextRestartAt ≠ 0)

theorem synced_assess (hv : v.Ordered clock) (h : Synced p v.now w)
    (hfits : (∀ t, v.assessment ≠ .heartbeat t) → Fits p v w.recovery)
    (hquiet : ∀ t, v.assessment = .heartbeat t → w.recovery.lastState = alive →
      w.recovery.safeMode = true → w.recovery.stateFault = false →
        w.recovery.nextRestartAt ≠ 0 ∨ prune p.windowS t w.recovery.failures ≠ []) :
    wp (assess p v.assessment)
      (fun state w' => Synced p v.ended w' ∧ (state ≠ alive → Fits p v w'.recovery) ∨
        Unsaved state w')
      (fun _ => Synced p v.ended) w := by
  have hended : v.now ≤ v.ended := hv.failed.1.trans hv.failed.2
  rcases hassess : v.assessment with t | state | _
  · obtain ⟨hnow, ht⟩ := hv.assessed t hassess
    rw [assess, wp_bind, update, wp_modify, wp_pure]
    by_cases hkept : (p.decay t w.recovery).safeMode = w.recovery.safeMode
    · exact .inl ⟨h.decay (hnow.trans ht) ht hkept, fun hne => absurd rfl hne⟩
    · -- the component is released
      refine .inr ⟨rfl, (length_prune_le _ _ _).trans h.few, ?_⟩
      have hsafe : w.recovery.safeMode = true := by
        rcases hs : w.recovery.safeMode with _ | _
        · exact absurd (by rw [Policy.decay, hs]; rfl) hkept
        · rfl
      have hreleased : w.recovery.stateFault = false ∧
          prune p.windowS t w.recovery.failures = [] := by
        rw [Policy.decay, hsafe] at hkept
        simpa using hkept
      rcases em (w.recovery.lastState = alive) with hlabel | hlabel
      · rcases hquiet t hassess hlabel hsafe hreleased.1 with hnext | hpruned
        · exact .inr hnext
        · exact absurd hreleased.2 hpruned
      · exact .inl hlabel
  · refine .inl ⟨h.mono hended, fun _ => hfits fun t heq => ?_⟩
    exact absurd (hassess.symm.trans heq) (by simp)
  · exact h.mono hended

omit [IsStrictOrderedRing T] in
theorem synced_schedule (hsaved : v.saved = true)
    (hfew : (p.register v.failedAt w.recovery).failures.length ≤ maxStored) :
    wp (schedule p v) (fun _ => Synced p t) (fun _ => Synced p t) w := by
  simp only [schedule, wp_bind, update, note, wp_modify, wp_read, wp_ite, hsaved]
  refine ⟨fun _ => synced_saved hfew, fun _ => ?_⟩
  refine wp_mono (synced_saved hfew) (fun _ w' h' => ?_) fun _ _ h' => h'
  exact ⟨fun _ => h', fun hne => absurd trivial hne⟩

theorem synced_launch (hsaved : v.saved = true) (h : Synced p t w)
    (hle : ∀ t', v.adoptedAt = some t' → t' ≤ t) (hsafe : w.recovery.safeMode = false)
    (state : Str) : wp (launch p v state) (fun _ => Synced p t) (fun _ => Synced p t) w := by
  rw [launch, wp_bind, wp_read, wp_bind, note, wp_modify, wp_bind, wp_spawn]
  have hadopted := h.adopt hle hsafe
  refine ⟨fun _ => ?_, fun _ => { hadopted with }⟩
  rw [wp_bind, update, wp_modify, hsaved]
  exact synced_saved hadopted.few

theorem synced_respawn (hsaved : v.saved = true) (h : Synced p t w)
    (hle : ∀ t', v.adoptedAt = some t' → t' ≤ t) (hsafe : w.recovery.safeMode = false)
    (state : Str) : wp (respawn p v state) (fun _ => Synced p t) (fun _ => Synced p t) w := by
  rw [respawn, wp_ite]
  refine ⟨fun _ => ?_, fun _ => synced_launch hsaved h hle hsafe state⟩
  rw [wp_bind, wp_demand]
  refine ⟨fun stopped _ => ?_, fun _ => h⟩
  rw [wp_ite]
  refine ⟨fun _ => synced_launch hsaved h hle hsafe state, fun _ => ?_⟩
  rw [wp_bind, update, wp_modify, hsaved]
  exact synced_saved h.few

theorem synced_recover (hsaved : v.saved = true) {state : Str} {changed : Bool}
    (hle : ∀ t', v.adoptedAt = some t' → t' ≤ t)
    (h : Synced p t w ∧ (state ≠ alive → Fits p v w.recovery) ∨
      state = alive ∧ w.recovery.failures.length ≤ maxStored ∧
        (changed = true ∨ w.recovery.nextRestartAt ≠ 0)) :
    wp (recover p v state changed) (fun _ => Synced p t) (fun _ => Synced p t) w := by
  have hfew : w.recovery.failures.length ≤ maxStored := by
    rcases h with h | h
    · exact h.1.few
    · exact h.2.1
  have hsync : (state = alive → changed = false ∧ w.recovery.nextRestartAt = 0) →
      Synced p t w ∧ (state ≠ alive → Fits p v w.recovery) := by
    intro hquiet
    rcases h with h | ⟨hstate, -, hchanged | hnext⟩
    · exact h
    · exact absurd ((hquiet hstate).1.symm.trans hchanged) (by simp)
    · exact absurd (hquiet hstate).2 hnext
  rw [recover, wp_bind, wp_read, wp_ite]
  refine ⟨fun hgo => ?_, fun _ => ?_⟩
  · obtain ⟨hstate, hsafe⟩ := hgo
    have hne : state ≠ alive := by rcases hstate with rfl | rfl <;> decide
    obtain ⟨h, hfits⟩ := hsync fun halive => absurd halive hne
    rw [wp_ite]
    refine ⟨fun _ => ?_, fun _ => ?_⟩
    · rw [wp_ite, hsaved]
      exact ⟨fun _ => synced_saved hfew, fun _ => h⟩
    · rw [wp_ite]
      exact ⟨fun hnext => synced_schedule hsaved (hfits hne hsafe hnext),
        fun _ => synced_respawn hsaved h hle hsafe state⟩
  · rw [wp_ite]
    refine ⟨fun _ => ?_, fun hidle => ?_⟩
    · rw [wp_bind, update, wp_modify, hsaved]
      exact synced_saved hfew
    · rw [wp_ite, hsaved]
      refine ⟨fun _ => synced_saved hfew, fun hchanged => ?_⟩
      exact (hsync fun halive => ⟨Bool.not_eq_true _ |>.mp hchanged,
        not_not.mp fun hnext => hidle ⟨halive, hnext⟩⟩).1

theorem synced_visit (hsaved : (Deed.visit v).Saved w) (hquiet : (Deed.visit v).Quiet p w)
    (h : Synced p w.clock w) :
    wp (visit p v) (fun _ => Synced p v.ended) (fun _ => Synced p v.ended) w := by
  obtain ⟨hv, hcooled, hsaved⟩ := hsaved
  have hended : v.now ≤ v.ended := hv.failed.1.trans hv.failed.2
  rw [visit, wp_ite]
  refine ⟨fun _ => synced_manualRestart hsaved, fun hforced => ?_⟩
  obtain ⟨hlabel, hfits⟩ := hquiet.resolve_left hforced
  rw [wp_bind]
  refine wp_mono (synced_leaveSafeMode hcooled (h.mono hv.now)) (fun _ w₁ h₁ => ?_)
    fun _ _ h₁ => h₁.mono hended
  obtain ⟨hsync, hcooldown⟩ := h₁
  rw [wp_bind]
  refine wp_mono (synced_assess hv hsync ?_ ?_) (fun state w₂ h₂ => ?_) fun _ _ h₂ => h₂
  · intro hjudged
    rcases hcooldown with ⟨hnone, -⟩ | ⟨rfl, -⟩
    · exact fits_cleared hnone
    · exact fun hsafe hnext => hfits hsafe hnext hjudged
  · intro t ht hstate hsafe hfault
    rcases hcooldown with ⟨-, hs⟩ | ⟨rfl, hover⟩
    · exact absurd (hs.symm.trans hsafe) (by simp)
    · exact (hlabel t ht hstate hsafe hfault).resolve_left fun hle => hover ⟨hsafe, hfault, hle⟩
  · rw [wp_bind, noteState, wp_bind, wp_read, wp_bind, update, wp_modify, wp_pure]
    refine synced_recover hsaved (fun t ht => (hv.adopted t ht).2) ?_
    rcases h₂ with ⟨h₂, hfits₂⟩ | ⟨hstate, hfew, hleft⟩
    · exact .inl ⟨{ h₂ with }, hfits₂⟩
    · refine .inr ⟨hstate, hfew, hleft.imp_left fun hne => ?_⟩
      rw [hstate]
      exact decide_eq_true hne

end Steps

/-! ### Runs -/

/-- Histories of a component whose deeds all meet the condition. -/
abbrev Deeds (p : Policy T) (cond : World T → Deed T → Prop) (r : Recovery T) (start : T) :
    List (Deed T) → World T → Prop :=
  Run (Guarded cond fun w d w' => w.deed p d = w') (World.added r start)

/-- CORRECT: a history of saves that all succeed, in which no assessment releases a component whose
    label and deadline stay, keeps the record durable. -/
theorem quiet_durable [IsStrictOrderedRing T] {p : Policy T} {r : Recovery T} {start : T}
    (hfew : r.failures.length ≤ maxStored) {deeds : List (Deed T)} {w : World T}
    (hrun : Deeds p (fun w d => d.Saved w ∧ d.Quiet p w) r start deeds w) : w.Durable p := by
  have hsynced : Synced p w.clock w := by
    refine hrun.invariant (I := fun w => Synced p w.clock w) (fun w d w' h hstep => ?_) ?_
    · obtain ⟨⟨hsaved, hquiet⟩, rfl⟩ := hstep
      rcases d with v | r
      · exact { wp_state (synced_visit hsaved hquiet h) with }
      · exact absurd hquiet id
    · exact ⟨rfl, rfl, rfl, rfl, ⟨[], rfl, fun _ hf => absurd hf List.not_mem_nil⟩, hfew⟩
  exact ⟨fun t hle => hsynced.agrees hle, hsynced.faithful⟩

/-! ### A release that is not saved -/

def freshRecovery : Recovery ℚ := ⟨[], false, 0, 0, "unknown".toList, false⟩

/-- One failure is enough for SAFE_MODE. -/
def strictPolicy : Policy ℚ :=
  ⟨1, 60, 1, 60, samplePolicy.initial_pos, samplePolicy.initial_le⟩

/-- A tick that finds an authenticated heartbeat. -/
def heartbeatVisit (now : ℚ) : Visit ℚ :=
  ⟨now, false, .heartbeat now, now, true, true, some true, none, some true, now⟩

theorem sampleVisit_saved {w : World ℚ} {now failedAt : ℚ} (hnow : w.clock ≤ now)
    (hle : now ≤ failedAt) : (Deed.visit (sampleVisit now failedAt)).Saved w :=
  ⟨⟨hnow, fun _ ht => absurd ht (by simp [sampleVisit]), ⟨hle, le_refl failedAt⟩,
    fun _ ht => absurd ht (by simp [sampleVisit])⟩, rfl, rfl⟩

theorem heartbeatVisit_saved {w : World ℚ} {now : ℚ} (hnow : w.clock ≤ now) :
    (Deed.visit (heartbeatVisit now)).Saved w := by
  refine ⟨⟨hnow, fun t ht => ?_, ⟨le_refl now, le_refl now⟩,
    fun _ ht => absurd ht (by simp [heartbeatVisit])⟩, rfl, rfl⟩
  obtain rfl : now = t := by simpa [heartbeatVisit] using ht
  exact ⟨le_refl now, le_refl now⟩

/-- The component is found dead once. -/
def waiting (p : Policy ℚ) : World ℚ :=
  (World.added freshRecovery 100).exec p (sampleVisit 100 100)

/-- A component that waits for its backoff: its record is durable. -/
theorem quiet_durable_waiting : (waiting samplePolicy).Durable samplePolicy := by
  have hquiet : (Deed.visit (sampleVisit 100 100)).Quiet samplePolicy
      (World.added freshRecovery 100) := by
    refine .inr ⟨fun _ ht => absurd ht (by simp [sampleVisit]), fun _ _ _ => ?_⟩
    decide +kernel
  have hrun : Deeds samplePolicy (fun w d => d.Saved w ∧ d.Quiet samplePolicy w) freshRecovery 100
      ([] ++ [.visit (sampleVisit 100 100)]) (waiting samplePolicy) :=
    Run.snoc .nil ⟨⟨sampleVisit_saved (le_refl (100 : ℚ)) le_rfl, hquiet⟩, rfl⟩
  exact quiet_durable (by decide) hrun

/-- SAFE_MODE at 100, a heartbeat at 110, and another at 170, when the failure is too old. -/
def released : World ℚ :=
  ((waiting strictPolicy).exec strictPolicy (heartbeatVisit 110)).exec strictPolicy
    (heartbeatVisit 170)

/-- A release that is not saved holds back a rebuilt supervisor, and a component that waits for its
    backoff is launched by a rebuilt supervisor at once. -/
theorem released_unsaved :
    (∃ deeds, Deeds strictPolicy (fun w d => d.Saved w) freshRecovery 100 deeds released) ∧
    ¬Agrees strictPolicy 170 released.recovery released.stored ∧
    ¬released.Faithful 170 false ∧
    (∃ deeds, Deeds samplePolicy (fun w d => d.Saved w) freshRecovery 100 deeds
      (waiting samplePolicy)) ∧
    ¬(waiting samplePolicy).Faithful (201 / 2) false := by
  refine ⟨⟨[] ++ [_] ++ [_] ++ [_], Run.snoc (Run.snoc (Run.snoc .nil
      ⟨sampleVisit_saved (le_refl (100 : ℚ)) le_rfl, rfl⟩) ⟨heartbeatVisit_saved ?_, rfl⟩)
      ⟨heartbeatVisit_saved ?_, rfl⟩⟩, fun h => ?_, fun h => ?_, ⟨[] ++ [_], Run.snoc .nil
      ⟨sampleVisit_saved (le_refl (100 : ℚ)) le_rfl, rfl⟩⟩, fun h => ?_⟩
  · change (100 : ℚ) ≤ 110
    norm_num
  · change (110 : ℚ) ≤ 170
    norm_num
  · exact absurd h.safeMode (by decide +kernel)
  · exact absurd (h.held ⟨by decide +kernel, rfl⟩) (by decide +kernel)
  · exact absurd (h.launched ⟨by decide +kernel, rfl⟩) (by decide +kernel)

end Angerona.Supervisor
