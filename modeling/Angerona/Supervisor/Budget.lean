import Angerona.Supervisor.Recovery

/-!
    The crash-loop budget of a component.

    Every launch needs a failure that an earlier tick registered and saved, and a failure still in
    the deque stands for every launch of the last window but the newest one: `Budget.count`. A
    failure that is popped or forgotten by a cooldown was registered more than a window before any
    launch to come. -/

namespace Angerona.Supervisor
open Text Effect Transition

variable {T : Type} [Field T] [LinearOrder T]

/-! ### What a history says -/

/-- The launch, when the call returned. -/
def Event.launch? : Event T → Option (Launch T)
  | .launch l => if l.returned then some l else none
  | .failure .. => none

/-- The times of the calls of `_spawn` that returned. -/
def launches (log : List (Event T)) : List T := (log.filterMap Event.launch?).map Launch.now

omit [Field T] [LinearOrder T] in
theorem Event.filterMap_launch {l : Launch T} (h : l.returned = true) :
    ([.launch l] : List (Event T)).filterMap Event.launch? = [l] :=
  List.filterMap_cons_some (by rw [Event.launch?, h]; rfl)

/-- How many of the times lie in the window of this length from `a`. -/
def within (window a : T) (times : List T) : ℕ := times.countP fun t => a ≤ t ∧ t ≤ a + window

/-- How many of the times are not before `a`. -/
def since (a : T) (times : List T) : ℕ := times.countP fun t => a ≤ t

variable (p : Policy T)

/-- A failure that was saved and that no launch has used yet; the deadline is at least the initial
    backoff after the time it is `dated`. -/
def Waits (dated : T → T → T) (log : List (Event T)) (deadline : T) : Prop :=
  ∃ before start time after, log = before ++ .failure start time true :: after ∧
    launches after = [] ∧ dated start time + p.initialBackoffS ≤ deadline

/-- The call of `_spawn` was due. -/
structure Launch.Due (dated : T → T → T) (past : List (Event T)) (l : Launch T) : Prop where
  assessed : l.state = dead ∨ l.state = suspended
  calm : l.safeMode = false ∧ l.stateFault = false
  reached : l.deadline ≤ l.now
  waits : Waits p dated past l.deadline

/-- Every call of `_spawn` was due, and no window holds more launches than `max_failures`. -/
structure Budgeted (dated : T → T → T) (log : List (Event T)) : Prop where
  due : ∀ past l future, log = past ++ .launch l :: future → l.Due p dated past
  window : ∀ a, within p.windowS a (launches log) ≤ p.maxFailures

/-! ### The invariant -/

/-- No launch to come is in the window from `a`. -/
def Expired (c : Recovery T) (clock a : T) : Prop :=
  a + p.windowS < clock ∨
    a + p.windowS ≤ clock ∧ (c.nextRestartAt = 0 ∨ a + p.windowS < c.nextRestartAt)

/-- The failure is dated by the start of its tick. -/
def started : T → T → T := fun start _ => start

structure Budget (c : Recovery T) (log : List (Event T)) (clock : T) : Prop where
  budgeted : Budgeted p started log
  past : ∀ t ∈ launches log, t ≤ clock
  latched : c.stateFault = true → c.safeMode = true
  entered : c.safeMode = true → ∀ t ∈ launches log, t ≤ c.safeModeSince
  idle : c.safeMode = true → c.stateFault = false → c.nextRestartAt = 0
  waits : c.safeMode = false → c.nextRestartAt ≠ 0 → Waits p started log c.nextRestartAt
  short : c.safeMode = false → c.nextRestartAt ≠ 0 → c.failures.length < p.maxFailures
  count : ∀ a, Expired p c clock a ∨
    since a (launches log) ≤ since a c.failures + if c.nextRestartAt = 0 then 1 else 0

/-! ### Counting -/

omit [Field T] [LinearOrder T] in
theorem launches_append (log log' : List (Event T)) :
    launches (log ++ log') = launches log ++ launches log' := by
  rw [launches, List.filterMap_append, List.map_append]
  rfl

omit [Field T] in
theorem since_le (a : T) (times : List T) : since a times ≤ times.length := List.countP_le_length

omit [Field T] in
theorem since_zero {a : T} {times : List T} (h : ∀ t ∈ times, t < a) : since a times = 0 := by
  rw [since, List.countP_eq_zero]
  intro t ht hmem
  exact absurd (of_decide_eq_true hmem) (not_le.mpr (h t ht))

omit [Field T] in
theorem since_append (a : T) (times times' : List T) :
    since a (times ++ times') = since a times + since a times' := List.countP_append

theorem within_le_since (window a : T) (times : List T) : within window a times ≤ since a times := by
  refine List.countP_mono_left fun t _ ht => ?_
  simp only [decide_eq_true_eq] at ht ⊢
  exact ht.1

/-- What is not before `a` is not popped, unless something that is not before `a` left the window. -/
theorem since_prune (window a t : T) (failures : List T) :
    since a (prune window t failures) = since a failures ∨ ∃ f, a ≤ f ∧ window < t - f := by
  induction failures with
  | nil => exact .inl rfl
  | cons f failures ih =>
    rw [prune, List.dropWhile_cons]
    by_cases hold : window < t - f
    · rw [if_pos (decide_eq_true hold)]
      by_cases ha : a ≤ f
      · exact .inr ⟨f, ha, hold⟩
      · refine ih.imp_left fun h => h.trans ?_
        rw [since, since, List.countP_cons_of_neg (by simpa using ha)]
    · rw [if_neg (by simpa using hold)]
      exact .inl rfl

theorem length_prune_le (window t : T) (failures : List T) :
    (prune window t failures).length ≤ failures.length :=
  (List.dropWhile_suffix _).length_le

/-! ### Steps that register and launch nothing -/

section Quiet

variable {p} {c : Recovery T} {log : List (Event T)} {clock clock' : T}

theorem Expired.mono {a : T} (h : Expired p c clock a) (hle : clock ≤ clock') :
    Expired p c clock' a :=
  h.imp (fun h => h.trans_le hle) (And.imp_left fun h => h.trans hle)

theorem Budget.mono (h : Budget p c log clock) (hle : clock ≤ clock') : Budget p c log clock' :=
  { h with
    past := fun t ht => (h.past t ht).trans hle
    count := fun a => (h.count a).imp_left fun ha => ha.mono hle }

theorem Budget.noteState (h : Budget p c log clock) (state : Str) :
    Budget p { c with lastState := state } log clock := { h with }

/-- The deadline is dropped. -/
theorem Budget.settle (h : Budget p c log clock) :
    Budget p { c with nextRestartAt := 0 } log clock where
  budgeted := h.budgeted
  past := h.past
  latched := h.latched
  entered := h.entered
  idle _ _ := rfl
  waits _ hne := absurd rfl hne
  short _ hne := absurd rfl hne
  count a := by
    rcases h.count a with hexp | hcount
    · exact .inl (hexp.imp_right fun h => ⟨h.1, .inl rfl⟩)
    · refine .inr (hcount.trans (Nat.add_le_add_left ?_ _))
      rw [if_pos rfl]
      split <;> omega

/-- A cooldown is over. -/
theorem Budget.leave [IsStrictOrderedRing T] (h : Budget p c log clock) (hw : p.windowS ≤ cooldown)
    (hsafe : c.safeMode = true) (hfault : c.stateFault = false)
    (hover : cooldown ≤ clock - c.safeModeSince) :
    Budget p { c with safeMode := false, safeModeSince := 0, nextRestartAt := 0, failures := [] }
      log clock where
  budgeted := h.budgeted
  past := h.past
  latched hf := absurd hf (by simp [hfault])
  entered hs := absurd hs (by simp)
  idle _ _ := rfl
  waits _ hne := absurd rfl hne
  short _ hne := absurd rfl hne
  count a := by
    rw [if_pos rfl]
    by_cases ha : ∃ t ∈ launches log, a ≤ t
    · obtain ⟨t, ht, ha⟩ := ha
      have hsince := h.entered hsafe t ht
      exact .inl (.inr ⟨by linarith, .inl rfl⟩)
    · rw [since_zero fun t ht => not_le.mp fun hle => ha ⟨t, ht, hle⟩]
      exact .inr (Nat.zero_le _)

theorem Budget.decay [IsStrictOrderedRing T] (h : Budget p c log clock) :
    Budget p (p.decay clock c) log clock where
  budgeted := h.budgeted
  past := h.past
  latched hf := by
    have hf' : c.stateFault = true := hf
    rw [Policy.decay, hf']
    simp [h.latched hf']
  entered hs t ht := by
    rw [Policy.decay] at hs
    exact h.entered (by simp_all) t ht
  idle hs hf := by
    rw [Policy.decay] at hs
    exact h.idle (by simp_all) hf
  waits hs hne := by
    have hne' : c.nextRestartAt ≠ 0 := hne
    rcases hsafe : c.safeMode with _ | _
    · exact h.waits hsafe hne
    · rcases hfault : c.stateFault with _ | _
      · exact absurd (h.idle hsafe hfault) hne'
      · simp [Policy.decay, hsafe, hfault] at hs
  short hs hne := by
    have hne' : c.nextRestartAt ≠ 0 := hne
    rcases hsafe : c.safeMode with _ | _
    · exact (length_prune_le _ _ _).trans_lt (h.short hsafe hne)
    · rcases hfault : c.stateFault with _ | _
      · exact absurd (h.idle hsafe hfault) hne'
      · simp [Policy.decay, hsafe, hfault] at hs
  count a := by
    rcases h.count a with hexp | hcount
    · exact .inl hexp
    · rcases since_prune p.windowS a clock c.failures with heq | ⟨f, ha, hold⟩
      · exact .inr (heq ▸ hcount)
      · exact .inl (.inl (by linarith))

end Quiet

/-! ### Steps that register or launch -/

section Busy

variable {p} {c : Recovery T} {log : List (Event T)} {clock now time : T}

/-- The last event of a history, or one before it. -/
theorem split_concat {α : Type} {xs past future : List α} {x y : α}
    (h : xs ++ [y] = past ++ x :: future) :
    past = xs ∧ x = y ∨ ∃ future', xs = past ++ x :: future' := by
  rcases List.eq_nil_or_concat future with rfl | ⟨future', z, rfl⟩
  · obtain ⟨rfl, hxy⟩ := List.append_inj' h rfl
    exact .inl ⟨rfl, (List.singleton_inj.mp hxy).symm⟩
  · rw [List.concat_eq_append, ← List.cons_append, ← List.append_assoc] at h
    exact .inr ⟨future', (List.append_inj' h rfl).1⟩

/-- What is no launch that returned leaves a waiting failure waiting. -/
theorem Waits.snoc {dated : T → T → T} {deadline : T} (h : Waits p dated log deadline) {e : Event T}
    (he : e.launch? = none) : Waits p dated (log ++ [e]) deadline := by
  obtain ⟨before, start, time, after, rfl, hafter, hdate⟩ := h
  refine ⟨before, start, time, after ++ [e], by simp, ?_, hdate⟩
  rw [launches_append, hafter, launches, List.filterMap_cons_none he]
  rfl

omit [Field T] [LinearOrder T] in
theorem launches_failure (log : List (Event T)) (start time : T) (saved : Bool) :
    launches (log ++ [.failure start time saved]) = launches log := by
  rw [launches_append]
  exact List.append_nil _

theorem Budgeted.failure {dated : T → T → T} (h : Budgeted p dated log) (start time : T)
    (saved : Bool) : Budgeted p dated (log ++ [.failure start time saved]) where
  due past l future heq := by
    rcases split_concat heq with ⟨-, hne⟩ | ⟨future', hlog⟩
    · cases hne
    · exact h.due past l future' hlog
  window a := launches_failure log start time saved ▸ h.window a

theorem Policy.initial_le_delay [IsStrictOrderedRing T] (c : Recovery T) :
    p.initialBackoffS ≤ p.delay c := by
  refine le_min p.initial_le ?_
  have hpow : (1 : T) ≤ 2 ^ (c.failures.length - 1) := one_le_pow₀ one_le_two
  nlinarith [p.initial_pos]

/-- A registered failure stands for the launch to come. -/
theorem Budget.register [IsStrictOrderedRing T] (h : Budget p c log clock)
    (hnext : c.nextRestartAt = 0) (hle : clock ≤ time) (a : T) :
    (a + p.windowS < time ∨ a + p.windowS ≤ clock) ∨
      since a (launches log) ≤ since a (p.register time c).failures := by
  rcases h.count a with (hlt | ⟨hle', -⟩) | hcount
  · exact .inl (.inr hlt.le)
  · exact .inl (.inr hle')
  · rw [if_pos hnext] at hcount
    by_cases ha : a ≤ time
    · have hone : since a (c.failures ++ [time]) = since a c.failures + 1 := by
        rw [since_append, since, since, List.countP_singleton, if_pos (decide_eq_true ha)]
      rcases since_prune p.windowS a time (c.failures ++ [time]) with heq | ⟨f, hf, hold⟩
      · rw [Policy.register, heq, hone]
        exact .inr hcount
      · exact .inl (.inl (by linarith))
    · rw [since_zero fun t ht => ((h.past t ht).trans hle).trans_lt (not_le.mp ha)]
      exact .inr (Nat.zero_le _)

/-- The failure is the last one that the window allows. -/
theorem Budget.enter [IsStrictOrderedRing T] (h : Budget p c log clock)
    (hnext : c.nextRestartAt = 0) (hnow : clock ≤ now) (htime : now ≤ time) (saved : Bool) :
    Budget p { p.register time c with safeMode := true, safeModeSince := now, nextRestartAt := 0 }
      (log ++ [.failure now time saved]) time where
  budgeted := h.budgeted.failure _ _ _
  past t ht := ((h.past t (launches_failure log _ _ _ ▸ ht)).trans hnow).trans htime
  latched _ := rfl
  entered _ t ht := (h.past t (launches_failure log _ _ _ ▸ ht)).trans hnow
  idle _ _ := rfl
  waits hs _ := absurd hs (by simp)
  short hs _ := absurd hs (by simp)
  count a := by
    rw [launches_failure]
    rcases h.register hnext (hnow.trans htime) a with hexp | hcount
    · refine .inl (hexp.imp_right fun hle => ⟨(hle.trans hnow).trans htime, .inl rfl⟩)
    · exact .inr (hcount.trans (Nat.le_add_right _ _))

theorem Budget.expired_schedule [IsStrictOrderedRing T] {a next : T} {c' : Recovery T}
    (hexp : a + p.windowS < time ∨ a + p.windowS ≤ clock) (hnow : clock ≤ now) (htime : now ≤ time)
    (hnext : c'.nextRestartAt = next) (hlt : now < next) : Expired p c' time a := by
  refine hexp.imp_right fun hle => ⟨(hle.trans hnow).trans htime, .inr ?_⟩
  rw [hnext]
  exact (hle.trans hnow).trans_lt hlt

/-- A restart is scheduled, and saved. -/
theorem Budget.schedule [IsStrictOrderedRing T] (h : Budget p c log clock)
    (hsafe : c.safeMode = false) (hnext : c.nextRestartAt = 0) (hnow : clock ≤ now)
    (htime : now ≤ time) (hshort : (p.register time c).failures.length < p.maxFailures) :
    Budget p { p.register time c with nextRestartAt := now + p.delay (p.register time c) }
      (log ++ [.failure now time true]) time where
  budgeted := h.budgeted.failure _ _ _
  past t ht := ((h.past t (launches_failure log _ _ _ ▸ ht)).trans hnow).trans htime
  latched := h.latched
  entered hs := absurd (hsafe.symm.trans hs) (by simp)
  idle hs := absurd (hsafe.symm.trans hs) (by simp)
  waits _ _ := ⟨log, now, time, [], rfl, rfl,
    add_le_add_right (Policy.initial_le_delay (p.register time c)) now⟩
  short _ _ := hshort
  count a := by
    have hdelay := Policy.initial_le_delay (p := p) (p.register time c)
    rw [launches_failure]
    rcases h.register hnext (hnow.trans htime) a with hexp | hcount
    · exact .inl (Budget.expired_schedule hexp hnow htime rfl (by linarith [p.initial_pos]))
    · exact .inr (hcount.trans (Nat.le_add_right _ _))

/-- A restart is scheduled, but not saved. -/
theorem Budget.fault [IsStrictOrderedRing T] (h : Budget p c log clock)
    (hnext : c.nextRestartAt = 0) (hnow : clock ≤ now) (htime : now ≤ time) :
    Budget p { p.register time c with
        nextRestartAt := now + p.delay (p.register time c), safeMode := true, safeModeSince := now
        stateFault := true }
      (log ++ [.failure now time false]) time where
  budgeted := h.budgeted.failure _ _ _
  past t ht := ((h.past t (launches_failure log _ _ _ ▸ ht)).trans hnow).trans htime
  latched _ := rfl
  entered _ t ht := (h.past t (launches_failure log _ _ _ ▸ ht)).trans hnow
  idle _ hf := absurd hf (by simp)
  waits hs _ := absurd hs (by simp)
  short hs _ := absurd hs (by simp)
  count a := by
    have hdelay := Policy.initial_le_delay (p := p) (p.register time c)
    rw [launches_failure]
    rcases h.register hnext (hnow.trans htime) a with hexp | hcount
    · exact .inl (Budget.expired_schedule hexp hnow htime rfl (by linarith [p.initial_pos]))
    · exact .inr (hcount.trans (Nat.le_add_right _ _))

/-- A termination failed: the deadline moves. -/
theorem Budget.postpone [IsStrictOrderedRing T] (h : Budget p c log clock)
    (hsafe : c.safeMode = false) (hnext : c.nextRestartAt ≠ 0) (hreached : c.nextRestartAt ≤ now)
    (hnow : clock ≤ now) :
    Budget p { c with nextRestartAt := now + p.maxBackoffS } log now where
  budgeted := h.budgeted
  past t ht := (h.past t ht).trans hnow
  latched := h.latched
  entered hs := absurd (hsafe.symm.trans hs) (by simp)
  idle hs := absurd (hsafe.symm.trans hs) (by simp)
  waits _ _ := by
    obtain ⟨before, start, time, after, hlog, hafter, hdate⟩ := h.waits hsafe hnext
    refine ⟨before, start, time, after, hlog, hafter, ?_⟩
    have hpos := p.initial_pos.trans_le p.initial_le
    dsimp only
    linarith
  short _ _ := h.short hsafe hnext
  count a := by
    have hpos := p.initial_pos.trans_le p.initial_le
    rcases h.count a with hexp | hcount
    · refine .inl (hexp.imp (fun hlt => hlt.trans_le hnow) fun hle => ⟨hle.1.trans hnow, .inr ?_⟩)
      dsimp only
      linarith [hle.1]
    · rw [if_neg hnext] at hcount
      exact .inr (hcount.trans (Nat.le_add_right _ _))

theorem Budget.due (h : Budget p c log clock) {state : Str}
    (hstate : state = dead ∨ state = suspended) (hsafe : c.safeMode = false)
    (hnext : c.nextRestartAt ≠ 0) (hreached : c.nextRestartAt ≤ now) (returned : Bool) :
    Launch.Due p started log ⟨now, state, c.safeMode, c.stateFault, c.nextRestartAt, returned⟩ where
  assessed := hstate
  calm := by
    refine ⟨hsafe, ?_⟩
    rcases hfault : c.stateFault with _ | _
    · rfl
    · exact absurd (hsafe.symm.trans (h.latched hfault)) (by simp)
  reached := hreached
  waits := h.waits hsafe hnext

/-- A call of `_spawn` that raises. -/
theorem Budget.failLaunch (h : Budget p c log clock) {l : Launch T}
    (hdue : l.Due p started log) (hraised : l.returned = false) :
    Budget p c (log ++ [.launch l]) clock := by
  have hnone : (Event.launch l).launch? = none := by rw [Event.launch?, hraised]; rfl
  have hsame : launches (log ++ [.launch l]) = launches log := by
    have hnew : launches [.launch l] = [] := by
      rw [launches, List.filterMap_cons_none hnone]
      rfl
    rw [launches_append, hnew, List.append_nil]
  refine ⟨⟨fun past m future heq => ?_, fun a => hsame ▸ h.budgeted.window a⟩, hsame ▸ h.past,
    h.latched, hsame ▸ h.entered, h.idle, fun hs hne => (h.waits hs hne).snoc hnone, h.short,
    hsame ▸ h.count⟩
  rcases split_concat heq with ⟨rfl, hl⟩ | ⟨future', hlog⟩
  · exact Event.launch.inj hl ▸ hdue
  · exact h.budgeted.due past m future' hlog

/-- A call of `_spawn` that returns uses up the failure it was scheduled for. -/
theorem Budget.launch (h : Budget p c log clock) {l : Launch T} (hdue : l.Due p started log)
    (hreturned : l.returned = true) (hdeadline : l.deadline = c.nextRestartAt)
    (hsafe : c.safeMode = false) (hnext : c.nextRestartAt ≠ 0) (hnow : clock ≤ l.now) :
    Budget p { c with nextRestartAt := 0 } (log ++ [.launch l]) l.now := by
  have hone : launches (log ++ [.launch l]) = launches log ++ [l.now] := by
    rw [launches_append, launches, launches, Event.filterMap_launch hreturned]
    rfl
  have hcount : ∀ a, Expired p c clock a ∨ since a (launches log) ≤ since a c.failures := fun a =>
    (h.count a).imp_right fun hle => by rwa [if_neg hnext] at hle
  refine ⟨⟨fun past m future heq => ?_, fun a => ?_⟩, fun t ht => ?_, h.latched,
    fun hs => absurd (hsafe.symm.trans hs) (by simp), fun _ _ => rfl, fun _ hne => absurd rfl hne,
    fun _ hne => absurd rfl hne, fun a => ?_⟩
  · rcases split_concat heq with ⟨rfl, hl⟩ | ⟨future', hlog⟩
    · exact Event.launch.inj hl ▸ hdue
    · exact h.budgeted.due past m future' hlog
  · rw [hone, within, List.countP_append, List.countP_singleton]
    split
    · rename_i hin
      rw [decide_eq_true_eq] at hin
      -- the window of this launch has not expired, so its failures are all in the deque
      rcases hcount a with (hlt | ⟨-, hzero | hlt⟩) | hle
      · exact absurd (hlt.trans_le hnow) (not_lt.mpr hin.2)
      · exact absurd hzero hnext
      · exact absurd (hlt.trans_le (hdeadline ▸ hdue.reached)) (not_lt.mpr hin.2)
      · exact Nat.succ_le_of_lt (((within_le_since _ _ _).trans hle).trans (since_le _ _)
          |>.trans_lt (h.short hsafe hnext))
    · exact h.budgeted.window a
  · rw [hone] at ht
    rcases List.mem_append.mp ht with ht | ht
    · exact (h.past t ht).trans hnow
    · exact (List.mem_singleton.mp ht).le
  · rw [hone, since_append, if_pos rfl]
    rcases hcount a with hexp | hle
    · exact .inl ((hexp.imp (fun h => h.trans_le hnow) fun h => ⟨h.1.trans hnow, .inl rfl⟩))
    · exact .inr (Nat.add_le_add hle (since_le a [l.now]))

end Busy

/-! ### One visit -/

section Visits

variable [IsStrictOrderedRing T] {p : Policy T} {v : Visit T} {w : World T} {clock : T}

/-- The clock is read in order. -/
structure Visit.Ordered (v : Visit T) (clock : T) : Prop where
  now : clock ≤ v.now
  assessed : ∀ t, v.assessment = .heartbeat t → v.now ≤ t ∧ t ≤ v.ended
  failed : v.now ≤ v.failedAt ∧ v.failedAt ≤ v.ended
  adopted : ∀ t, v.adoptedAt = some t → v.now ≤ t ∧ t ≤ v.ended

/-- The budget is kept, with the clock at `t`. -/
abbrev Kept (p : Policy T) (t : T) (w : World T) : Prop := Budget p w.recovery w.log t

omit [IsStrictOrderedRing T] in
theorem kept_persist {saved : Bool} (h : Kept p clock w) :
    wp (persist saved) (fun _ => Kept p clock) (fun _ => Kept p clock) w := by
  rw [persist, wp_modify]
  cases saved with
  | true => exact h
  | false => exact h

theorem kept_leaveSafeMode (hw : p.windowS ≤ cooldown) (h : Kept p v.now w) :
    wp (leaveSafeMode v) (fun _ => Kept p v.now) (fun _ => Kept p v.now) w := by
  rw [leaveSafeMode, wp_bind, wp_read, wp_ite]
  refine ⟨fun hgo => ?_, fun _ => h⟩
  obtain ⟨hsafe, hfault, hover⟩ := hgo
  rw [wp_bind, update, wp_modify]
  exact kept_persist (h.leave hw hsafe hfault hover)

theorem kept_assess (hv : v.Ordered clock) (h : Kept p v.now w) :
    wp (assess p v.assessment)
      (fun state w' => (state ≠ alive → Kept p v.now w') ∧ Kept p v.ended w')
      (fun _ => Kept p v.ended) w := by
  have hended : v.now ≤ v.ended := hv.failed.1.trans hv.failed.2
  rcases hassess : v.assessment with t | state | _
  · obtain ⟨hnow, ht⟩ := hv.assessed t hassess
    rw [assess, wp_bind, update, wp_modify, wp_pure]
    exact ⟨fun hne => absurd rfl hne, ((h.mono hnow).decay).mono ht⟩
  · exact ⟨fun _ => h, h.mono hended⟩
  · exact h.mono hended

theorem kept_schedule (hv : v.Ordered clock) (h : Kept p v.now w)
    (hsafe : w.recovery.safeMode = false) (hnext : w.recovery.nextRestartAt = 0) :
    wp (schedule p v) (fun _ => Kept p v.ended) (fun _ => Kept p v.ended) w := by
  obtain ⟨htime, hended⟩ := hv.failed
  simp only [schedule, wp_bind, update, note, wp_modify, wp_read, wp_ite]
  refine ⟨fun _ => ?_, fun hshort => ?_⟩
  · exact kept_persist ((h.enter hnext le_rfl htime v.saved).mono hended)
  · rw [persist, wp_modify]
    rcases hsaved : v.saved with _ | _
    · exact ⟨fun hs => absurd hs (by simp), fun _ => (h.fault hnext le_rfl htime).mono hended⟩
    · exact ⟨fun _ => (h.schedule hsafe hnext le_rfl htime (Nat.not_le.mp hshort)).mono hended,
        fun hs => absurd rfl hs⟩

/-- The state of the component after `_spawn`. -/
def Policy.adopted (p : Policy T) (v : Visit T) (c : Recovery T) : Recovery T :=
  v.adoptedAt.elim c fun t => p.decay t c

omit [IsStrictOrderedRing T] in
theorem wp_spawn {Q : Unit → World T → Prop} {E : Unit → World T → Prop} :
    wp (spawn p v) Q E w ↔ (v.spawned.isSome = true →
      Q () { w with recovery := p.adopted v w.recovery }) ∧
      (v.spawned = none → E () { w with recovery := p.adopted v w.recovery }) := by
  rw [spawn, Policy.adopted]
  rcases v.adoptedAt with _ | t <;> rcases v.spawned with _ | b <;>
    simp [wp_bind, wp_demand, update, wp_modify, wp_pure]

theorem Budget.adopt {c : Recovery T} {log : List (Event T)} (hv : v.Ordered clock)
    (h : Budget p c log v.now) : Budget p (p.adopted v c) log v.ended := by
  rw [Policy.adopted]
  rcases hadopted : v.adoptedAt with _ | t
  · exact h.mono (hv.failed.1.trans hv.failed.2)
  · obtain ⟨hnow, hended⟩ := hv.adopted t hadopted
    exact ((h.mono hnow).decay).mono hended

theorem kept_launch (hv : v.Ordered clock) (h : Kept p v.now w) {state : Str}
    (hstate : state = dead ∨ state = suspended) (hsafe : w.recovery.safeMode = false)
    (hnext : w.recovery.nextRestartAt ≠ 0) (hreached : w.recovery.nextRestartAt ≤ v.now) :
    wp (launch p v state) (fun _ => Kept p v.ended) (fun _ => Kept p v.ended) w := by
  have hdue := h.due hstate hsafe hnext hreached v.spawned.isSome
  rw [launch, wp_bind, wp_read, wp_bind, note, wp_modify, wp_bind, wp_spawn]
  refine ⟨fun hspawned => ?_, fun hspawned => ?_⟩
  · rw [wp_bind, update, wp_modify]
    have hlaunched := (h.launch hdue hspawned rfl hsafe hnext le_rfl).adopt hv
    -- the deadline is dropped after the failures were popped, which is the same the other way round
    have hswap : p.adopted v { w.recovery with nextRestartAt := 0 } =
        { p.adopted v w.recovery with nextRestartAt := 0 } := by
      rw [Policy.adopted, Policy.adopted]
      rcases v.adoptedAt with _ | t <;> rfl
    exact kept_persist (hswap ▸ hlaunched)
  · exact (h.failLaunch hdue (by rw [hspawned]; rfl)).adopt hv

theorem kept_recover (hv : v.Ordered clock) {state : Str} {changed : Bool}
    (hnow : state ≠ alive → Kept p v.now w) (h : Kept p v.ended w) :
    wp (recover p v state changed) (fun _ => Kept p v.ended) (fun _ => Kept p v.ended) w := by
  have hsave : ∀ b : Bool, wp (if b then persist v.saved else pure ()) (fun _ => Kept p v.ended)
      (fun _ => Kept p v.ended) w := by
    intro b
    rw [wp_ite]
    exact ⟨fun _ => kept_persist h, fun _ => h⟩
  rw [recover, wp_bind, wp_read, wp_ite]
  refine ⟨fun hgo => ?_, fun _ => ?_⟩
  · obtain ⟨hstate, hsafe⟩ := hgo
    have hne : state ≠ alive := by rcases hstate with rfl | rfl <;> decide
    have h := hnow hne
    rw [wp_ite]
    refine ⟨fun _ => hsave changed, fun hreached => ?_⟩
    rw [wp_ite]
    refine ⟨fun hnext => kept_schedule hv h hsafe hnext, fun hnext => ?_⟩
    have hreached : w.recovery.nextRestartAt ≤ v.now := not_lt.mp fun hlt => hreached ⟨hnext, hlt⟩
    rw [respawn, wp_ite]
    refine ⟨fun _ => ?_, fun _ => kept_launch hv h hstate hsafe hnext hreached⟩
    rw [wp_bind, wp_demand]
    refine ⟨fun stopped _ => ?_, fun _ => h.mono (hv.failed.1.trans hv.failed.2)⟩
    rw [wp_ite]
    refine ⟨fun _ => kept_launch hv h hstate hsafe hnext hreached, fun _ => ?_⟩
    rw [wp_bind, update, wp_modify]
    exact kept_persist ((h.postpone hsafe hnext hreached le_rfl).mono
      (hv.failed.1.trans hv.failed.2))
  · rw [wp_ite]
    refine ⟨fun _ => ?_, fun _ => hsave changed⟩
    rw [wp_bind, update, wp_modify]
    exact kept_persist h.settle

theorem kept_visit (hw : p.windowS ≤ cooldown) (hforced : v.forced = false)
    (hv : v.Ordered clock) (h : Kept p clock w) :
    wp (visit p v) (fun _ => Kept p v.ended) (fun _ => Kept p v.ended) w := by
  have hended : v.now ≤ v.ended := hv.failed.1.trans hv.failed.2
  rw [visit, hforced, if_neg Bool.false_ne_true, wp_bind]
  refine wp_mono (kept_leaveSafeMode hw (h.mono hv.now)) (fun _ w' h' => ?_)
    fun _ _ h' => h'.mono hended
  rw [wp_bind]
  refine wp_mono (kept_assess hv h') (fun state w₂ h₂ => ?_) fun _ _ h₂ => h₂
  rw [wp_bind, noteState, wp_bind, wp_read, wp_bind, update, wp_modify, wp_pure]
  exact kept_recover hv (fun hne => (h₂.1 hne).noteState state) (h₂.2.noteState state)

end Visits

/-! ### Runs -/

/-- A component that was just added, without a stored record. -/
def World.fresh (clock : T) : World T where
  recovery := ⟨[], false, 0, 0, "unknown".toList, false⟩
  stored := ⟨[], false, 0, 0, "unknown".toList, false⟩
  log := []
  clock

/-- Ticks, with a clock that does not go back and without a manual restart. -/
abbrev Ticks (p : Policy T) (start : T) : List (Visit T) → World T → Prop :=
  Run (Guarded (fun w v => v.forced = false ∧ v.Ordered w.clock) fun w v w' => w.exec p v = w')
    (World.fresh start)

theorem budget_fresh (p : Policy T) (start : T) : Kept p start (World.fresh start) where
  budgeted := ⟨fun past l future heq => absurd heq (by simp [World.fresh]), fun _ => Nat.zero_le _⟩
  past _ ht := absurd ht List.not_mem_nil
  latched hf := absurd hf (by simp [World.fresh])
  entered hs := absurd hs (by simp [World.fresh])
  idle hs := absurd hs (by simp [World.fresh])
  waits _ hne := absurd rfl hne
  short _ hne := absurd rfl hne
  count _ := .inr (Nat.zero_le _)

/-- CORRECT: `_spawn` is only called when it is due, each call that returns uses up a saved failure
    of an earlier tick, after a backoff counted from the start of that tick, and no window holds
    more launches than `max_failures`. -/
theorem ticks_budgeted [IsStrictOrderedRing T] {p : Policy T} (hw : p.windowS ≤ cooldown) {start : T}
    {visits : List (Visit T)} {w : World T} (hrun : Ticks p start visits w) :
    Budgeted p started w.log := by
  have hkept : Kept p w.clock w := hrun.invariant (I := fun w => Kept p w.clock w)
    (fun w v w' h hstep => by
      obtain ⟨⟨hforced, hordered⟩, rfl⟩ := hstep
      exact wp_state (kept_visit hw hforced hordered h)) (budget_fresh p start)
  exact hkept.budgeted

/-! ### Two ticks -/

def samplePolicy : Policy ℚ := ⟨3, 60, 1, 60, by norm_num, by norm_num⟩

/-- A tick that begins at `now` and finds the component dead at `failedAt`; nothing fails. -/
def sampleVisit (now failedAt : ℚ) : Visit ℚ :=
  ⟨now, false, .judged dead, failedAt, true, true, some true, none, some true, failedAt⟩

/-- The component is found dead at `failedAt`, and again after a second. -/
def sampleRun (failedAt : ℚ) : World ℚ :=
  ((World.fresh 100).exec samplePolicy (sampleVisit 100 failedAt)).exec samplePolicy
    (sampleVisit (failedAt + 1) (failedAt + 1))

theorem sampleRun_ticks {failedAt : ℚ} (h : 100 ≤ failedAt) :
    ∃ visits, Ticks samplePolicy 100 visits (sampleRun failedAt) := by
  refine ⟨[] ++ [_] ++ [_], Run.snoc (Run.snoc .nil ⟨⟨rfl, ?_⟩, rfl⟩) ⟨⟨rfl, ?_⟩, rfl⟩⟩
  · exact ⟨le_refl (100 : ℚ), fun _ ht => absurd ht (by simp [sampleVisit]), ⟨h, le_refl failedAt⟩,
      fun _ ht => absurd ht (by simp [sampleVisit])⟩
  · have hle : failedAt ≤ failedAt + 1 := by linarith
    exact ⟨hle, fun _ ht => absurd ht (by simp [sampleVisit]),
      ⟨le_refl (failedAt + 1), le_refl (failedAt + 1)⟩, fun _ ht => absurd ht (by simp [sampleVisit])⟩

/-- A component that is found dead is launched a second later. -/
theorem ticks_budgeted_restart :
    Budgeted samplePolicy started (sampleRun 100).log ∧ launches (sampleRun 100).log = [101] := by
  obtain ⟨visits, hrun⟩ := sampleRun_ticks (le_refl (100 : ℚ))
  exact ⟨ticks_budgeted (by norm_num [samplePolicy, cooldown]) hrun, by decide +kernel⟩

/-- The assessment takes five seconds: the backoff of one second is over before the failure is
    registered. -/
theorem backoff_before_failure : (∃ visits, Ticks samplePolicy 100 visits (sampleRun 105)) ∧
    ¬Budgeted samplePolicy (fun _ time => time) (sampleRun 105).log := by
  refine ⟨sampleRun_ticks (by norm_num), fun hbudget => ?_⟩
  have hlog : (sampleRun 105).log = [.failure 100 105 true] ++
      .launch ⟨106, dead, false, false, 101, true⟩ :: [] := by decide +kernel
  obtain ⟨before, start, time, after, heq, -, hdate⟩ := (hbudget.due _ _ _ hlog).waits
  have htime : time = 105 := by
    rcases before with _ | ⟨e, before⟩
    · exact (Event.failure.inj (List.cons.inj heq).1).2.1.symm
    · exact absurd heq (by simp)
  subst htime
  norm_num [samplePolicy] at hdate

end Angerona.Supervisor
