import Mathlib
import Angerona.Bus.Poll
import Angerona.Soar.Model

/-!
    While the alerts about events that were given up are published, every event that the bus still
    holds when its turn comes is evaluated until it succeeds once or has failed three times, in the
    order of publication; an event is passed over only when both lanes have let it go. When such an
    alert is refused, the cursor has not moved, and the event is evaluated again. -/

namespace Angerona.Soar
open History Bus Transition

variable {α κ : Type} [DecidableEq κ]

/-! ### What a lane holds -/

theorem effectiveCursor_of_le {hist : List (Event α)} {cursor : ℕ} (hc : cursor ≤ hist.length) :
    effectiveCursor hist cursor = cursor := by
  rw [effectiveCursor, if_pos ⟨by omega, by omega⟩, Int.toNat_natCast]

/-- The bus answers a cursor with what it still holds. -/
theorem held_of_recordsSince {bus : EventBus α} {hist : List (Event α)} (h : Retains bus hist)
    {cursor : ℕ} (hc : cursor ≤ hist.length) {p : ℕ × Event α}
    (hp : p ∈ (bus.recordsSince cursor).2.1) :
    StillHeld bus.ringSize bus.prioritySize hist p.1 p.2 := by
  have hrev := h.revision
  have hlen : bus.ring.length = min bus.ringSize hist.length := by rw [h.ring, length_rtake]
  have hanswers := (h.recordsSince cursor).published p.1 p.2 hp
  rw [effectiveCursor_of_le hc] at hanswers
  simp only [EventBus.recordsSince, hrev] at hp
  split at hp
  · cases hp
  · rw [if_neg (by omega)] at hp
    split at hp
    · -- an entry of one of the lanes
      have hall := h.stamped_all
      rw [hrev] at hall
      rw [hall] at hp
      obtain ⟨-, hmem⟩ := @merge_spec α hist _
        (bus.globalRecords.filter fun entry => (cursor : ℤ) < entry.1)
        ((rtake_reverse_decreasing hist bus.ringSize).sublist List.filter_sublist)
        (fun p hp => (mem_rtake_numbered.mp (List.mem_reverse.mp (List.mem_filter.mp hp).1)).1)
        (fun p hp => (h.mem_globalRecords.mp (List.mem_filter.mp hp).1).1)
      rcases (hmem p).mp hp with hp | hp
      · exact Or.inl (mem_rtake_numbered.mp (List.mem_reverse.mp (List.mem_filter.mp hp).1)).2
      · obtain ⟨-, hprio, hlt⟩ := h.mem_globalRecords.mp (List.mem_filter.mp hp).1
        exact Or.inr ⟨hprio, hlt⟩
    · rename_i hover
      refine Or.inl ?_
      omega

/-- What is published later takes nothing back into a lane. -/
theorem stillHeld_concat {ringSize prioritySize r : ℕ} {hist : List (Event α)} {e e' : Event α}
    (hr : r ≤ hist.length) (h : StillHeld ringSize prioritySize (hist ++ [e']) r e) :
    StillHeld ringSize prioritySize hist r e := by
  rcases h with h | ⟨hprio, h⟩
  · rw [List.length_append, List.length_singleton] at h
    exact Or.inl (by omega)
  · refine Or.inr ⟨hprio, ?_⟩
    rw [List.drop_append_of_le_length hr, priorityEvents_append, List.length_append] at h
    omega

theorem numbered_of_concat {hist : List (Event α)} {e e' : Event α} {r : ℕ} (hle : r ≤ hist.length)
    (hr : (r, e') ∈ numbered (hist ++ [e])) : (r, e') ∈ numbered hist := by
  rw [numbered_concat, List.mem_append, List.mem_singleton] at hr
  rcases hr with hr | hr
  · exact hr
  · have hlast := (Prod.ext_iff.mp hr).1
    dsimp only at hlast
    omega

theorem Phase.fetched_ne_idle {events : List (ℕ × Event α)} : Phase.fetched events ≠ .idle := by
  intro h
  cases h

theorem Phase.overflowed_ne_idle {events : List (ℕ × Event α)} {priority : ℕ} :
    Phase.overflowed events priority ≠ .idle := by
  intro h
  cases h

theorem Phase.delivering_ne_idle {events : List (ℕ × Event α)} {priority : ℕ} :
    Phase.delivering events priority ≠ .idle := by
  intro h
  cases h

theorem Phase.buried_ne_idle {revision : ℕ} {events : List (ℕ × Event α)} {priority : ℕ} :
    Phase.buried revision events priority ≠ .idle := by
  intro h
  cases h

/-! ### The outcomes of one publication -/

theorem outcomes_append (log : List (ℕ × Outcome)) (r p : ℕ) (o : Outcome) :
    outcomes (log ++ [(p, o)]) r = if p = r then outcomes log r ++ [o] else outcomes log r := by
  rw [outcomes, outcomes, List.filter_append, List.map_append]
  by_cases h : p = r
  · rw [if_pos h, List.filter_cons_of_pos (by simpa using h)]
    rfl
  · rw [if_neg h, List.filter_cons_of_neg (by simpa using h)]
    simp

theorem outcomes_eq_nil {log : List (ℕ × Outcome)} {r : ℕ} (h : ∀ l ∈ log, l.1 < r) :
    outcomes log r = [] := by
  rw [outcomes, List.filter_eq_nil_iff.mpr, List.map_nil]
  intro l hl
  simpa using (h l hl).ne

theorem mem_outcomes {log : List (ℕ × Outcome)} {l : ℕ × Outcome} (h : l ∈ log) :
    l.2 ∈ outcomes log l.1 :=
  List.mem_map.mpr ⟨l, List.mem_filter.mpr ⟨h, by simp⟩, rfl⟩

theorem Open.failed {os : List Outcome} (h : Open os) {o : Outcome} (ho : o ∈ os) : o = .failed := by
  obtain ⟨a, -, rfl⟩ := h
  exact List.eq_of_mem_replicate ho

/-- What is settled is not open. -/
theorem Settled.not_open {os : List Outcome} (h : Settled os) : ¬Open os := by
  intro hopen
  rcases h with ⟨a, -, rfl⟩ | rfl
  · exact absurd (hopen.failed (List.mem_append_right _ (List.mem_singleton_self _))) (by decide)
  · exact absurd (hopen.failed (o := .dead) (by simp)) (by decide)

/-! ### What one step does -/

namespace World

variable {key : Event α → κ} {w w' : World α κ}

variable (key) in
/-- The steps, by where the call stands. -/
inductive Takes (w : World α κ) : Label α → World α κ → Prop where
  | publish (e : Event α) : Takes w (.publish e) (w.published e)
  | fetch (hphase : w.phase = .idle) : Takes w .fetch { w with
      phase := .fetched (w.bus.recordsSince w.soar.generalCursor).2.1.reverse
      fetchedAt := w.hist.length }
  | overflow {events : List (ℕ × Event α)} (hphase : w.phase = .fetched events) :
      Takes w .snapshot { w with
        soar := (w.soar.snapshot w.bus).1
        phase := .overflowed events (w.soar.snapshot w.bus).2.1 }
  | snapshot {events : List (ℕ × Event α)} (hphase : w.phase = .fetched events) :
      Takes w .snapshot { w with
        soar := (w.soar.snapshot w.bus).1.prune key events
        phase := .delivering events (w.soar.snapshot w.bus).2.1 }
  | done {p : ℕ} {e : Event α} {rest : List (ℕ × Event α)} {priority : ℕ}
      (hphase : w.phase = .delivering ((p, e) :: rest) priority) :
      Takes w (.evaluate false) { w with
        soar := ({ w.soar with failures := w.soar.failures.erase (key e) } : ActiveResponse κ).commit p
        log := w.log ++ [(p, .done)]
        phase := .delivering rest priority }
  | failed {p : ℕ} {e : Event α} {rest : List (ℕ × Event α)} {priority : ℕ}
      (hphase : w.phase = .delivering ((p, e) :: rest) priority)
      (hfew : (w.soar.failures.get? (key e)).getD 0 + 1 < 3) :
      Takes w (.evaluate true) { w with
        soar := { w.soar with
          failures := w.soar.failures.set (key e) ((w.soar.failures.get? (key e)).getD 0 + 1) }
        log := w.log ++ [(p, .failed)]
        phase := .idle
        calls := w.calls + 1 }
  | dead {p : ℕ} {e : Event α} {rest : List (ℕ × Event α)} {priority : ℕ}
      (hphase : w.phase = .delivering ((p, e) :: rest) priority)
      (hmany : ¬(w.soar.failures.get? (key e)).getD 0 + 1 < 3) :
      Takes w (.evaluate true) { w with
        soar := { w.soar with
          failures := w.soar.failures.erase (key e)
          deadLettered := w.soar.deadLettered + 1 }
        log := w.log ++ [(p, .dead)]
        phase := .buried p rest priority }
  | overflowAlert (content : α) {events : List (ℕ × Event α)} {priority : ℕ}
      (hphase : w.phase = .overflowed events priority) :
      Takes w (.alert content) { w.published ⟨.high, content⟩ with
        soar := w.soar.prune key events
        phase := .delivering events priority }
  | deadAlert (content : α) {p : ℕ} {rest : List (ℕ × Event α)} {priority : ℕ}
      (hphase : w.phase = .buried p rest priority) :
      Takes w (.alert content) { w.published ⟨.high, content⟩ with
        soar := w.soar.commit p
        phase := .delivering rest priority }
  | refuseOverflow {events : List (ℕ × Event α)} {priority : ℕ}
      (hphase : w.phase = .overflowed events priority) : Takes w .refuse { w with phase := .idle }
  | refuseDead {p : ℕ} {rest : List (ℕ × Event α)} {priority : ℕ}
      (hphase : w.phase = .buried p rest priority) : Takes w .refuse { w with phase := .idle }
  | finish {priority : ℕ} (hphase : w.phase = .delivering [] priority) : Takes w .finish { w with
      soar := { w.soar with priorityCursor := priority }
      phase := .idle
      calls := w.calls + 1 }

theorem step_takes {l : Label α} (h : w.step key l = some w') : w.Takes key l w' := by
  cases l with
  | publish e =>
    obtain rfl := Option.some.inj h
    exact .publish e
  | fetch =>
    rw [step] at h
    split at h
    · rename_i hphase
      obtain rfl := Option.some.inj h
      exact .fetch hphase
    · cases h
  | snapshot =>
    rw [step] at h
    split at h
    · rename_i events hphase
      dsimp only at h
      split at h
      · obtain rfl := Option.some.inj h
        exact .overflow hphase
      · obtain rfl := Option.some.inj h
        exact .snapshot hphase
    · cases h
  | evaluate raised =>
    rw [step] at h
    split at h
    · rename_i p e rest priority hphase
      rw [ActiveResponse.evaluate] at h
      cases raised with
      | false =>
        obtain rfl := Option.some.inj h
        exact .done hphase
      | true =>
        by_cases hfew : (w.soar.failures.get? (key e)).getD 0 + 1 < 3
        · simp only [Bool.not_true, Bool.false_eq_true, if_false, if_pos hfew] at h
          obtain rfl := Option.some.inj h
          exact .failed hphase hfew
        · simp only [Bool.not_true, Bool.false_eq_true, if_false, if_neg hfew] at h
          obtain rfl := Option.some.inj h
          exact .dead hphase hfew
    · cases h
  | alert content =>
    rw [step] at h
    split at h
    · rename_i events priority hphase
      obtain rfl := Option.some.inj h
      exact .overflowAlert content hphase
    · rename_i p rest priority hphase
      obtain rfl := Option.some.inj h
      exact .deadAlert content hphase
    · cases h
  | refuse =>
    rw [step] at h
    split at h
    · rename_i events priority hphase
      obtain rfl := Option.some.inj h
      exact .refuseOverflow hphase
    · rename_i p rest priority hphase
      obtain rfl := Option.some.inj h
      exact .refuseDead hphase
    · cases h
  | finish =>
    rw [step] at h
    split at h
    · rename_i priority hphase
      obtain rfl := Option.some.inj h
      exact .finish hphase
    · cases h

end World

/-! ### The invariant -/

namespace World

variable {key : Event α → κ} {w w' : World α κ}

/-- An event after all that was reached that is held by a lane or waits in the batch. -/
def Alive (w : World α κ) (r : ℕ) (e : Event α) : Prop :=
  w.reached < r ∧ (w.Held r e ∨ (r, e) ∈ w.pending)

variable (key) in
/-- The batch lists what is alive of the publications before it was read, and every event that is alive
    comes after all that was evaluated, with its failures counted. -/
structure Inv (w : World α κ) : Prop where
  retains : Retains w.bus w.hist
  keys : (w.hist.map key).Nodup
  increasing : w.pending.Pairwise fun a b => a.1 < b.1
  pending : ∀ p ∈ w.pending, p ∈ numbered w.hist ∧ p.1 ≤ w.fetchedAt ∧ w.reached < p.1
  fetchedAt : w.fetchedAt ≤ w.hist.length
  cursor : w.soar.generalCursor ≤ w.reached
  reached : w.reached ≤ w.fetchedAt
  complete : w.phase ≠ .idle → ∀ r e, w.Alive r e → r ≤ w.fetchedAt → (r, e) ∈ w.pending
  logged : ∀ l ∈ w.log, 0 < l.1 ∧ l.1 ≤ w.fetchedAt
  ordered : w.log.Pairwise fun a b => a.1 < b.1 ∨ (a.1 = b.1 ∧ a.2 = .failed)
  behind : ∀ r e, w.Alive r e → ∀ l ∈ w.log, l.1 ≤ r
  known : ∀ k a, w.soar.failures.get? k = some a → k ∈ w.hist.map key
  still_open : ∀ r, w.reached < r → Open (outcomes w.log r)
  counted : ∀ r e, w.Alive r e →
    outcomes w.log r = List.replicate ((w.soar.failures.get? (key e)).getD 0) .failed
  closed : ∀ r e, (r, e) ∈ numbered w.hist → r ≤ w.reached →
    Settled (outcomes w.log r) ∨ (Open (outcomes w.log r) ∧ ¬w.Held r e)
  deadLettered : w.soar.deadLettered = w.log.countP fun l => l.2 = .dead

namespace Inv

theorem alive_numbered (h : w.Inv key) {r : ℕ} {e : Event α} (ha : w.Alive r e) :
    (r, e) ∈ numbered w.hist := ha.2.elim And.left fun hp => (h.pending _ hp).1

/-- Two publications of one signature are one. -/
theorem eq_of_key (h : w.Inv key) {r s : ℕ} {e f : Event α} (he : (r, e) ∈ numbered w.hist)
    (hf : (s, f) ∈ numbered w.hist) (hkey : key e = key f) : r = s := by
  obtain ⟨hr, he⟩ := mem_numbered.mp he
  obtain ⟨hs, hf⟩ := mem_numbered.mp hf
  obtain ⟨hrlt, he⟩ := List.getElem?_eq_some_iff.mp he
  obtain ⟨hslt, hf⟩ := List.getElem?_eq_some_iff.mp hf
  have hnodup := List.nodup_iff_injective_get.mp h.keys
  have hsame := @hnodup ⟨r - 1, by simpa using hrlt⟩ ⟨s - 1, by simpa using hslt⟩
    (by simp [he, hf, hkey])
  have hsame := Fin.ext_iff.mp hsame
  simp only at hsame
  omega

theorem start (ringSize : ℕ) (priorityRingSize : Option ℤ) {hist : List (Event α)}
    (hkeys : (hist.map key).Nodup) : (World.start ringSize priorityRingSize hist).Inv key := by
  refine ⟨retains_publications ringSize priorityRingSize hist, hkeys, List.Pairwise.nil,
    fun p hp => absurd hp List.not_mem_nil, Nat.zero_le _, le_rfl, le_rfl, fun hne => absurd rfl hne,
    fun l hl => absurd hl List.not_mem_nil, List.Pairwise.nil, fun r e _ l hl => absurd hl List.not_mem_nil,
    fun k a hk => (by cases hk), fun r _ => ⟨0, by omega, rfl⟩, fun r e _ => rfl, fun r e hr hle => ?_, rfl⟩
  exact absurd (mem_numbered.mp hr).1 (by simpa [World.start, World.reached, ActiveResponse.fresh] using hle)

omit [DecidableEq κ] in
/-- What is held after a publication, other than the publication itself, was held before. -/
theorem held_publish {e e' : Event α} {r : ℕ} (hle : r ≤ w.hist.length)
    (hheld : (w.published e).Held r e') : w.Held r e' := by
  obtain ⟨hring, hprio⟩ := Bus.deliver_sizes w.bus e
  obtain ⟨hnum, hstill⟩ := hheld
  rw [World.published, hring, hprio] at hstill
  exact ⟨numbered_of_concat hle hnum, stillHeld_concat hle hstill⟩

/-- A publication comes after all that was read. -/
theorem publish (h : w.Inv key) {e : Event α} (hfresh : key e ∉ w.hist.map key) :
    (w.published e).Inv key := by
  have halive : ∀ {r : ℕ} {e' : Event α},
      (w.published e).Alive r e' →
        w.Alive r e' ∨ (r = w.hist.length + 1 ∧ e' = e) := by
    rintro r e' ⟨hlt, ha⟩
    by_cases hle : r ≤ w.hist.length
    · exact Or.inl ⟨hlt, ha.imp_left (Inv.held_publish hle)⟩
    · rcases ha with ⟨hnum, -⟩ | hp
      · rw [World.published, numbered_concat, List.mem_append, List.mem_singleton] at hnum
        rcases hnum with hnum | hnum
        · exact absurd (mem_numbered_le hnum).2 hle
        · exact Or.inr (Prod.ext_iff.mp hnum)
      · exact absurd ((h.pending _ hp).2.1.trans h.fetchedAt) hle
  refine ⟨h.retains.deliver e, ?_, h.increasing, fun p hp => ?_, ?_, h.cursor, h.reached, fun hne r e' ha hle => ?_,
    h.logged, h.ordered, fun r e' ha l hl => ?_, fun k a hk => ?_, h.still_open, fun r e' ha => ?_,
    fun r e' hr hle => ?_, h.deadLettered⟩
  · rw [World.published, List.map_append, List.nodup_append]
    refine ⟨h.keys, List.nodup_singleton _, fun k hk k' hk' heq => ?_⟩
    rw [List.map_singleton, List.mem_singleton] at hk'
    exact hfresh (hk' ▸ heq ▸ hk)
  · obtain ⟨hnum, hrest⟩ := h.pending p hp
    refine ⟨?_, hrest⟩
    rw [World.published, numbered_concat]
    exact List.mem_append_left _ hnum
  · rw [World.published, List.length_append]
    exact h.fetchedAt.trans (Nat.le_add_right _ _)
  · rcases halive ha with ha | ⟨rfl, -⟩
    · exact h.complete hne r e' ha hle
    · exact absurd (hle.trans h.fetchedAt) (by omega)
  · rcases halive ha with ha | ⟨rfl, -⟩
    · exact h.behind r e' ha l hl
    · exact ((h.logged l hl).2.trans h.fetchedAt).trans (Nat.le_succ _)
  · rw [World.published, List.map_append]
    exact List.mem_append_left _ (h.known k a hk)
  · rcases halive ha with ha | ⟨rfl, rfl⟩
    · exact h.counted r e' ha
    · have hnone : w.soar.failures.get? (key e') = none :=
        Option.eq_none_iff_forall_ne_some.mpr fun a ha => hfresh (h.known _ a ha)
      have hnil : outcomes w.log (w.hist.length + 1) = [] :=
        outcomes_eq_nil fun l hl => Nat.lt_succ_of_le ((h.logged l hl).2.trans h.fetchedAt)
      rw [World.published]
      dsimp only
      rw [hnil, hnone]
      rfl
  · have hle' : r ≤ w.hist.length := hle.trans (h.reached.trans h.fetchedAt)
    exact (h.closed r e' (numbered_of_concat hle' hr) hle).imp_right fun hopen =>
      ⟨hopen.1, fun hheld => hopen.2 (Inv.held_publish hle' hheld)⟩

/-- What is read is held, and comes after the cursor. -/
theorem mem_fetched (h : w.Inv key) {r : ℕ} {e : Event α}
    (hr : (r, e) ∈ (w.bus.recordsSince w.soar.generalCursor).2.1.reverse) :
    w.soar.generalCursor < r ∧ w.Held r e := by
  have hcursor : w.soar.generalCursor ≤ w.hist.length := h.cursor.trans (h.reached.trans h.fetchedAt)
  have hr := List.mem_reverse.mp hr
  obtain ⟨hget, hpos, hlt⟩ := (h.retains.recordsSince w.soar.generalCursor).published r e hr
  rw [effectiveCursor_of_le hcursor] at hlt
  exact ⟨hlt, mem_numbered.mpr ⟨hpos, hget⟩, held_of_recordsSince h.retains hcursor hr⟩

/-- A batch of what the bus holds after the cursor, oldest first. -/
theorem fetch (h : w.Inv key) (hidle : w.phase = .idle) :
    Inv key { w with
      phase := .fetched (w.bus.recordsSince w.soar.generalCursor).2.1.reverse
      fetchedAt := w.hist.length } := by
  have hcursor : w.soar.generalCursor ≤ w.hist.length := h.cursor.trans (h.reached.trans h.fetchedAt)
  have hanswers := h.retains.recordsSince w.soar.generalCursor
  have heff := effectiveCursor_of_le hcursor
  have hnone : w.pending = [] := by rw [World.pending, hidle]
  have hreached : w.reached = w.soar.generalCursor := by rw [World.reached, hidle]
  have halive : ∀ {r : ℕ} {e : Event α}, World.Alive { w with
      phase := .fetched (w.bus.recordsSince w.soar.generalCursor).2.1.reverse
      fetchedAt := w.hist.length } r e → w.Alive r e := by
    rintro r e ⟨hlt, hheld | hp⟩
    · exact ⟨hreached ▸ hlt, Or.inl hheld⟩
    · exact ⟨hreached ▸ hlt, Or.inl (h.mem_fetched hp).2⟩
  refine ⟨h.retains, h.keys, ?_, fun p hp => ?_, le_rfl, le_rfl, hcursor, fun _ r e ha _ => ?_,
    fun l hl => ⟨(h.logged l hl).1, (h.logged l hl).2.trans h.fetchedAt⟩, h.ordered,
    fun r e ha => h.behind r e (halive ha), h.known, fun r hr => h.still_open r (hreached ▸ hr),
    fun r e ha => h.counted r e (halive ha), fun r e hr hle => h.closed r e hr (hreached ▸ hle),
    h.deadLettered⟩
  · exact List.pairwise_reverse.mpr hanswers.decreasing
  · obtain ⟨hlt, hnum, -⟩ := h.mem_fetched (r := p.1) (e := p.2) hp
    exact ⟨hnum, (mem_numbered_le hnum).2, hlt⟩
  · obtain ⟨hlt, hheld⟩ := halive ha
    rw [hnone] at hheld
    obtain ⟨hnum, hstill⟩ := hheld.resolve_right List.not_mem_nil
    refine List.mem_reverse.mpr (hanswers.held r e (mem_numbered.mp hnum).2 ?_ hstill)
    rwa [heff, ← hreached]

/-- A step that moves on among what the batch has left keeps the invariant. -/
theorem moves (h : w.Inv key) {soar : ActiveResponse κ} {phase : Phase α} {calls : ℕ}
    (hfailures : soar.failures = w.soar.failures) (hdead : soar.deadLettered = w.soar.deadLettered)
    (hpending : ∀ p ∈ World.pending { w with phase := phase }, p ∈ w.pending)
    (hsorted : (World.pending { w with phase := phase }).Pairwise fun a b => a.1 < b.1)
    (hbusy : phase ≠ .idle → w.phase ≠ .idle ∧ w.pending = World.pending { w with phase := phase })
    (hreached : World.reached { w with soar := soar, phase := phase } = w.reached)
    (hcursor : soar.generalCursor ≤ w.reached) :
    Inv key { w with soar := soar, phase := phase, calls := calls } := by
  have hsame : World.reached { w with soar := soar, phase := phase, calls := calls } = w.reached := hreached
  have halive : ∀ {r : ℕ} {e : Event α},
      World.Alive { w with soar := soar, phase := phase, calls := calls } r e → w.Alive r e := by
    rintro r e ⟨hlt, ha⟩
    exact ⟨hsame ▸ hlt, ha.imp_right (hpending (r, e))⟩
  refine ⟨h.retains, h.keys, hsorted, fun p hp => ?_, h.fetchedAt, hsame ▸ hcursor, hsame ▸ h.reached,
    fun hne r e ha hle => ?_, h.logged, h.ordered, fun r e ha => h.behind r e (halive ha), ?_,
    fun r hr => h.still_open r (hsame ▸ hr), fun r e ha => ?_,
    fun r e hr hle => h.closed r e hr (hsame ▸ hle), hdead.trans h.deadLettered⟩
  · obtain ⟨hnum, hle, hlt⟩ := h.pending p (hpending p hp)
    exact ⟨hnum, hle, by rwa [hsame]⟩
  · obtain ⟨hold, hleft⟩ := hbusy hne
    have hin := h.complete hold r e (halive ha) hle
    rwa [hleft] at hin
  · dsimp only
    rw [hfailures]
    exact h.known
  · dsimp only
    rw [hfailures]
    exact h.counted r e (halive ha)

/-- What is counted of failures stays for all that is alive. -/
theorem prune (h : w.Inv key) {events : List (ℕ × Event α)} {soar : ActiveResponse κ} {priority : ℕ}
    (hpending : w.pending = events) (hbusy : w.phase ≠ .idle)
    (hreached : w.reached = w.soar.generalCursor) (hcursor : soar.generalCursor = w.soar.generalCursor)
    (hfailures : soar.failures = w.soar.failures) (hdead : soar.deadLettered = w.soar.deadLettered) :
    Inv key { w with soar := soar.prune key events, phase := .delivering events priority } := by
  have hkept : (soar.prune key events).failures =
      w.soar.failures.keep fun i => (events.map fun p => key p.2).contains i.1 := by
    rw [ActiveResponse.prune, hfailures]
  have hsame : World.reached { w with
      soar := soar.prune key events, phase := .delivering events priority } = w.reached :=
    hcursor.trans hreached.symm
  have halive : ∀ {r : ℕ} {e : Event α}, World.Alive { w with
      soar := soar.prune key events, phase := .delivering events priority } r e → w.Alive r e := by
    rintro r e ⟨hlt, ha⟩
    exact ⟨hsame ▸ hlt, ha.imp_right fun hp => hpending ▸ hp⟩
  refine ⟨h.retains, h.keys, hpending ▸ h.increasing, fun p hp => ?_, h.fetchedAt, le_rfl,
    hsame ▸ h.reached, fun _ r e ha hle => ?_, h.logged, h.ordered, fun r e ha => h.behind r e (halive ha),
    fun k a hk => ?_, fun r hr => h.still_open r (hsame ▸ hr), fun r e ha => ?_,
    fun r e hr hle => h.closed r e hr (hsame ▸ hle), hdead.trans h.deadLettered⟩
  · obtain ⟨hnum, hle, hlt⟩ := h.pending p (hpending ▸ hp)
    exact ⟨hnum, hle, by rwa [hsame]⟩
  · have hp := h.complete hbusy r e (halive ha) hle
    rwa [hpending] at hp
  · rw [hkept, Dict.get?_keep, Option.filter_eq_some_iff] at hk
    exact h.known k a hk.1
  · have hcounted := h.counted r e (halive ha)
    rw [hcounted, hkept, Dict.get?_keep]
    by_cases hin : (r, e) ∈ events
    · have hkeep : (events.map fun p => key p.2).contains (key e) = true :=
        List.contains_iff_mem.mpr (List.mem_map.mpr ⟨_, hin, rfl⟩)
      cases w.soar.failures.get? (key e) with
      | none => rfl
      | some a => rw [Option.filter_some, if_pos hkeep]
    · -- it was published after the batch was read
      have hlate : w.fetchedAt < r := by
        by_contra hle
        refine hin (hpending ▸ h.complete hbusy r e (halive ha) ?_)
        omega
      have hnil := outcomes_eq_nil fun l hl => lt_of_le_of_lt (h.logged l hl).2 hlate
      rw [hnil] at hcounted
      have hzero : (w.soar.failures.get? (key e)).getD 0 = 0 := by
        simpa using (congrArg List.length hcounted).symm
      rw [hzero]
      cases hget : w.soar.failures.get? (key e) with
      | none => rfl
      | some a =>
        rw [hget, Option.getD_some] at hzero
        subst hzero
        rw [Option.filter_some]
        split <;> rfl

section Evaluate

variable {p : ℕ} {e : Event α} {rest : List (ℕ × Event α)} {priority : ℕ}

theorem alive_head (h : w.Inv key) (hphase : w.phase = .delivering ((p, e) :: rest) priority) :
    w.Alive p e := by
  have hmem : (p, e) ∈ w.pending := by
    rw [World.pending, hphase]
    exact List.mem_cons_self
  exact ⟨(h.pending _ hmem).2.2, Or.inr hmem⟩

/-- The first of the batch is the first of all that is alive. -/
theorem head_le (h : w.Inv key) (hphase : w.phase = .delivering ((p, e) :: rest) priority) {r : ℕ}
    {e' : Event α} (ha : w.Alive r e') : p ≤ r := by
  have hpending : w.pending = (p, e) :: rest := by rw [World.pending, hphase]
  by_cases hle : r ≤ w.fetchedAt
  · have hr := h.complete (hphase ▸ Phase.delivering_ne_idle) r e' ha hle
    rw [hpending] at hr
    rcases List.mem_cons.mp hr with hr | hr
    · exact (Prod.ext_iff.mp hr).1.ge
    · have hinc := h.increasing
      rw [hpending, List.pairwise_cons] at hinc
      exact (hinc.1 _ hr).le
  · have hp : p ≤ w.fetchedAt := (h.pending (p, e) (hpending ▸ List.mem_cons_self)).2.1
    omega

/-- A publication other than the first of the batch has another signature. -/
theorem key_ne (h : w.Inv key) (hphase : w.phase = .delivering ((p, e) :: rest) priority) {r : ℕ}
    {e' : Event α} (hr : (r, e') ∈ numbered w.hist) (hne : r ≠ p) : key e' ≠ key e := fun heq =>
  hne (h.eq_of_key hr (h.alive_numbered (h.alive_head hphase)) heq)

/-- The order of evaluation, after one more. -/
theorem ordered_concat (h : w.Inv key) (hphase : w.phase = .delivering ((p, e) :: rest) priority)
    (o : Outcome) :
    (w.log ++ [(p, o)]).Pairwise fun a b => a.1 < b.1 ∨ (a.1 = b.1 ∧ a.2 = .failed) := by
  refine List.pairwise_append.mpr ⟨h.ordered, List.pairwise_singleton _ _, fun l hl m hm => ?_⟩
  obtain rfl := List.mem_singleton.mp hm
  have ha := h.alive_head hphase
  rcases (h.behind p e ha l hl).lt_or_eq with hlt | heq
  · exact Or.inl hlt
  · refine Or.inr ⟨heq, (h.still_open p ha.1).failed ?_⟩
    exact heq ▸ mem_outcomes hl

/-- The event is settled: all up to it is reached. -/
theorem settle (h : w.Inv key) (hphase : w.phase = .delivering ((p, e) :: rest) priority) {o : Outcome}
    (hsettled : Settled (outcomes w.log p ++ [o])) {soar : ActiveResponse κ} {phase : Phase α}
    (hfailures : soar.failures = w.soar.failures.erase (key e))
    (hdead : soar.deadLettered = w.soar.deadLettered + if o = .dead then 1 else 0)
    (hrest : World.pending { w with phase := phase } = rest)
    (hreached : World.reached { w with soar := soar, phase := phase } = p)
    (hcursor : soar.generalCursor ≤ p) :
    Inv key { w with soar := soar, log := w.log ++ [(p, o)], phase := phase } := by
  have hpending : w.pending = (p, e) :: rest := by rw [World.pending, hphase]
  have hhead := h.alive_head hphase
  obtain ⟨hnum, hfetched, hlt⟩ := h.pending (p, e) (hpending ▸ List.mem_cons_self)
  have hinc := h.increasing
  rw [hpending, List.pairwise_cons] at hinc
  have hleft : World.pending { w with soar := soar, log := w.log ++ [(p, o)], phase := phase } = rest := hrest
  have hnow : World.reached { w with soar := soar, log := w.log ++ [(p, o)], phase := phase } = p := hreached
  have halive : ∀ {r : ℕ} {e' : Event α},
      World.Alive { w with soar := soar, log := w.log ++ [(p, o)], phase := phase } r e' →
        p < r ∧ w.Alive r e' := by
    rintro r e' ⟨hr, ha⟩
    rw [hnow] at hr
    rw [hleft] at ha
    refine ⟨hr, hlt.trans hr, ha.imp_right fun hp => ?_⟩
    rw [hpending]
    exact List.mem_cons_of_mem _ hp
  refine ⟨h.retains, h.keys, hleft ▸ hinc.2, fun q hq => ?_, h.fetchedAt, hnow ▸ hcursor, hnow ▸ hfetched,
    fun _ r e' ha hle => ?_, fun l hl => ?_, h.ordered_concat hphase o, fun r e' ha l hl => ?_,
    fun k a hk => ?_, fun r hr => ?_, fun r e' ha => ?_, fun r e' hr hle => ?_, ?_⟩
  · rw [hleft] at hq
    obtain ⟨hqnum, hqle, -⟩ := h.pending q (hpending ▸ List.mem_cons_of_mem _ hq)
    exact ⟨hqnum, hqle, hnow ▸ hinc.1 q hq⟩
  · obtain ⟨hr, ha⟩ := halive ha
    have hin := h.complete (hphase ▸ Phase.delivering_ne_idle) r e' ha hle
    rw [hpending] at hin
    rw [hleft]
    rcases List.mem_cons.mp hin with hin | hin
    · exact absurd (Prod.ext_iff.mp hin).1 hr.ne'
    · exact hin
  · rcases List.mem_append.mp hl with hl | hl
    · exact h.logged l hl
    · obtain rfl := List.mem_singleton.mp hl
      exact ⟨(mem_numbered.mp hnum).1, hfetched⟩
  · obtain ⟨hr, ha⟩ := halive ha
    rcases List.mem_append.mp hl with hl | hl
    · exact h.behind r e' ha l hl
    · obtain rfl := List.mem_singleton.mp hl
      exact hr.le
  · rw [hfailures, Dict.get?_erase] at hk
    split at hk
    · cases hk
    · exact h.known k a hk
  · rw [hnow] at hr
    rw [outcomes_append, if_neg (ne_of_lt hr)]
    exact h.still_open r (hlt.trans hr)
  · obtain ⟨hr, ha⟩ := halive ha
    rw [outcomes_append, if_neg hr.ne, h.counted r e' ha, hfailures, Dict.get?_erase,
      if_neg (h.key_ne hphase (h.alive_numbered ha) hr.ne')]
  · rw [hnow] at hle
    rw [outcomes_append]
    by_cases hpr : p = r
    · subst hpr
      rw [if_pos rfl]
      exact Or.inl hsettled
    · rw [if_neg hpr]
      by_cases hold : r ≤ w.reached
      · exact h.closed r e' hr hold
      · refine Or.inr ⟨h.still_open r (by omega), fun hheld => ?_⟩
        have hfirst := h.head_le hphase ⟨by omega, Or.inl hheld⟩
        exact hpr (le_antisymm hfirst hle)
  · rw [List.countP_append, List.countP_singleton, ← h.deadLettered, hdead]
    simp

/-- The event has failed once or twice, and is the first of the next batch that has it. -/
theorem fail (h : w.Inv key) (hphase : w.phase = .delivering ((p, e) :: rest) priority)
    (hfew : (w.soar.failures.get? (key e)).getD 0 + 1 < 3) :
    Inv key { w with
      soar := { w.soar with
        failures := w.soar.failures.set (key e) ((w.soar.failures.get? (key e)).getD 0 + 1) }
      log := w.log ++ [(p, .failed)]
      phase := .idle
      calls := w.calls + 1 } := by
  have hpending : w.pending = (p, e) :: rest := by rw [World.pending, hphase]
  have hreached : w.reached = w.soar.generalCursor := by rw [World.reached, hphase]
  have hhead := h.alive_head hphase
  obtain ⟨hnum, hfetched, hlt⟩ := h.pending (p, e) (hpending ▸ List.mem_cons_self)
  have halive : ∀ {r : ℕ} {e' : Event α}, World.Alive { w with
      soar := { w.soar with
        failures := w.soar.failures.set (key e) ((w.soar.failures.get? (key e)).getD 0 + 1) }
      log := w.log ++ [(p, .failed)]
      phase := .idle
      calls := w.calls + 1 } r e' → w.Alive r e' := by
    rintro r e' ⟨hr, ha⟩
    exact ⟨hreached ▸ hr, Or.inl (ha.resolve_right List.not_mem_nil)⟩
  have hcourse : outcomes w.log p ++ [.failed] =
      List.replicate ((w.soar.failures.get? (key e)).getD 0 + 1) .failed := by
    rw [h.counted p e hhead, List.replicate_succ']
  refine ⟨h.retains, h.keys, List.Pairwise.nil, fun q hq => absurd hq List.not_mem_nil, h.fetchedAt,
    le_rfl, hreached.ge.trans h.reached, fun hne => absurd rfl hne, fun l hl => ?_, h.ordered_concat hphase _,
    fun r e' ha l hl => ?_, fun k a hk => ?_, fun r hr => ?_, fun r e' ha => ?_, fun r e' hr hle => ?_, ?_⟩
  · rcases List.mem_append.mp hl with hl | hl
    · exact h.logged l hl
    · obtain rfl := List.mem_singleton.mp hl
      exact ⟨(mem_numbered.mp hnum).1, hfetched⟩
  · rcases List.mem_append.mp hl with hl | hl
    · exact h.behind r e' (halive ha) l hl
    · obtain rfl := List.mem_singleton.mp hl
      exact h.head_le hphase (halive ha)
  · rw [Dict.get?_set] at hk
    split at hk
    · rename_i hkey
      rw [hkey]
      obtain ⟨-, hget⟩ := mem_numbered.mp hnum
      exact List.mem_map.mpr ⟨e, List.mem_of_getElem? hget, rfl⟩
    · exact h.known k a hk
  · rw [outcomes_append]
    split
    · rename_i hpr
      subst hpr
      rw [hcourse]
      exact ⟨_, by omega, rfl⟩
    · exact h.still_open r (hreached ▸ hr)
  · rw [outcomes_append, Dict.get?_set]
    by_cases hpr : p = r
    · subst hpr
      obtain rfl : e' = e := numbered_unique (h.alive_numbered (halive ha)) hnum
      rw [if_pos rfl, if_pos rfl, hcourse, Option.getD_some]
    · rw [if_neg hpr, if_neg (h.key_ne hphase (h.alive_numbered (halive ha)) (Ne.symm hpr)),
        h.counted r e' (halive ha)]
  · have hle : r ≤ w.reached := hreached ▸ hle
    rw [outcomes_append, if_neg (by omega)]
    exact h.closed r e' hr hle
  · rw [List.countP_append, ← h.deadLettered]
    rfl

end Evaluate

/-- Every step keeps the invariant, if the alerts about events that were given up are published. -/
theorem step (h : w.Inv key) {l : Label α} (hannounced : w.Announced l) (hs : w.Step key l w') :
    w'.Inv key := by
  obtain ⟨hdistinct, hs⟩ := hs
  cases step_takes hs with
  | publish e => exact h.publish hdistinct
  | fetch hphase => exact h.fetch hphase
  | @overflow events hphase =>
    have hpending : w.pending = events := by rw [World.pending, hphase]
    have hreached : w.reached = w.soar.generalCursor := by rw [World.reached, hphase]
    exact h.moves rfl rfl (fun p hp => hpending ▸ hp) (hpending ▸ h.increasing)
      (fun _ => ⟨hphase ▸ Phase.fetched_ne_idle, hpending⟩) hreached.symm hreached.ge
  | @snapshot events hphase =>
    have hpending : w.pending = events := by rw [World.pending, hphase]
    have hreached : w.reached = w.soar.generalCursor := by rw [World.reached, hphase]
    exact h.prune hpending (hphase ▸ Phase.fetched_ne_idle) hreached rfl rfl rfl
  | @done p e rest priority hphase =>
    obtain ⟨a, ha, hcourse⟩ := h.still_open p (h.alive_head hphase).1
    exact h.settle hphase (Or.inl ⟨a, ha, by rw [hcourse]⟩) rfl rfl rfl rfl le_rfl
  | failed hphase hfew => exact h.fail hphase hfew
  | @dead p e rest priority hphase hmany =>
    have hhead := h.alive_head hphase
    obtain ⟨a, ha, hcourse⟩ := h.still_open p hhead.1
    -- what was counted of it is its course
    have hlen := congrArg List.length (hcourse.symm.trans (h.counted p e hhead))
    rw [List.length_replicate, List.length_replicate] at hlen
    obtain rfl : a = 2 := by omega
    exact h.settle hphase (Or.inr (by rw [hcourse]; rfl)) rfl rfl rfl rfl (h.cursor.trans hhead.1.le)
  | @overflowAlert content events priority hphase =>
    have hpublished := h.publish (e := ⟨.high, content⟩) hdistinct
    refine hpublished.prune (w := w.published _) ?_ (hphase ▸ Phase.overflowed_ne_idle) ?_ rfl rfl rfl
    · rw [World.pending, World.published, hphase]
    · rw [World.reached, World.published, hphase]
  | @deadAlert content p rest priority hphase =>
    have hpublished := h.publish (e := ⟨.high, content⟩) hdistinct
    have hpending : (w.published ⟨.high, content⟩).pending = rest := by
      rw [World.pending, World.published, hphase]
    have hreached : (w.published ⟨.high, content⟩).reached = p := by
      rw [World.reached, World.published, hphase]
    refine hpublished.moves (w := w.published _) rfl rfl (fun q hq => ?_) ?_ (fun _ => ⟨?_, hpending⟩)
      hreached.symm hreached.ge
    · rwa [hpending]
    · exact hpending ▸ hpublished.increasing
    · exact hphase ▸ Phase.buried_ne_idle
  | refuseOverflow hphase =>
    have hreached : w.reached = w.soar.generalCursor := by rw [World.reached, hphase]
    exact h.moves rfl rfl (fun p hp => absurd hp List.not_mem_nil) List.Pairwise.nil
      (fun hne => absurd rfl hne) hreached.symm hreached.ge
  | refuseDead hphase =>
    -- the cursor has not moved to the event that was given up
    rw [World.Announced, World.burying, hphase] at hannounced
    cases hannounced
  | finish hphase =>
    have hreached : w.reached = w.soar.generalCursor := by rw [World.reached, hphase]
    exact h.moves rfl rfl (fun p hp => absurd hp List.not_mem_nil) List.Pairwise.nil
      (fun hne => absurd rfl hne) hreached.symm hreached.ge

/-- The invariant says what was done with the events. -/
theorem delivered (h : w.Inv key) : w.Delivered where
  ordered := h.ordered
  published l hl := ⟨(h.logged l hl).1, (h.logged l hl).2.trans h.fetchedAt⟩
  courses r := by
    by_cases hr : w.reached < r
    · exact Or.inl (h.still_open r hr)
    · by_cases hmem : ∃ l ∈ w.log, l.1 = r
      · obtain ⟨l, hl, rfl⟩ := hmem
        obtain ⟨hpos, hle⟩ := h.logged l hl
        obtain ⟨e, he⟩ : ∃ e, w.hist[l.1 - 1]? = some e :=
          ⟨_, List.getElem?_eq_getElem (by have := h.fetchedAt; omega)⟩
        rcases h.closed l.1 e (mem_numbered.mpr ⟨hpos, he⟩) (not_lt.mp hr) with hs | ⟨ho, -⟩
        · exact Or.inr hs
        · exact Or.inl ho
      · refine Or.inl ⟨0, by omega, ?_⟩
        rw [outcomes, List.filter_eq_nil_iff.mpr, List.map_nil, List.replicate_zero]
        intro l hl
        simpa using fun heq => hmem ⟨l, hl, heq⟩
  retried r e hr hopen hlater hheld := by
    obtain ⟨l, hl, hlt⟩ := hlater
    by_cases hle : w.reached < r
    · exact absurd (h.behind r e ⟨hle, Or.inl hheld⟩ l hl) (not_le.mpr hlt)
    · rcases h.closed r e hr (not_lt.mp hle) with hs | ⟨-, hnot⟩
      · exact hs.not_open hopen
      · exact hnot hheld
  skipped r e hr hle := (h.closed r e hr (hle.trans h.cursor)).imp_right And.right
  deadLettered := h.deadLettered

end Inv

/-! ### Every call does some of the work -/

open Classical in
/-- The evaluations that publication `r` can still need. -/
noncomputable def remaining (w : World α κ) (r : ℕ) : ℕ :=
  if ∃ e, w.Alive r e then 3 - (outcomes w.log r).length else 0

/-- The evaluations that the first `n` publications can still need. -/
noncomputable def work (w : World α κ) (n : ℕ) : ℕ := ∑ r ∈ Finset.Icc 1 n, w.remaining r

/-- Nothing comes alive, and no evaluation is forgotten. -/
structure Advances (n : ℕ) (w w' : World α κ) : Prop where
  alive : ∀ r e, r ≤ n → w'.Alive r e → w.Alive r e
  outcomes : ∀ r, (outcomes w.log r).length ≤ (outcomes w'.log r).length

omit [DecidableEq κ] in
theorem Advances.remaining {n r : ℕ} (h : Advances n w w') (hr : r ≤ n) :
    w'.remaining r ≤ w.remaining r := by
  rw [World.remaining, World.remaining]
  split
  · rename_i ha
    obtain ⟨e, ha⟩ := ha
    rw [if_pos ⟨e, h.alive r e hr ha⟩]
    have hlen := h.outcomes r
    omega
  · exact Nat.zero_le _

omit [DecidableEq κ] in
theorem Advances.work {n : ℕ} (h : Advances n w w') : w'.work n ≤ w.work n :=
  Finset.sum_le_sum fun _ hr => h.remaining (Finset.mem_Icc.mp hr).2

omit [DecidableEq κ] in
/-- One evaluation of a publication up to `n` that is alive is some of the work. -/
theorem Advances.work_lt {n p : ℕ} {e : Event α} {o : Outcome} (h : Advances n w w') (hp : 1 ≤ p)
    (hpn : p ≤ n) (ha : w.Alive p e) (hopen : Open (Soar.outcomes w.log p))
    (hlog : w'.log = w.log ++ [(p, o)]) : w'.work n < w.work n := by
  refine Finset.sum_lt_sum (fun r hr => h.remaining (Finset.mem_Icc.mp hr).2)
    ⟨p, Finset.mem_Icc.mpr ⟨hp, hpn⟩, ?_⟩
  obtain ⟨a, hle, hcourse⟩ := hopen
  have hlen : (Soar.outcomes w'.log p).length = a + 1 := by
    rw [hlog, outcomes_append, if_pos rfl, hcourse, List.length_append, List.length_replicate]
    rfl
  have hold : w.remaining p = 3 - a := by
    rw [World.remaining, if_pos ⟨e, ha⟩, hcourse, List.length_replicate]
  rw [hold, World.remaining, hlen]
  split <;> omega

omit [DecidableEq κ] in
/-- What is alive after a step was alive before, if the cursor has not gone back and nothing was read
    that no lane held. -/
theorem Alive.back {r : ℕ} {e : Event α} (ha : w'.Alive r e)
    (hcursor : w.reached ≤ w'.reached) (hheld : w'.Held r e → w.Held r e)
    (hpending : (r, e) ∈ w'.pending → w.Held r e ∨ (r, e) ∈ w.pending) : w.Alive r e :=
  ⟨hcursor.trans_lt ha.1, ha.2.elim (fun h => Or.inl (hheld h)) hpending⟩

theorem outcomes_le_append (log : List (ℕ × Outcome)) (l : ℕ × Outcome) (r : ℕ) :
    (Soar.outcomes log r).length ≤ (Soar.outcomes (log ++ [l]) r).length := by
  rw [outcomes_append]
  split
  · rw [List.length_append]
    omega
  · exact le_rfl

omit [DecidableEq κ] in
/-- What is left of a batch was in it. -/
theorem mem_rest {p r priority : ℕ} {e e' : Event α} {rest : List (ℕ × Event α)}
    (hphase : w.phase = .delivering ((p, e) :: rest) priority) (hr : (r, e') ∈ rest) :
    w.Held r e' ∨ (r, e') ∈ w.pending := by
  rw [World.pending, hphase]
  exact Or.inr (List.mem_cons_of_mem _ hr)

/-- A step forgets no evaluation and brings nothing to life; it returns from no call, or from one whose
    batch is empty, or from one whose first event has failed. -/
theorem Inv.advances (h : w.Inv key) {l : Label α} (hannounced : w.Announced l) (hs : w.Step key l w')
    {n : ℕ} (hn : n ≤ w.hist.length) :
    Advances n w w' ∧ n ≤ w'.hist.length ∧
      (w'.phase ≠ .idle → w'.fetchedAt = w.hist.length ∨ (w'.fetchedAt = w.fetchedAt ∧ w.phase ≠ .idle)) ∧
      (w'.calls = w.calls ∨ (w.phase ≠ .idle ∧ w.pending = []) ∨
        ∃ p e rest priority, w.phase = .delivering ((p, e) :: rest) priority ∧
          w'.log = w.log ++ [(p, .failed)] ∧ w'.calls = w.calls + 1) := by
  have hgrown : ∀ e : Event α, n ≤ (w.published e).hist.length := by
    intro e
    rw [World.published, List.length_append]
    exact hn.trans (Nat.le_add_right _ _)
  cases step_takes hs.2 with
  | publish e =>
    exact ⟨⟨fun r e hr ha => ha.back le_rfl (Inv.held_publish (hr.trans hn)) Or.inr, fun r => le_rfl⟩,
      hgrown e, fun hne => Or.inr ⟨rfl, hne⟩, Or.inl rfl⟩
  | fetch hphase =>
    have hreached : w.reached = w.soar.generalCursor := by rw [World.reached, hphase]
    exact ⟨⟨fun r e hr ha => ha.back hreached.le id fun hp => Or.inl (h.mem_fetched hp).2, fun r => le_rfl⟩,
      hn, fun _ => Or.inl rfl, Or.inl rfl⟩
  | @overflow events hphase =>
    have hpending : w.pending = events := by rw [World.pending, hphase]
    have hreached : w.reached = w.soar.generalCursor := by rw [World.reached, hphase]
    exact ⟨⟨fun r e hr ha => ha.back hreached.le id fun hp => Or.inr (hpending ▸ hp), fun r => le_rfl⟩,
      hn, fun _ => Or.inr ⟨rfl, hphase ▸ Phase.fetched_ne_idle⟩, Or.inl rfl⟩
  | @snapshot events hphase =>
    have hpending : w.pending = events := by rw [World.pending, hphase]
    have hreached : w.reached = w.soar.generalCursor := by rw [World.reached, hphase]
    exact ⟨⟨fun r e hr ha => ha.back hreached.le id fun hp => Or.inr (hpending ▸ hp), fun r => le_rfl⟩,
      hn, fun _ => Or.inr ⟨rfl, hphase ▸ Phase.fetched_ne_idle⟩, Or.inl rfl⟩
  | done hphase =>
    exact ⟨⟨fun r e hr ha => ha.back (h.alive_head hphase).1.le id (mem_rest hphase),
        fun r => outcomes_le_append _ _ r⟩,
      hn, fun _ => Or.inr ⟨rfl, hphase ▸ Phase.delivering_ne_idle⟩, Or.inl rfl⟩
  | @failed p e rest priority hphase hfew =>
    have hreached : w.reached = w.soar.generalCursor := by rw [World.reached, hphase]
    exact ⟨⟨fun r e hr ha => ha.back hreached.le id fun hp => absurd hp List.not_mem_nil,
        fun r => outcomes_le_append _ _ r⟩,
      hn, fun hne => absurd rfl hne, Or.inr (Or.inr ⟨p, e, rest, priority, hphase, rfl, rfl⟩)⟩
  | dead hphase hmany =>
    exact ⟨⟨fun r e hr ha => ha.back (h.alive_head hphase).1.le id (mem_rest hphase),
        fun r => outcomes_le_append _ _ r⟩,
      hn, fun _ => Or.inr ⟨rfl, hphase ▸ Phase.delivering_ne_idle⟩, Or.inl rfl⟩
  | @overflowAlert content events priority hphase =>
    have hpending : w.pending = events := by rw [World.pending, hphase]
    have hreached : w.reached = w.soar.generalCursor := by rw [World.reached, hphase]
    exact ⟨⟨fun r e hr ha => ha.back hreached.le (Inv.held_publish (hr.trans hn)) fun hp =>
        Or.inr (hpending ▸ hp), fun r => le_rfl⟩,
      hgrown _, fun _ => Or.inr ⟨rfl, hphase ▸ Phase.overflowed_ne_idle⟩, Or.inl rfl⟩
  | @deadAlert content p rest priority hphase =>
    have hpending : w.pending = rest := by rw [World.pending, hphase]
    have hreached : w.reached = p := by rw [World.reached, hphase]
    exact ⟨⟨fun r e hr ha => ha.back hreached.le (Inv.held_publish (hr.trans hn)) fun hp =>
        Or.inr (hpending ▸ hp), fun r => le_rfl⟩,
      hgrown _, fun _ => Or.inr ⟨rfl, hphase ▸ Phase.buried_ne_idle⟩, Or.inl rfl⟩
  | refuseOverflow hphase =>
    have hreached : w.reached = w.soar.generalCursor := by rw [World.reached, hphase]
    exact ⟨⟨fun r e hr ha => ha.back hreached.le id fun hp => absurd hp List.not_mem_nil, fun r => le_rfl⟩,
      hn, fun hne => absurd rfl hne, Or.inl rfl⟩
  | refuseDead hphase =>
    rw [World.Announced, World.burying, hphase] at hannounced
    cases hannounced
  | finish hphase =>
    have hreached : w.reached = w.soar.generalCursor := by rw [World.reached, hphase]
    have hpending : w.pending = [] := by rw [World.pending, hphase]
    exact ⟨⟨fun r e hr ha => ha.back hreached.le id fun hp => absurd hp List.not_mem_nil, fun r => le_rfl⟩,
      hn, fun hne => absurd rfl hne, Or.inr (Or.inl ⟨hphase ▸ Phase.delivering_ne_idle, hpending⟩)⟩

variable (key) in
/-- Since `s`, every call that has returned has done some of the work for the first `n` publications,
    while publication `n` is alive. -/
structure Works (s : World α κ) (n : ℕ) (w : World α κ) : Prop where
  inv : w.Inv key
  published : n ≤ w.hist.length
  read : w.phase ≠ .idle → n ≤ w.fetchedAt
  done : ∀ e, w.Alive n e → w.calls + w.work n ≤ s.calls + s.work n

theorem Works.step {s : World α κ} {n : ℕ} (h : Works key s n w) {l : Label α}
    (hannounced : w.Announced l) (hs : w.Step key l w') : Works key s n w' := by
  obtain ⟨hadv, hpublished, hread, hcalls⟩ := h.inv.advances hannounced hs h.published
  refine ⟨h.inv.step hannounced hs, hpublished, fun hne => ?_, fun e ha => ?_⟩
  · rcases hread hne with heq | ⟨heq, hbusy⟩
    · exact heq ▸ h.published
    · exact heq ▸ h.read hbusy
  · have hold := hadv.alive n e le_rfl ha
    have hdone := h.done e hold
    have hwork := hadv.work
    rcases hcalls with heq | ⟨hbusy, hnil⟩ | ⟨p, e', rest, priority, hphase, hlog, heq⟩
    · omega
    · -- the batch would have it
      have hin := h.inv.complete hbusy n e hold (h.read hbusy)
      rw [hnil] at hin
      exact absurd hin List.not_mem_nil
    · have hhead := h.inv.alive_head hphase
      have hless := hadv.work_lt (mem_numbered.mp (h.inv.alive_numbered hhead)).1
        (h.inv.head_le hphase hold) hhead (h.inv.still_open p hhead.1) hlog
      omega

end World

def high (content : ℕ) : Event ℕ := ⟨.high, content⟩

/-- The steps that can be taken one after the other. -/
def checked (w : World ℕ ℕ) (l : Label ℕ) : Option (World ℕ ℕ) :=
  if w.Announced l ∧ w.Distinct Event.content l then w.step Event.content l else none

end Angerona.Soar
