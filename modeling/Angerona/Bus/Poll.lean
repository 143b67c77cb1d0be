import Angerona.Bus.Model

/-!
    A consumer that polls the priority lane.

    The consumer's cursor is the lane revision of its last poll, so the priority events published
    since are the lane's entries after the cursor. A poll returns the newest of them that the lane
    still holds. -/

namespace Angerona.Bus
open History

variable {α : Type}

/-! ### One poll -/

theorem priorityEvents_append (l m : List (Event α)) :
    priorityEvents (l ++ m) = priorityEvents l ++ priorityEvents m := List.filter_append ..

theorem priorityLane_records (hist : List (Event α)) :
    (priorityLane hist).map (·.2) = numbered (priorityEvents hist) := by
  induction hist using List.reverseRecOn with
  | nil => rfl
  | append_singleton hist event ih =>
    cases hp : event.isPriority with
    | true =>
      have hone : priorityEvents [event] = [event] := List.filter_cons_of_pos hp
      rw [priorityLane_concat_pos hist hp, List.map_append, ih, priorityEvents_append, hone,
        numbered_concat]
      rfl
    | false =>
      have hnone : priorityEvents [event] = [] := List.filter_cons_of_neg (by simp [hp])
      rw [priorityLane_concat_neg hist hp, ih, priorityEvents_append, hnone, List.append_nil]

/-- The newest `n` lane records, read backwards. -/
theorem Retains.lane_take {bus : EventBus α} {hist : List (Event α)} (h : Retains bus hist)
    (n : ℕ) : ((bus.priorityRing.reverse.take n).map (·.2)).reverse =
      (numbered (priorityEvents hist)).rtake (min n bus.prioritySize) := by
  rw [h.priorityRing, List.rtake_eq_reverse_take_reverse, List.reverse_reverse, List.take_take,
    ← priorityLane_records, List.rtake_eq_reverse_take_reverse, ← List.map_reverse,
    ← List.map_reverse, ← List.map_take, List.map_reverse]

/-- A poll from a possible cursor returns the lane's entries after the cursor, unless there are more
    than the lane holds: then the newest, with the overflow flag. -/
theorem Retains.poll {bus : EventBus α} {hist : List (Event α)} (h : Retains bus hist) {cursor : ℕ}
    (hc : cursor ≤ (priorityEvents hist).length) :
    (bus.priorityRecordsSince cursor).1 = (priorityEvents hist).length ∧
      (bus.priorityRecordsSince cursor).2.1.reverse = (numbered (priorityEvents hist)).drop
        (max cursor ((priorityEvents hist).length - bus.prioritySize)) ∧
      ((bus.priorityRecordsSince cursor).2.2 = true ↔
        cursor + bus.prioritySize < (priorityEvents hist).length) := by
  have hrev := h.priorityRevision
  have hlen : bus.priorityRing.length = min bus.prioritySize (priorityEvents hist).length := by
    rw [h.priorityRing, length_rtake, length_priorityLane]
  have hnum := length_numbered (priorityEvents hist)
  simp only [EventBus.priorityRecordsSince, hrev]
  by_cases heq : (cursor : ℤ) = (priorityEvents hist).length
  · rw [if_pos heq]
    refine ⟨rfl, ?_, ?_⟩
    · rw [List.reverse_nil, List.drop_eq_nil_of_le (by omega)]
    · simp only [Bool.false_eq_true, false_iff]
      omega
  · rw [if_neg heq, if_neg (by omega)]
    refine ⟨rfl, ?_, ?_⟩
    · rw [h.lane_take, List.rtake, hnum]
      congr 1
      omega
    · rw [decide_eq_true_eq]
      omega

/-! ### Runs of publications and polls -/

inductive Action (α : Type) where
  | publish (event : Event α)
  | poll

/-- The bus, the consumer's cursor, what its polls returned so far, oldest first, and whether one
    of them reported overflow. -/
structure Consumer (α : Type) where
  bus : EventBus α
  cursor : ℕ
  received : List (ℕ × Event α)
  overflowed : Bool

def Consumer.step (c : Consumer α) : Action α → Consumer α
  | .publish event => { c with bus := c.bus.deliver event }
  | .poll =>
    let (current, records, overflow) := c.bus.priorityRecordsSince c.cursor
    { c with
      cursor := current
      received := c.received ++ records.reverse
      overflowed := c.overflowed || overflow }

/-- A consumer that reads its first cursor with `priority_revision()`. -/
def Consumer.start (bus : EventBus α) : Consumer α := ⟨bus, bus.priorityRevision, [], false⟩

def Consumer.run (c : Consumer α) (actions : List (Action α)) : Consumer α :=
  actions.foldl Consumer.step c

/-- The events an action sequence publishes. -/
def published : List (Action α) → List (Event α)
  | [] => []
  | .publish event :: actions => event :: published actions
  | .poll :: actions => published actions

theorem published_append (as bs : List (Action α)) :
    published (as ++ bs) = published as ++ published bs := by
  induction as with
  | nil => rfl
  | cons a as ih =>
    cases a with
    | publish event => exact congrArg (event :: ·) ih
    | poll => exact ih

theorem Consumer.run_concat (c : Consumer α) (actions : List (Action α)) (a : Action α) :
    c.run (actions ++ [a]) = (c.run actions).step a := by
  rw [run, List.foldl_append]
  rfl

/-- The consumer's state against the history: `base` priority events came before its start. -/
structure Follows (base : ℕ) (c : Consumer α) (hist : List (Event α)) : Prop where
  retains : Retains c.bus hist
  base_le : base ≤ c.cursor
  cursor_le : c.cursor ≤ (priorityEvents hist).length
  received : c.received.Sublist (((numbered (priorityEvents hist)).take c.cursor).drop base)
  complete : c.overflowed = false →
    c.received = ((numbered (priorityEvents hist)).take c.cursor).drop base

theorem take_numbered_append (l m : List (Event α)) {k : ℕ} (h : k ≤ l.length) :
    (numbered (l ++ m)).take k = (numbered l).take k := by
  rw [numbered_append, List.take_append_of_le_length (by simpa using h)]

theorem Follows.publish {base : ℕ} {c : Consumer α} {hist : List (Event α)}
    (h : Follows base c hist) (event : Event α) :
    Follows base (c.step (.publish event)) (hist ++ [event]) := by
  have happ := priorityEvents_append hist [event]
  have htake : (numbered (priorityEvents (hist ++ [event]))).take c.cursor =
      (numbered (priorityEvents hist)).take c.cursor := by
    rw [happ, take_numbered_append _ _ h.cursor_le]
  refine ⟨h.retains.deliver event, h.base_le, ?_, ?_, fun ho => ?_⟩
  · rw [happ, List.length_append]
    exact h.cursor_le.trans (Nat.le_add_right _ _)
  · exact htake ▸ h.received
  · exact htake ▸ h.complete ho

/-- A poll appends entries after the cursor, and all of them unless it reports overflow. -/
theorem Follows.poll {base : ℕ} {c : Consumer α} {hist : List (Event α)} (h : Follows base c hist) :
    Follows base (c.step .poll) hist := by
  obtain ⟨hcur, hrec, hover⟩ := h.retains.poll h.cursor_le
  have hnum := length_numbered (priorityEvents hist)
  have hall : (numbered (priorityEvents hist)).take (priorityEvents hist).length =
      numbered (priorityEvents hist) := List.take_of_length_le hnum.le
  -- the entries up to the new cursor are those up to the old one and those after it
  have hsplit : (numbered (priorityEvents hist)).drop base =
      ((numbered (priorityEvents hist)).take c.cursor).drop base ++
        (numbered (priorityEvents hist)).drop c.cursor := by
    conv_lhs => rw [← List.take_append_drop c.cursor (numbered (priorityEvents hist))]
    rw [List.drop_append_of_le_length (by
      rw [List.length_take, hnum]
      exact Nat.le_min.mpr ⟨h.base_le, h.base_le.trans h.cursor_le⟩)]
  refine ⟨h.retains, ?_, ?_, ?_, fun ho => ?_⟩
  · exact (h.base_le.trans h.cursor_le).trans hcur.ge
  · exact hcur.le
  · simp only [Consumer.step, hcur, hall, hsplit, hrec]
    refine h.received.append ?_
    rw [← Nat.add_sub_cancel' (Nat.le_max_left c.cursor _), ← List.drop_drop]
    exact List.drop_sublist _ _
  · simp only [Consumer.step, Bool.or_eq_false_iff] at ho
    obtain ⟨ho, hno⟩ := ho
    have hmax : max c.cursor ((priorityEvents hist).length - c.bus.prioritySize) = c.cursor := by
      rw [← Bool.not_eq_true, hover] at hno
      omega
    simp only [Consumer.step, hcur, hall, hsplit, hrec, hmax, h.complete ho]

theorem Follows.run {base : ℕ} {c : Consumer α} {hist : List (Event α)} (h : Follows base c hist)
    (actions : List (Action α)) : Follows base (c.run actions) (hist ++ published actions) := by
  induction actions using List.reverseRecOn with
  | nil => simpa [Consumer.run, published] using h
  | append_singleton actions a ih =>
    rw [Consumer.run_concat, published_append, ← List.append_assoc]
    cases a with
    | publish event => exact ih.publish event
    | poll => simpa [published] using ih.poll

theorem follows_start {bus : EventBus α} {hist : List (Event α)} (h : Retains bus hist) :
    Follows (priorityEvents hist).length (Consumer.start bus) hist := by
  have hrev := h.priorityRevision
  have hnil : ((numbered (priorityEvents hist)).take bus.priorityRevision).drop
      (priorityEvents hist).length = [] := by
    rw [hrev]
    exact List.drop_eq_nil_of_le (by simp)
  exact ⟨h, hrev.ge, hrev.le, hnil ▸ List.Sublist.refl [], fun _ => hnil.symm⟩

/-- The priority events published after the last poll. -/
def sinceLastPoll (actions : List (Action α)) : List (Event α) :=
  priorityEvents (published (actions.reverse.takeWhile fun a => a matches .publish _).reverse)

/-- The priority events after a consumer's cursor are those published since its last poll. -/
theorem drop_cursor {base : ℕ} {c : Consumer α} {hist : List (Event α)} (h : Follows base c hist)
    (hcur : c.cursor = (priorityEvents hist).length) (actions : List (Action α)) :
    (numbered (priorityEvents (hist ++ published actions))).drop (c.run actions).cursor =
      numberedFrom (c.run actions).cursor (sinceLastPoll actions) := by
  have hkey : priorityEvents (hist ++ published actions) =
      (priorityEvents (hist ++ published actions)).take (c.run actions).cursor ++
        sinceLastPoll actions := by
    induction actions using List.reverseRecOn with
    | nil => simp [Consumer.run, published, sinceLastPoll, hcur, priorityEvents]
    | append_singleton actions a ih =>
      have hf := h.run actions
      rw [Consumer.run_concat, published_append, ← List.append_assoc]
      cases a with
      | publish event =>
        have happ := priorityEvents_append (hist ++ published actions) (published [.publish event])
        have hsince : sinceLastPoll (actions ++ [.publish event]) =
            sinceLastPoll actions ++ priorityEvents [event] := by
          simp [sinceLastPoll, published_append, priorityEvents, published]
        have hstep : ((c.run actions).step (.publish event)).cursor = (c.run actions).cursor := rfl
        rw [happ, hsince, hstep, List.take_append_of_le_length hf.cursor_le, ← List.append_assoc]
        exact congrArg (· ++ priorityEvents [event]) ih
      | poll =>
        have hstep : ((c.run actions).step .poll).cursor =
            (priorityEvents (hist ++ published actions)).length :=
          (hf.retains.poll hf.cursor_le).1
        have hsince : sinceLastPoll (actions ++ [.poll]) = [] := by
          simp [sinceLastPoll, priorityEvents, published]
        rw [hsince, hstep]
        simp [published]
  have hle := (h.run actions).cursor_le
  have hlen : ((priorityEvents (hist ++ published actions)).take (c.run actions).cursor).length =
      (c.run actions).cursor := by
    rw [List.length_take]
    omega
  rw [hkey, numbered_append, hlen]
  exact List.drop_left' (by rw [length_numbered, hlen])

/-- CORRECT: a consumer that polls the priority lane of a bus with any history receives the priority
    events published after its start in order and without repetition; all of them up to its last
    poll when no poll reported overflow; and a poll reports overflow exactly when one of the events
    published since the previous poll is missing from its batch. -/
theorem poll_follows (ringSize : ℕ) (priorityRingSize : Option ℤ) (hist : List (Event α))
    (actions : List (Action α)) :
    let bus := hist.foldl EventBus.deliver (EventBus.new ringSize priorityRingSize)
    let c := (Consumer.start bus).run actions
    let expected := numberedFrom bus.priorityRevision (priorityEvents (published actions))
    c.received.Sublist expected ∧
      c.received.Pairwise (fun p q => p.1 < q.1) ∧
      (c.overflowed = false → c.received ++ numberedFrom c.cursor (sinceLastPoll actions) =
        expected) ∧
      ((c.bus.priorityRecordsSince c.cursor).2.2 = true ↔
        ∃ entry ∈ numberedFrom c.cursor (sinceLastPoll actions),
          entry ∉ (c.bus.priorityRecordsSince c.cursor).2.1) := by
  intro bus c expected
  have hret := retains_publications ringSize priorityRingSize hist
  have hstart := follows_start hret
  have hf : Follows _ c (hist ++ published actions) := hstart.run actions
  have hdrop : (numbered (priorityEvents (hist ++ published actions))).drop c.cursor =
      numberedFrom c.cursor (sinceLastPoll actions) :=
    drop_cursor hstart hret.priorityRevision actions
  have hexp : expected = (numbered (priorityEvents (hist ++ published actions))).drop
      (priorityEvents hist).length := by
    rw [priorityEvents_append, numbered_append, List.drop_left' (length_numbered _)]
    exact congrArg (numberedFrom · _) hret.priorityRevision
  have hnum := length_numbered (priorityEvents (hist ++ published actions))
  have hsplit : expected =
      ((numbered (priorityEvents (hist ++ published actions))).take c.cursor).drop
        (priorityEvents hist).length ++ numberedFrom c.cursor (sinceLastPoll actions) := by
    rw [hexp, ← hdrop]
    conv_lhs =>
      rw [← List.take_append_drop c.cursor (numbered (priorityEvents (hist ++ published actions)))]
    rw [List.drop_append_of_le_length (by
      rw [List.length_take, hnum]
      exact Nat.le_min.mpr ⟨hf.base_le, hf.base_le.trans hf.cursor_le⟩)]
  have hsub : c.received.Sublist expected := by
    rw [hsplit]
    exact hf.received.trans (List.sublist_append_left _ _)
  refine ⟨hsub, (numberedFrom_increasing _ _).sublist hsub, fun ho => ?_, ?_⟩
  · rw [hsplit, ← hf.complete ho]
  · obtain ⟨-, hrec, hover⟩ := hf.retains.poll hf.cursor_le
    have hmem : ∀ entry, entry ∈ (c.bus.priorityRecordsSince c.cursor).2.1 ↔
        entry ∈ (numbered (priorityEvents (hist ++ published actions))).drop (max c.cursor
          ((priorityEvents (hist ++ published actions)).length - c.bus.prioritySize)) := by
      intro entry
      rw [← hrec, List.mem_reverse]
    rw [hover, ← hdrop]
    constructor
    · intro hlt
      -- the entry right after the cursor is no longer held
      have hpos : c.cursor < (priorityEvents (hist ++ published actions)).length := by omega
      obtain ⟨e, he⟩ : ∃ e, (c.cursor + 1, e) ∈
          numbered (priorityEvents (hist ++ published actions)) :=
        ⟨_, mem_numbered.mpr ⟨Nat.succ_pos _, List.getElem?_eq_getElem (by simpa using hpos)⟩⟩
      refine ⟨(c.cursor + 1, e), mem_drop_numbered.mpr ⟨he, Nat.lt_succ_self _⟩, ?_⟩
      rw [hmem, mem_drop_numbered]
      rintro ⟨-, hgt⟩
      simp only at hgt
      omega
    · rintro ⟨entry, hentry, hmiss⟩
      obtain ⟨hin, hgt⟩ := mem_drop_numbered.mp hentry
      rw [hmem, mem_drop_numbered] at hmiss
      have hle := (mem_numbered_le hin).2
      by_contra hno
      exact hmiss ⟨hin, by omega⟩

end Angerona.Bus
