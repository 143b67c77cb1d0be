import Angerona.Bus.Model

/-!
    What `records_since` returns, for every history and every cursor.

    The general lane's revisions are reconstructed by counting back from the current one; they are
    the revisions of the history because the lane is its newest part. On overflow the priority
    lane's entries are merged in; both lanes number one history, so the merge never relabels. -/

namespace Angerona.Bus
open History

variable {α : Type}

/-! ### The priority lane -/

theorem mem_priorityLane {hist : List (Event α)} {g p : ℕ} {e : Event α} :
    (g, p, e) ∈ priorityLane hist ↔
      (p, (g, e)) ∈ numbered ((numbered hist).filter fun q => q.2.isPriority) := by
  simp only [priorityLane, List.mem_map, Prod.exists, Prod.mk.injEq]
  constructor
  · rintro ⟨p', g', e', h, rfl, rfl, rfl⟩
    exact h
  · intro h
    exact ⟨p, g, e, h, rfl, rfl, rfl⟩

/-- An entry of the lane has as many priority events after it as lane revisions. -/
theorem priorityLane_after (hist : List (Event α)) : ∀ entry ∈ priorityLane hist,
    entry.1 ≤ hist.length ∧
      (priorityEvents hist).length = entry.2.1 + (priorityEvents (hist.drop entry.1)).length := by
  induction hist using List.reverseRecOn with
  | nil => simp [priorityLane, numbered, numberedFrom]
  | append_singleton hist event ih =>
    have hold : ∀ entry ∈ priorityLane hist, entry.1 ≤ (hist ++ [event]).length ∧
        (priorityEvents (hist ++ [event])).length =
          entry.2.1 + (priorityEvents ((hist ++ [event]).drop entry.1)).length := by
      intro entry he
      obtain ⟨hle, hcount⟩ := ih entry he
      rw [List.drop_append_of_le_length hle]
      simp only [priorityEvents, List.filter_append, List.length_append] at hcount ⊢
      omega
    cases hp : event.isPriority with
    | false =>
      rw [priorityLane_concat_neg hist hp]
      exact hold
    | true =>
      rw [priorityLane_concat_pos hist hp]
      intro entry he
      rcases List.mem_append.mp he with he | he
      · exact hold entry he
      · rw [List.mem_singleton.mp he]
        refine ⟨by simp, ?_⟩
        rw [List.drop_of_length_le (by simp)]
        simp [priorityEvents, hp]

/-- The retained priority entries: the priority events with few priority events after them. -/
theorem Retains.mem_globalRecords {bus : EventBus α} {hist : List (Event α)}
    (h : Retains bus hist) {g : ℕ} {e : Event α} :
    (g, e) ∈ bus.globalRecords ↔ (g, e) ∈ numbered hist ∧ e.isPriority = true ∧
      (priorityEvents (hist.drop g)).length < bus.prioritySize := by
  have hlane : bus.priorityRing = ((numbered ((numbered hist).filter fun q => q.2.isPriority)).rtake
      bus.prioritySize).map fun p => (p.2.1, p.1, p.2.2) := by
    rw [h.priorityRing, priorityLane, List.rtake, List.rtake, List.length_map, List.map_drop]
  have hlen := length_priorityLane hist
  rw [priorityLane, List.length_map, length_numbered] at hlen
  simp only [EventBus.globalRecords, hlane, List.map_map, List.mem_map, Prod.exists,
    Function.comp_def, Prod.mk.injEq]
  constructor
  · rintro ⟨p, g', e', hmem, rfl, rfl⟩
    obtain ⟨hmem, hlt⟩ := mem_rtake_numbered.mp hmem
    obtain ⟨-, hafter⟩ := priorityLane_after hist _ (mem_priorityLane.mpr hmem)
    obtain ⟨hnum, hprio⟩ := List.mem_filter.mp (List.mem_of_getElem? (mem_numbered.mp hmem).2)
    rw [hlen] at hlt
    exact ⟨hnum, hprio, by simp only at hafter hlt; omega⟩
  · rintro ⟨hnum, hprio, hlt⟩
    have hfilter : (g, e) ∈ (numbered hist).filter fun q => q.2.isPriority :=
      List.mem_filter.mpr ⟨hnum, hprio⟩
    obtain ⟨p, hmem⟩ := exists_mem_numbered hfilter
    obtain ⟨-, hafter⟩ := priorityLane_after hist _ (mem_priorityLane.mpr hmem)
    refine ⟨p, g, e, mem_rtake_numbered.mpr ⟨hmem, ?_⟩, rfl, rfl⟩
    rw [hlen]
    simp only at hafter ⊢
    omega

/-! ### The general lane -/

/-- Counting back over the newest `n` events gives the newest `n` numbered entries. -/
theorem stamped_take (hist : List (Event α)) (n : ℕ) :
    EventBus.stamped hist.length (hist.reverse.take n) = ((numbered hist).rtake n).reverse := by
  rw [List.rtake_eq_reverse_take_reverse, List.reverse_reverse, ← stamped_reverse,
    EventBus.stamped, ← List.map_take]
  congr 1
  apply List.ext_getElem?
  intro i
  simp only [List.getElem?_zipIdx, List.getElem?_take]
  split <;> rfl

theorem Retains.stamped_ring {bus : EventBus α} {hist : List (Event α)} (h : Retains bus hist)
    (n : ℕ) : EventBus.stamped bus.revision (bus.ring.reverse.take n) =
      ((numbered hist).rtake (min n bus.ringSize)).reverse := by
  rw [h.ring, h.revision, List.rtake_eq_reverse_take_reverse, List.reverse_reverse,
    List.take_take, stamped_take]

theorem Retains.stamped_all {bus : EventBus α} {hist : List (Event α)} (h : Retains bus hist) :
    EventBus.stamped bus.revision bus.ring.reverse =
      ((numbered hist).rtake bus.ringSize).reverse := by
  rw [h.ring, h.revision, List.rtake_eq_reverse_take_reverse, List.reverse_reverse, stamped_take]

/-! ### The merge -/

section Merge

variable {hist : List (Event α)}

/-- Merging entries of one history keeps one entry a revision and loses none. -/
theorem foldl_setDefault : ∀ {entries events : List (ℕ × Event α)},
    (∀ p ∈ entries, p ∈ numbered hist) → (∀ p ∈ events, p ∈ numbered hist) →
      (events.map (·.1)).Nodup →
        ((entries.foldl EventBus.setDefault events).map (·.1)).Nodup ∧
          ∀ p, p ∈ entries.foldl EventBus.setDefault events ↔ p ∈ events ∨ p ∈ entries
  | [], events, _, _, hnd => ⟨hnd, by simp⟩
  | q :: entries, events, he, hd, hnd => by
    have hq := he q List.mem_cons_self
    rw [List.foldl_cons]
    have hmem : ∀ p, p ∈ EventBus.setDefault events q ↔ p ∈ events ∨ p = q := by
      intro p
      rw [EventBus.setDefault]
      split
      · rename_i hany
        obtain ⟨r, hr, hrq⟩ := List.any_eq_true.mp hany
        have hrq : r.1 = q.1 := by simpa using hrq
        have : r = q := Prod.ext hrq (numbered_unique (hd r hr) (by rw [hrq]; exact hq))
        exact ⟨Or.inl, by rintro (hp | rfl); exacts [hp, this ▸ hr]⟩
      · rw [List.mem_append, List.mem_singleton]
    have hnd' : ((EventBus.setDefault events q).map (·.1)).Nodup := by
      rw [EventBus.setDefault]
      split
      · exact hnd
      · rename_i hany
        rw [List.map_append]
        refine List.nodup_append.mpr ⟨hnd, by simp, fun a ha b hb => ?_⟩
        obtain ⟨r, hr, rfl⟩ := List.mem_map.mp ha
        rw [List.map_singleton, List.mem_singleton] at hb
        rintro rfl
        exact hany (List.any_eq_true.mpr ⟨r, hr, by simpa using hb⟩)
    obtain ⟨h1, h2⟩ := foldl_setDefault (fun p hp => he p (List.mem_cons_of_mem _ hp))
      (fun p hp => by
        rcases (hmem p).mp hp with hp | rfl
        · exact hd p hp
        · exact hq) hnd'
    refine ⟨h1, fun p => ?_⟩
    rw [h2, hmem, List.mem_cons, or_assoc]

theorem sortedReverse_decreasing {events : List (ℕ × Event α)} (hnd : (events.map (·.1)).Nodup) :
    (EventBus.sortedReverse events).Pairwise fun a b => b.1 < a.1 := by
  have : Std.Total (fun a b : ℕ × Event α => b.1 ≤ a.1) := ⟨fun a b => Nat.le_total b.1 a.1⟩
  have : IsTrans (ℕ × Event α) (fun a b => b.1 ≤ a.1) := ⟨fun _ _ _ h h' => Nat.le_trans h' h⟩
  have hsorted := List.pairwise_insertionSort (fun a b : ℕ × Event α => b.1 ≤ a.1) events
  have hperm := (List.perm_insertionSort (fun a b : ℕ × Event α => b.1 ≤ a.1) events).map (·.1)
  have hne := List.pairwise_map.mp (hperm.nodup_iff.mpr hnd)
  exact (hsorted.and hne).imp fun ⟨hle, hne⟩ => lt_of_le_of_ne hle (Ne.symm hne)

/-- The merged and sorted entries: strictly decreasing, and exactly those of either lane. -/
theorem merge_spec {general entries : List (ℕ × Event α)}
    (hg : general.Pairwise fun a b => b.1 < a.1) (hgm : ∀ p ∈ general, p ∈ numbered hist)
    (hem : ∀ p ∈ entries, p ∈ numbered hist) :
    (EventBus.sortedReverse (entries.foldl EventBus.setDefault general)).Pairwise
        (fun a b => b.1 < a.1) ∧
      ∀ p, p ∈ EventBus.sortedReverse (entries.foldl EventBus.setDefault general) ↔
        p ∈ general ∨ p ∈ entries := by
  obtain ⟨hnd, hmem⟩ := foldl_setDefault hem hgm
    (List.pairwise_map.mpr (hg.imp fun h => (Nat.ne_of_lt h).symm))
  refine ⟨sortedReverse_decreasing hnd, fun p => ?_⟩
  rw [EventBus.sortedReverse, List.mem_insertionSort, hmem]

end Merge

theorem rtake_reverse_decreasing (hist : List (Event α)) (n : ℕ) :
    ((numbered hist).rtake n).reverse.Pairwise fun a b => b.1 < a.1 := by
  rw [List.pairwise_reverse]
  exact (numbered_increasing hist).sublist (List.drop_sublist _ _)

/-! ### The specification -/

/-- The cursor the records are counted from: an impossible one counts as zero. -/
def effectiveCursor (hist : List (Event α)) (cursor : ℤ) : ℕ :=
  if 0 ≤ cursor ∧ cursor ≤ hist.length then cursor.toNat else 0

/-- Entry `rev` of the history is still held by one of the lanes. -/
def StillHeld (ringSize prioritySize : ℕ) (hist : List (Event α)) (rev : ℕ) (e : Event α) : Prop :=
  hist.length < rev + ringSize ∨
    (e.isPriority = true ∧ (priorityEvents (hist.drop rev)).length < prioritySize)

/-- The answer to a cursor over a history of publications. -/
structure Answers (ringSize prioritySize : ℕ) (hist : List (Event α)) (cursor : ℤ)
    (records : List (ℕ × Event α)) (overflow : Bool) : Prop where
  decreasing : records.Pairwise fun a b => b.1 < a.1
  published : ∀ rev e, (rev, e) ∈ records →
    hist[rev - 1]? = some e ∧ 0 < rev ∧ effectiveCursor hist cursor < rev
  held : ∀ rev e, hist[rev - 1]? = some e → effectiveCursor hist cursor < rev →
    StillHeld ringSize prioritySize hist rev e → (rev, e) ∈ records
  complete : overflow = false → ∀ rev e, hist[rev - 1]? = some e →
    effectiveCursor hist cursor < rev → (rev, e) ∈ records
  flagged : ¬(0 ≤ cursor ∧ cursor ≤ hist.length) → overflow = true

/-- Records that are exactly the held entries after the cursor answer it. -/
theorem answers_of_held {ringSize prioritySize : ℕ} {hist : List (Event α)} {cursor : ℤ}
    {records : List (ℕ × Event α)} (hdec : records.Pairwise fun a b => b.1 < a.1)
    (hmem : ∀ rev e, (rev, e) ∈ records ↔ (rev, e) ∈ numbered hist ∧
      effectiveCursor hist cursor < rev ∧ StillHeld ringSize prioritySize hist rev e) :
    Answers ringSize prioritySize hist cursor records true where
  decreasing := hdec
  published rev e h := by
    obtain ⟨hnum, hlt, -⟩ := (hmem rev e).mp h
    obtain ⟨hpos, hget⟩ := mem_numbered.mp hnum
    exact ⟨hget, hpos, hlt⟩
  held rev e hget hlt hheld :=
    (hmem rev e).mpr ⟨mem_numbered.mpr ⟨by omega, hget⟩, hlt, hheld⟩
  complete h := by simp at h
  flagged _ := rfl

/-- Records that are exactly the entries after a possible cursor answer it without overflow. -/
theorem answers_of_all {ringSize prioritySize : ℕ} {hist : List (Event α)} {cursor : ℤ}
    {records : List (ℕ × Event α)} (hc : 0 ≤ cursor ∧ cursor ≤ hist.length)
    (hdec : records.Pairwise fun a b => b.1 < a.1)
    (hmem : ∀ rev e, (rev, e) ∈ records ↔ (rev, e) ∈ numbered hist ∧
      effectiveCursor hist cursor < rev) :
    Answers ringSize prioritySize hist cursor records false where
  decreasing := hdec
  published rev e h := by
    obtain ⟨hnum, hlt⟩ := (hmem rev e).mp h
    obtain ⟨hpos, hget⟩ := mem_numbered.mp hnum
    exact ⟨hget, hpos, hlt⟩
  held rev e hget hlt _ := (hmem rev e).mpr ⟨mem_numbered.mpr ⟨by omega, hget⟩, hlt⟩
  complete _ rev e hget hlt := (hmem rev e).mpr ⟨mem_numbered.mpr ⟨by omega, hget⟩, hlt⟩
  flagged h := absurd hc h

/-- `records_since` answers every cursor on a bus that retains the history. -/
theorem Retains.recordsSince {bus : EventBus α} {hist : List (Event α)} (h : Retains bus hist)
    (cursor : ℤ) :
    Answers bus.ringSize bus.prioritySize hist cursor (bus.recordsSince cursor).2.1
      (bus.recordsSince cursor).2.2 := by
  have hrev := h.revision
  have hlen : bus.ring.length = min bus.ringSize hist.length := by rw [h.ring, length_rtake]
  simp only [EventBus.recordsSince, hrev]
  by_cases heq : cursor = hist.length
  · -- nothing was published after the cursor
    rw [if_pos heq]
    have hcur : effectiveCursor hist cursor = hist.length := by
      rw [effectiveCursor, if_pos (by omega), heq, Int.toNat_natCast]
    refine answers_of_all (by omega) .nil fun rev e => ⟨by simp, fun ⟨hnum, hlt⟩ => ?_⟩
    have := (mem_numbered_le hnum).2
    simp only at this
    omega
  rw [if_neg heq]
  by_cases hout : cursor < 0 ∨ (hist.length : ℤ) < cursor
  · rw [if_pos hout]
    have hcur : effectiveCursor hist cursor = 0 := if_neg (by omega)
    have hall := h.stamped_all
    rw [hrev] at hall
    rw [hall]
    obtain ⟨hdec, hmem⟩ := merge_spec (rtake_reverse_decreasing hist bus.ringSize)
      (fun p hp => (mem_rtake_numbered.mp (List.mem_reverse.mp hp)).1)
      (fun ⟨g, e⟩ hp => (h.mem_globalRecords.mp hp).1)
    refine answers_of_held hdec fun rev e => ?_
    rw [hmem, List.mem_reverse, mem_rtake_numbered, h.mem_globalRecords, hcur, StillHeld]
    constructor
    · rintro (⟨hnum, hlt⟩ | ⟨hnum, hprio, hlt⟩)
      · exact ⟨hnum, (mem_numbered_le hnum).1, Or.inl hlt⟩
      · exact ⟨hnum, (mem_numbered_le hnum).1, Or.inr ⟨hprio, hlt⟩⟩
    · rintro ⟨hnum, -, hlt | ⟨hprio, hlt⟩⟩
      · exact Or.inl ⟨hnum, hlt⟩
      · exact Or.inr ⟨hnum, hprio, hlt⟩
  rw [if_neg hout]
  have hcur : effectiveCursor hist cursor = cursor.toNat := if_pos (by omega)
  by_cases hover : bus.ring.length < (hist.length - cursor).toNat
  · rw [if_pos hover]
    have hall := h.stamped_all
    rw [hrev] at hall
    rw [hall]
    have hfilter : ∀ (l : List (ℕ × Event α)) (p : ℕ × Event α),
        p ∈ l.filter (fun entry => decide (cursor < entry.1)) ↔ p ∈ l ∧ cursor.toNat < p.1 := by
      intro l p
      rw [List.mem_filter, decide_eq_true_eq]
      refine and_congr_right fun _ => ?_
      omega
    obtain ⟨hdec, hmem⟩ := @merge_spec α hist _
      (bus.globalRecords.filter fun entry => cursor < entry.1)
      ((rtake_reverse_decreasing hist bus.ringSize).sublist List.filter_sublist)
      (fun p hp => (mem_rtake_numbered.mp (List.mem_reverse.mp (List.mem_filter.mp hp).1)).1)
      (fun p hp => (h.mem_globalRecords.mp (List.mem_filter.mp hp).1).1)
    refine answers_of_held hdec fun rev e => ?_
    rw [hmem, hfilter, hfilter, List.mem_reverse, mem_rtake_numbered, h.mem_globalRecords, hcur,
      StillHeld]
    constructor
    · rintro (⟨⟨hnum, hlt⟩, hc⟩ | ⟨⟨hnum, hprio, hlt⟩, hc⟩)
      · exact ⟨hnum, hc, Or.inl hlt⟩
      · exact ⟨hnum, hc, Or.inr ⟨hprio, hlt⟩⟩
    · rintro ⟨hnum, hc, hlt | ⟨hprio, hlt⟩⟩
      · exact Or.inl ⟨⟨hnum, hlt⟩, hc⟩
      · exact Or.inr ⟨⟨hnum, hprio, hlt⟩, hc⟩
  · -- the whole delta is retained, so the general lane alone answers
    rw [if_neg hover]
    have htake := h.stamped_ring (min (hist.length - cursor).toNat bus.ring.length)
    rw [hrev] at htake
    rw [htake]
    refine answers_of_all (by omega) (rtake_reverse_decreasing hist _) fun rev e => ?_
    rw [List.mem_reverse, mem_rtake_numbered, hcur]
    refine and_congr_right fun hnum => ?_
    have := (mem_numbered_le hnum).2
    simp only at this ⊢
    omega

/-- CORRECT: `records_since` answers every cursor, for every pair of ring sizes and every sequence
    of publications, and reports the number of publications as the current revision. -/
theorem recordsSince_answers (ringSize : ℕ) (priorityRingSize : Option ℤ) (hist : List (Event α))
    (cursor : ℤ) :
    let bus := hist.foldl EventBus.deliver (EventBus.new ringSize priorityRingSize)
    (bus.recordsSince cursor).1 = hist.length ∧
      Answers ringSize (EventBus.priorityCapacity ringSize priorityRingSize) hist cursor
        (bus.recordsSince cursor).2.1 (bus.recordsSince cursor).2.2 := by
  intro bus
  have hret := retains_publications ringSize priorityRingSize hist
  obtain ⟨h1, h2⟩ := deliverAll_sizes (EventBus.new ringSize priorityRingSize) hist
  refine ⟨?_, ?_⟩
  · rw [← hret.revision, EventBus.recordsSince]
    simp only [apply_ite Prod.fst, ite_self]
    rfl
  · have hans := hret.recordsSince cursor
    rw [h1, h2] at hans
    exact hans

end Angerona.Bus
