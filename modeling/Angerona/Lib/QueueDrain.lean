import Mathlib

/-!
    Draining several queues by the least of their fronts.

    What stands behind the front of its queue waits, however small it is. Elements that stand first
    in their queues and are smaller than all others come out first, and only they. -/

namespace QueueDrain

variable {α κ : Type} [LinearOrder κ] (key : α → κ)

/-- The least front and the queues without it; of equal fronts the first. -/
def pop : List (List α) → Option (α × List (List α))
  | [] => none
  | [] :: qs => (pop qs).map fun r => (r.1, [] :: r.2)
  | (a :: q) :: qs =>
    match pop qs with
    | none => some (a, q :: qs)
    | some (b, qs') => if key a ≤ key b then some (a, q :: qs) else some (b, (a :: q) :: qs')

/-- `n` pops; `none` when there are no more fronts. -/
def drain : ℕ → List (List α) → Option (List α)
  | 0, _ => some []
  | n + 1, qs =>
    match pop key qs with
    | none => none
    | some (a, qs) => (drain n qs).map (a :: ·)

variable {key} {qs qs' : List (List α)} {a : α}

/-- One pop takes the front of one queue. -/
inductive Popped : List (List α) → α → List (List α) → Prop where
  | here {q : List α} {qs : List (List α)} {a : α} : Popped ((a :: q) :: qs) a (q :: qs)
  | there {q : List α} {qs qs' : List (List α)} {a : α} : Popped qs a qs' →
      Popped (q :: qs) a (q :: qs')

theorem pop_popped (h : pop key qs = some (a, qs')) : Popped qs a qs' := by
  induction qs generalizing a qs' with
  | nil => cases h
  | cons q qs ih =>
    rcases q with - | ⟨c, q⟩
    · obtain ⟨⟨b, rest⟩, hrest, he⟩ := Option.map_eq_some_iff.mp h
      cases he
      exact .there (ih hrest)
    · rw [pop] at h
      split at h
      · cases h
        exact .here
      · rename_i b rest hrest
        split at h
        · cases h
          exact .here
        · cases h
          exact .there (ih hrest)

theorem pop_none : pop key qs = none ↔ qs.flatten = [] := by
  induction qs with
  | nil => exact ⟨fun _ => rfl, fun _ => rfl⟩
  | cons q qs ih =>
    rcases q with - | ⟨c, q⟩
    · rw [pop, Option.map_eq_none_iff, ih, List.flatten_cons, List.nil_append]
    · rw [pop, List.flatten_cons, List.cons_append]
      split
      · simp
      · split <;> simp

/-- What is popped is no greater than any front. -/
theorem pop_le (h : pop key qs = some (a, qs')) : ∀ q ∈ qs, ∀ b ∈ q.head?, key a ≤ key b := by
  induction qs generalizing a qs' with
  | nil => cases h
  | cons q qs ih =>
    intro q' hq' d hd
    rcases q with - | ⟨c, q⟩
    · obtain ⟨⟨b, rest⟩, hrest, he⟩ := Option.map_eq_some_iff.mp h
      cases he
      rcases List.mem_cons.mp hq' with rfl | hq'
      · cases hd
      · exact ih hrest q' hq' d hd
    · rw [pop] at h
      split at h
      -- no other queue has a front
      · rename_i hrest
        cases h
        rcases List.mem_cons.mp hq' with rfl | hq'
        · exact (Option.some.inj hd ▸ le_rfl)
        · have hd' : d ∈ qs.flatten := List.mem_flatten.mpr ⟨q', hq', List.mem_of_mem_head? hd⟩
          rw [pop_none.mp hrest] at hd'
          cases hd'
      · rename_i b rest hrest
        split at h
        · rename_i hle
          cases h
          rcases List.mem_cons.mp hq' with rfl | hq'
          · exact (Option.some.inj hd ▸ le_rfl)
          · exact le_trans hle (ih hrest q' hq' d hd)
        · rename_i hlt
          cases h
          rcases List.mem_cons.mp hq' with rfl | hq'
          · obtain rfl := Option.some.inj hd
            exact le_of_lt (not_le.mp hlt)
          · exact ih hrest q' hq' d hd

theorem Popped.perm (h : Popped qs a qs') : qs.flatten.Perm (a :: qs'.flatten) := by
  induction h with
  | here => exact .refl _
  | there h ih =>
    rw [List.flatten_cons, List.flatten_cons]
    exact (ih.append_left _).trans List.perm_middle

/-- What holds between the elements of each queue still does. -/
theorem Popped.pairwise {R : α → α → Prop} (h : Popped qs a qs')
    (hR : ∀ q ∈ qs, q.Pairwise R) : ∀ q ∈ qs', q.Pairwise R := by
  induction h with
  | here =>
    rintro q' hq'
    rcases List.mem_cons.mp hq' with rfl | hq'
    · exact (List.pairwise_cons.mp (hR _ List.mem_cons_self)).2
    · exact hR q' (List.mem_cons_of_mem _ hq')
  | there h ih =>
    rintro q' hq'
    rcases List.mem_cons.mp hq' with rfl | hq'
    · exact hR _ List.mem_cons_self
    · exact ih (fun q hq => hR q (List.mem_cons_of_mem _ hq)) q' hq'

/-- Elements that stand first in their queues and are smaller than the others come out first. -/
theorem drain_perm (p : α → Bool) (hfirst : ∀ q ∈ qs, q.Pairwise fun a b => p b = true → p a = true)
    (hless : ∀ a ∈ qs.flatten, ∀ b ∈ qs.flatten, p a = true → p b = false → key a < key b) :
    ∃ out, drain key (qs.flatten.countP p) qs = some out ∧ out.Perm (qs.flatten.filter p) := by
  generalize hn : qs.flatten.countP p = n
  induction n generalizing qs with
  | zero =>
    refine ⟨[], rfl, ?_⟩
    rw [List.countP_eq_length_filter, List.length_eq_zero_iff] at hn
    rw [hn]
  | succ n ih =>
    -- some queue has an element of `p`, and so its front is one
    have hpos : 0 < qs.flatten.countP p := by rw [hn]; exact Nat.succ_pos n
    obtain ⟨b, hb, hpb⟩ := List.countP_pos_iff.mp hpos
    obtain ⟨q, hq, hbq⟩ := List.mem_flatten.mp hb
    obtain ⟨c, q', rfl⟩ := List.exists_cons_of_ne_nil (List.ne_nil_of_mem hbq)
    have hpc : p c = true := by
      rcases List.mem_cons.mp hbq with rfl | hbq'
      · exact hpb
      · exact (List.pairwise_cons.mp (hfirst _ hq)).1 b hbq' hpb
    have hc : c ∈ qs.flatten := List.mem_flatten.mpr ⟨_, hq, List.mem_cons_self⟩
    rcases hpop : pop key qs with - | ⟨a, qs'⟩
    · rw [pop_none.mp hpop] at hb
      cases hb
    have hperm := (pop_popped hpop).perm
    have ha : a ∈ qs.flatten := hperm.mem_iff.mpr List.mem_cons_self
    have hpa : p a = true := by
      by_contra hpa
      rw [Bool.not_eq_true] at hpa
      exact absurd (hless c hc a ha hpc hpa) (not_lt.mpr (pop_le hpop _ hq c rfl))
    have hmem : ∀ d ∈ qs'.flatten, d ∈ qs.flatten := fun d hd =>
      hperm.mem_iff.mpr (List.mem_cons_of_mem _ hd)
    have hcount : qs'.flatten.countP p = n := by
      rw [hperm.countP_eq, List.countP_cons_of_pos hpa] at hn
      exact Nat.succ.inj hn
    obtain ⟨out, hout, hfilter⟩ := ih ((pop_popped hpop).pairwise hfirst)
      (fun d hd e he => hless d (hmem d hd) e (hmem e he)) hcount
    refine ⟨a :: out, by rw [drain, hpop]; simp [hout], ?_⟩
    have hall := hperm.filter p
    rw [List.filter_cons_of_pos hpa] at hall
    exact (hfilter.cons a).trans hall.symm

end QueueDrain
