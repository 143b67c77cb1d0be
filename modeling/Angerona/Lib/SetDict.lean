import Mathlib
import Angerona.Lib.Dict

/-!
    Dictionaries of sets, where an empty set has no entry, and dictionaries in the order in which
    their items were last touched.

    The sets are lists without repetitions; their order is not looked at. -/

namespace Dict

variable {κ α : Type} [DecidableEq κ]

/-! ### Sets under keys -/

section Sets

variable [DecidableEq α]

/-- `d.get(k, ())`. -/
def members (d : Dict κ (List α)) (k : κ) : List α := (d.get? k).getD []

/-- `d.setdefault(k, set()).add(a)`. -/
def addMember (d : Dict κ (List α)) (k : κ) (a : α) : Dict κ (List α) :=
  d.set k (if (d.members k).contains a then d.members k else d.members k ++ [a])

/-- The set of the key without the member, and no entry when nothing is left. -/
def discard (d : Dict κ (List α)) (k : κ) (a : α) : Dict κ (List α) :=
  match (d.members k).filter (· ≠ a) with
  | [] => d.erase k
  | rest => d.set k rest

variable {d : Dict κ (List α)} {k j : κ} {a x : α}

theorem members_addMember : (d.addMember k a).members j =
    if j = k then if (d.members k).contains a then d.members k else d.members k ++ [a]
    else d.members j := by
  rw [members, addMember, get?_set]
  split
  · rfl
  · rfl

theorem members_discard :
    (d.discard k a).members j = if j = k then (d.members k).filter (· ≠ a) else d.members j := by
  rw [discard]
  split
  · rename_i hnone
    rw [members, get?_erase]
    split
    · rw [hnone]
      rfl
    · rfl
  · rw [members, get?_set]
    split
    · rfl
    · rfl

@[simp] theorem mem_addMember :
    x ∈ (d.addMember k a).members j ↔ x ∈ d.members j ∨ j = k ∧ x = a := by
  rw [members_addMember]
  by_cases hj : j = k
  · subst hj
    by_cases ha : a ∈ d.members j
    · simp only [if_true, List.contains_iff_mem, ha, true_and]
      constructor
      · exact Or.inl
      · rintro (h | rfl)
        · exact h
        · exact ha
    · simp [ha]
  · simp [hj]

@[simp] theorem mem_discard : x ∈ (d.discard k a).members j ↔ x ∈ d.members j ∧ ¬(j = k ∧ x = a) := by
  rw [members_discard]
  by_cases hj : j = k
  · subst hj
    simp
  · simp [hj]

theorem nodup_addMember (h : ∀ j, (d.members j).Nodup) (j : κ) :
    ((d.addMember k a).members j).Nodup := by
  rw [members_addMember]
  split
  · split
    · exact h k
    · rename_i hnew
      refine List.nodup_append.mpr ⟨h k, List.nodup_singleton a, ?_⟩
      rintro x hx y hy rfl
      rw [List.mem_singleton.mp hy] at hx
      exact hnew (by simpa using hx)
  · exact h j

theorem nodup_discard (h : ∀ j, (d.members j).Nodup) (j : κ) : ((d.discard k a).members j).Nodup := by
  rw [members_discard]
  split
  · exact (h k).filter _
  · exact h j

end Sets

/-! ### The order of the last touch -/

/-- `d.move_to_end(k)`. -/
def moveToEnd (d : Dict κ α) (k : κ) : Dict κ α :=
  ⟨(d.items.filter fun i => i.1 ≠ k) ++ d.items.filter fun i => i.1 = k, by
    have hperm : ((d.items.filter fun i => i.1 ≠ k) ++ d.items.filter fun i => i.1 = k).Perm
        d.items := by
      have h := List.filter_append_perm (fun i : κ × α => decide (i.1 ≠ k)) d.items
      simpa using h
    exact (hperm.map Prod.fst).nodup_iff.mpr d.nodup⟩

theorem mem_moveToEnd {d : Dict κ α} {k : κ} {i : κ × α} : i ∈ (d.moveToEnd k).items ↔ i ∈ d.items := by
  rw [moveToEnd, List.mem_append, List.mem_filter, List.mem_filter]
  by_cases hk : i.1 = k
  · simp [hk]
  · simp [hk]

@[simp] theorem get?_moveToEnd (d : Dict κ α) (k j : κ) : (d.moveToEnd k).get? j = d.get? j := by
  refine Option.ext fun v => ?_
  rw [← mem_items, ← mem_items, mem_moveToEnd]

end Dict
