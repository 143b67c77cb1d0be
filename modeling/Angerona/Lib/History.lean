import Mathlib.Data.List.DropRight
import Mathlib.Data.List.Nodup
import Mathlib.Data.List.Sort

/-!
    Append-only histories and the bounded deques that keep their newest entries.

    `numbered` gives every entry its revision, counted from one. A deque of capacity `n` to which a
    history is pushed holds `history.rtake n`. -/

namespace History

variable {α : Type}

/-- `deque(maxlen=cap).append(x)`. -/
def push (cap : ℕ) (d : List α) (x : α) : List α :=
  if cap < (d ++ [x]).length then (d ++ [x]).tail else d ++ [x]

/-- The entries with their revisions, the first one after `k` being `k + 1`. -/
def numberedFrom (k : ℕ) (l : List α) : List (ℕ × α) := (l.zipIdx (k + 1)).map fun p => (p.2, p.1)

def numbered (l : List α) : List (ℕ × α) := numberedFrom 0 l

/-! ### Bounded deques -/

theorem length_rtake (l : List α) (n : ℕ) : (l.rtake n).length = min n l.length := by
  rw [List.rtake, List.length_drop]
  omega

/-- Pushing to the newest entries of a history gives the newest entries of the longer one. -/
theorem push_rtake (cap : ℕ) (l : List α) (x : α) :
    push cap (l.rtake cap) x = (l ++ [x]).rtake cap := by
  rw [push, List.length_append, length_rtake, List.length_singleton]
  rcases Nat.lt_or_ge l.length cap with h | h
  · have hl : l.rtake cap = l := by
      rw [List.rtake, Nat.sub_eq_zero_of_le h.le, List.drop_zero]
    have hlx : (l ++ [x]).rtake cap = l ++ [x] := by
      rw [List.rtake, List.length_append, List.length_singleton,
        Nat.sub_eq_zero_of_le h, List.drop_zero]
    rw [if_neg (by omega), hl, hlx]
  · rw [if_pos (by omega), ← List.drop_one, List.rtake, List.rtake, List.length_append,
      List.length_singleton]
    rw [← List.drop_append_of_le_length (by omega), List.drop_drop]
    congr 1
    omega

/-! ### Revisions -/

@[simp] theorem length_numberedFrom (k : ℕ) (l : List α) : (numberedFrom k l).length = l.length := by
  simp [numberedFrom]

@[simp] theorem length_numbered (l : List α) : (numbered l).length = l.length :=
  length_numberedFrom 0 l

theorem numberedFrom_append (k : ℕ) (l m : List α) :
    numberedFrom k (l ++ m) = numberedFrom k l ++ numberedFrom (k + l.length) m := by
  rw [numberedFrom, List.zipIdx_append, List.map_append, numberedFrom, numberedFrom,
    Nat.add_right_comm]

theorem numberedFrom_singleton (k : ℕ) (x : α) : numberedFrom k [x] = [(k + 1, x)] := rfl

theorem numbered_append (l m : List α) :
    numbered (l ++ m) = numbered l ++ numberedFrom l.length m := by
  rw [numbered, numberedFrom_append, Nat.zero_add, numbered]

theorem numbered_concat (l : List α) (x : α) :
    numbered (l ++ [x]) = numbered l ++ [(l.length + 1, x)] := by
  rw [numbered_append, numberedFrom_singleton]

theorem mem_numberedFrom {k : ℕ} {l : List α} {n : ℕ} {x : α} :
    (n, x) ∈ numberedFrom k l ↔ k < n ∧ l[n - (k + 1)]? = some x := by
  simp only [numberedFrom, List.mem_map, Prod.exists, Prod.mk.injEq, List.mk_mem_zipIdx_iff_le_and_getElem?_sub]
  constructor
  · rintro ⟨y, i, ⟨hle, hget⟩, rfl, rfl⟩
    exact ⟨hle, hget⟩
  · rintro ⟨hlt, hget⟩
    exact ⟨x, n, ⟨hlt, hget⟩, rfl, rfl⟩

/-- Entry `n` of the history is `x`. -/
theorem mem_numbered {l : List α} {n : ℕ} {x : α} :
    (n, x) ∈ numbered l ↔ 0 < n ∧ l[n - 1]? = some x := mem_numberedFrom

theorem mem_numbered_le {l : List α} {p : ℕ × α} (h : p ∈ numbered l) :
    0 < p.1 ∧ p.1 ≤ l.length := by
  obtain ⟨n, x⟩ := p
  obtain ⟨hpos, hget⟩ := mem_numbered.mp h
  obtain ⟨hlt, -⟩ := List.getElem?_eq_some_iff.mp hget
  exact ⟨hpos, by omega⟩

/-- A revision names one entry. -/
theorem numbered_unique {l : List α} {n : ℕ} {x y : α} (hx : (n, x) ∈ numbered l)
    (hy : (n, y) ∈ numbered l) : x = y :=
  Option.some.inj ((mem_numbered.mp hx).2.symm.trans (mem_numbered.mp hy).2)

theorem exists_mem_numbered {l : List α} {x : α} (h : x ∈ l) : ∃ n, (n, x) ∈ numbered l := by
  obtain ⟨i, hi, rfl⟩ := List.getElem_of_mem h
  exact ⟨i + 1, mem_numbered.mpr ⟨Nat.succ_pos i, by simp [hi]⟩⟩

theorem numberedFrom_increasing (k : ℕ) (l : List α) :
    (numberedFrom k l).Pairwise fun p q => p.1 < q.1 := by
  induction l generalizing k with
  | nil => exact .nil
  | cons x l ih =>
    have hcons : numberedFrom k (x :: l) = (k + 1, x) :: numberedFrom (k + 1) l := by
      simp [numberedFrom, List.zipIdx_cons]
    rw [hcons]
    refine List.pairwise_cons.mpr ⟨fun p hp => ?_, ih (k + 1)⟩
    obtain ⟨n, y⟩ := p
    exact (mem_numberedFrom.mp hp).1

theorem numbered_increasing (l : List α) : (numbered l).Pairwise fun p q => p.1 < q.1 :=
  numberedFrom_increasing 0 l

/-- The entries from position `k` on are those with a larger revision. -/
theorem mem_drop_numbered {l : List α} {k : ℕ} {p : ℕ × α} :
    p ∈ (numbered l).drop k ↔ p ∈ numbered l ∧ k < p.1 := by
  rcases Nat.lt_or_ge l.length k with hk | hk
  · rw [List.drop_eq_nil_of_le (by simpa using hk.le)]
    constructor
    · simp
    · rintro ⟨hp, hlt⟩
      have := (mem_numbered_le hp).2
      omega
  · have hsplit := numbered_append (l.take k) (l.drop k)
    rw [List.take_append_drop, List.length_take, Nat.min_eq_left hk] at hsplit
    have hdrop : (numbered l).drop k = numberedFrom k (l.drop k) := by
      rw [hsplit, List.drop_left' (by simp [hk])]
    obtain ⟨n, x⟩ := p
    rw [hdrop, mem_numberedFrom, mem_numbered, List.getElem?_drop]
    constructor
    · rintro ⟨hlt, hget⟩
      exact ⟨⟨by omega, by rw [← hget]; congr 1; omega⟩, hlt⟩
    · rintro ⟨⟨-, hget⟩, hlt⟩
      exact ⟨hlt, by rw [← hget]; congr 1; omega⟩

/-- The newest `k` entries are those with fewer than `k` entries after them. -/
theorem mem_rtake_numbered {l : List α} {k : ℕ} {p : ℕ × α} :
    p ∈ (numbered l).rtake k ↔ p ∈ numbered l ∧ l.length < p.1 + k := by
  rw [List.rtake, mem_drop_numbered, length_numbered]
  refine and_congr_right fun hp => ?_
  have := (mem_numbered_le hp)
  omega

/-- Counting back from the length along the reversed history gives the revisions. -/
theorem stamped_reverse (l : List α) :
    (l.reverse.zipIdx.map fun p => (l.length - p.2, p.1)) = (numbered l).reverse := by
  induction l using List.reverseRecOn with
  | nil => rfl
  | append_singleton l x ih =>
    rw [List.reverse_append, numbered_concat, List.reverse_append, List.reverse_singleton,
      List.reverse_singleton, List.singleton_append, List.singleton_append, List.zipIdx_cons,
      List.map_cons, List.length_append, List.length_singleton, ← ih, List.zipIdx_succ,
      List.map_map]
    simp [Function.comp_def]

end History
