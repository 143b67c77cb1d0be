import Mathlib

/-!
    A heap that keeps at most so many items, those that come first in an order.

    The heap is its sorted list, so its root is the last item. What was pushed is what is kept and what
    was left out; while nothing is taken out in between, everything that is kept comes before
    everything that was left out. -/

namespace BoundedHeap

variable {α : Type} (r : α → α → Prop) [DecidableRel r]

structure Heap (α : Type) where
  kept : List α
  omitted : Bool

/-- An item is pushed, or takes the place of the root if it comes before it. -/
def push (n : ℕ) (h : Heap α) (a : α) : Heap α :=
  if h.kept.length < n then { h with kept := h.kept.orderedInsert r a }
  else
    { kept :=
        match h.kept.getLast? with
        | some root => if r root a then h.kept else h.kept.dropLast.orderedInsert r a
        | none => h.kept
      omitted := true }

/-- The items are those that are kept and some others. -/
structure Split (n : ℕ) (h : Heap α) (items others : List α) : Prop where
  perm : items.Perm (h.kept ++ others)
  sorted : h.kept.Pairwise r
  length : h.kept.length ≤ n
  omitted : h.omitted = false → others = []

/-- What is kept comes before the others, of which there are some only if the heap is full. -/
structure First (n : ℕ) (h : Heap α) (others : List α) : Prop where
  before : ∀ a ∈ h.kept, ∀ b ∈ others, r a b
  full : others ≠ [] → h.kept.length = n

variable {r} {n : ℕ} {h : Heap α} {items others : List α}

omit [DecidableRel r] in
theorem split_nil : Split r n ⟨[], false⟩ [] [] :=
  ⟨List.Perm.refl _, List.Pairwise.nil, Nat.zero_le n, fun _ => rfl⟩

omit [DecidableRel r] in
theorem first_nil (h : Heap α) : First r n h [] :=
  ⟨fun _ _ _ hb => absurd hb List.not_mem_nil, fun hne => absurd rfl hne⟩

variable [Std.Total r] [IsTrans α r]

/-- A push keeps the item or leaves one out. -/
theorem Split.push (hs : Split r n h items others) (hn : 0 < n) (a : α) :
    ∃ others', Split r n (push r n h a) (a :: items) others' ∧
      (First r n h others → First r n (push r n h a) others') := by
  rw [BoundedHeap.push]
  split
  · rename_i hroom
    have hperm : (a :: items).Perm (h.kept.orderedInsert r a ++ others) :=
      (hs.perm.cons a).trans ((List.perm_orderedInsert r a h.kept).symm.append_right others)
    refine ⟨others, ⟨hperm, hs.sorted.orderedInsert a _, ?_, hs.omitted⟩, fun hf => ?_⟩
    · rw [List.orderedInsert_length]
      exact hroom
    · have hnone : others = [] := by
        by_contra hne
        exact absurd (hf.full hne) hroom.ne
      subst hnone
      exact first_nil _
  · rename_i hfull
    have hlength : h.kept.length = n := le_antisymm hs.length (not_lt.mp hfull)
    have hne : h.kept ≠ [] := List.ne_nil_of_length_pos (hlength ▸ hn)
    obtain ⟨start, root, hkept⟩ := (List.eq_nil_or_concat' h.kept).resolve_left hne
    have hsorted := hs.sorted
    rw [hkept, List.pairwise_append] at hsorted
    have hroot : ∀ k ∈ start, r k root := fun k hk => hsorted.2.2 k hk root (List.mem_singleton_self root)
    rw [hkept, List.getLast?_concat, List.dropLast_concat]
    dsimp only
    split
    · rename_i hafter
      have hperm : (a :: items).Perm ((start ++ [root]) ++ a :: others) := by
        refine (hs.perm.cons a).trans ?_
        rw [hkept]
        exact List.perm_middle.symm
      refine ⟨a :: others, ⟨hperm, hkept ▸ hs.sorted, by simpa [hkept] using hs.length,
        fun h => by cases h⟩, fun hf => ⟨fun k hk b hb => ?_, fun _ => by simpa [hkept] using hlength⟩⟩
      rcases List.mem_cons.mp hb with rfl | hb
      · rcases List.mem_append.mp hk with hk | hk
        · exact IsTrans.trans _ _ _ (hroot k hk) hafter
        · rwa [List.mem_singleton.mp hk]
      · exact hf.before k (hkept ▸ hk) b hb
    · rename_i hbefore
      have hfirst : r a root := (total_of r a root).resolve_right hbefore
      have hperm : (a :: items).Perm (start.orderedInsert r a ++ root :: others) := by
        refine (hs.perm.cons a).trans ?_
        rw [hkept, List.append_assoc, List.singleton_append]
        exact (List.perm_orderedInsert r a start).symm.append_right _
      have hcount : (start.orderedInsert r a).length = n := by
        rw [List.orderedInsert_length, ← hlength, hkept, List.length_append, List.length_singleton]
      refine ⟨root :: others, ⟨hperm, hsorted.1.orderedInsert a _, hcount.le, fun h => by cases h⟩,
        fun hf => ⟨fun k hk b hb => ?_, fun _ => hcount⟩⟩
      have hkroot : r k root := by
        rcases (List.mem_orderedInsert r).mp hk with rfl | hk
        · exact hfirst
        · exact hroot k hk
      rcases List.mem_cons.mp hb with rfl | hb
      · exact hkroot
      · exact IsTrans.trans _ _ _ hkroot (hf.before root (by simp [hkept]) b hb)

/-- Pushing several items. -/
theorem Split.foldl (hn : 0 < n) (more : List α) : ∀ {h : Heap α} {items others : List α},
    Split r n h items others →
      ∃ others', Split r n (more.foldl (BoundedHeap.push r n) h) (more.reverse ++ items) others' ∧
        (First r n h others → First r n (more.foldl (BoundedHeap.push r n) h) others') := by
  induction more with
  | nil => exact fun hs => ⟨_, hs, id⟩
  | cons a more ih =>
    intro h items others hs
    obtain ⟨others₁, hs₁, hf₁⟩ := hs.push hn a
    obtain ⟨others₂, hs₂, hf₂⟩ := ih hs₁
    refine ⟨others₂, ?_, fun hf => hf₂ (hf₁ hf)⟩
    rw [List.reverse_cons, List.append_assoc]
    exact hs₂

omit [Std.Total r] [IsTrans α r] in
/-- Nothing is left out while there is room for all. -/
theorem omitted_foldl (more : List α) : ∀ {h : Heap α}, h.omitted = false →
    h.kept.length + more.length ≤ n → (more.foldl (BoundedHeap.push r n) h).omitted = false := by
  induction more with
  | nil => exact fun h _ => h
  | cons a more ih =>
    intro h homitted hroom
    rw [List.length_cons] at hroom
    have hpush : BoundedHeap.push r n h a = { h with kept := h.kept.orderedInsert r a } := by
      rw [BoundedHeap.push, if_pos (by omega)]
    rw [List.foldl_cons, hpush]
    refine ih homitted ?_
    rw [List.orderedInsert_length]
    omega

omit [Std.Total r] [IsTrans α r] in
/-- Of items that come in order the heap keeps the first ones. -/
theorem foldl_of_sorted {l : List α} (hsorted : l.Pairwise fun a b => r a b ∧ ¬r b a) :
    l.foldl (BoundedHeap.push r n) ⟨[], false⟩ = ⟨l.take n, decide (n < l.length)⟩ := by
  induction l using List.reverseRecOn with
  | nil => simp
  | append_singleton l a ih =>
    obtain ⟨hl, -, hlast⟩ := List.pairwise_append.mp hsorted
    have hafter : ∀ b ∈ l, r b a ∧ ¬r a b := fun b hb => hlast b hb a (List.mem_singleton_self a)
    rw [List.foldl_concat, ih hl, BoundedHeap.push]
    dsimp only
    by_cases hroom : l.length < n
    · have hend : l.orderedInsert r a = l ++ [a] := by
        rw [List.orderedInsert_eq_take_drop,
          List.takeWhile_eq_self_iff.mpr fun b hb => by simpa using (hafter b hb).2,
          List.dropWhile_eq_nil_iff.mpr fun b hb => by simpa using (hafter b hb).2]
      have htake : (l ++ [a]).take n = l ++ [a] := List.take_of_length_le (by simp; omega)
      have homitted : decide (n < l.length) = decide (n < (l ++ [a]).length) := by
        rw [List.length_append, List.length_singleton, decide_eq_decide]
        omega
      rw [List.take_of_length_le hroom.le, if_pos hroom, hend, htake, homitted]
    · have hfull : n ≤ l.length := not_lt.mp hroom
      have htake : (l ++ [a]).take n = l.take n := List.take_append_of_le_length hfull
      rw [if_neg (by rw [List.length_take]; omega), htake]
      have hkept : (match (l.take n).getLast? with
          | some root => if r root a then l.take n else (l.take n).dropLast.orderedInsert r a
          | none => l.take n) = l.take n := by
        cases hroot : (l.take n).getLast? with
        | none => rfl
        | some root =>
          have hmem := List.mem_of_mem_take (List.mem_of_getLast? hroot)
          exact if_pos (hafter root hmem).1
      rw [hkept]
      simp [Nat.lt_succ_of_le hfull]

end BoundedHeap
