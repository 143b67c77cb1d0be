import Mathlib.Data.List.Nodup
import Mathlib.Data.List.Sort

/-!
    The rows with the smallest keys: `sorted(rows, key=key)[:n]`.

    The sort is stable, so of rows with one key the first ones are kept. Which rows are kept does not
    depend on their order when a row that is kept and one that is not have the same key only if they
    are equal. -/

namespace Selection

variable {α κ : Type} [LinearOrder κ] (key : α → κ)

/-- `sorted(rows, key=key)`. -/
def sortBy (rows : List α) : List α := rows.insertionSort fun a b => key a ≤ key b

/-- `heapq.nsmallest(n, rows, key=key)`. -/
def smallest (n : ℕ) (rows : List α) : List α := (sortBy key rows).take n

/-- The rows that `smallest` leaves. -/
def others (n : ℕ) (rows : List α) : List α := (sortBy key rows).drop n

/-- Rows with one key are kept or left together, or are equal. -/
def CutsClean (n : ℕ) (rows : List α) : Prop :=
  ∀ a ∈ smallest key n rows, ∀ b ∈ others key n rows, key a = key b → a = b

theorem perm_sortBy (rows : List α) : (sortBy key rows).Perm rows := List.perm_insertionSort _ _

theorem pairwise_sortBy (rows : List α) :
    (sortBy key rows).Pairwise fun a b => key a ≤ key b := by
  have htotal : Std.Total fun a b : α => key a ≤ key b := ⟨fun a b => le_total _ _⟩
  have htrans : IsTrans α fun a b => key a ≤ key b := ⟨fun _ _ _ => le_trans⟩
  exact List.pairwise_insertionSort _ _

variable {key} in
theorem sortBy_of_pairwise {rows : List α} (h : rows.Pairwise fun a b => key a ≤ key b) : sortBy key rows = rows :=
  h.insertionSort_eq

theorem smallest_append_others (n : ℕ) (rows : List α) :
    smallest key n rows ++ others key n rows = sortBy key rows := List.take_append_drop _ _

theorem pairwise_smallest (n : ℕ) (rows : List α) :
    (smallest key n rows).Pairwise fun a b => key a ≤ key b :=
  (pairwise_sortBy key rows).sublist (List.take_sublist _ _)

theorem smallest_le (n : ℕ) (rows : List α) :
    ∀ a ∈ smallest key n rows, ∀ b ∈ others key n rows, key a ≤ key b := by
  have h := pairwise_sortBy key rows
  rw [← smallest_append_others key n] at h
  exact (List.pairwise_append.mp h).2.2

theorem length_smallest (n : ℕ) (rows : List α) :
    (smallest key n rows).length = min n rows.length := by
  rw [smallest, List.length_take, (perm_sortBy key rows).length_eq]

variable {key} {n : ℕ} {rows rows' : List α}

theorem mem_of_mem_smallest {a : α} (h : a ∈ smallest key n rows) : a ∈ rows :=
  (perm_sortBy key rows).mem_iff.mp (List.mem_of_mem_take h)

/-- Sorting gives the keys in one order only. -/
theorem keys_sortBy (h : rows.Perm rows') :
    (sortBy key rows).map key = (sortBy key rows').map key := by
  refine List.Perm.eq_of_pairwise (fun a b _ _ => le_antisymm) ?_ ?_ ?_
  · exact List.pairwise_map.mpr (pairwise_sortBy key rows)
  · exact List.pairwise_map.mpr (pairwise_sortBy key rows')
  · exact ((perm_sortBy key rows).trans (h.trans (perm_sortBy key rows').symm)).map key

variable (key n) in
theorem keys_smallest (h : rows.Perm rows') :
    (smallest key n rows).map key = (smallest key n rows').map key := by
  rw [smallest, smallest, List.map_take, List.map_take, keys_sortBy h]

variable (key n) in
theorem keys_others (h : rows.Perm rows') :
    (others key n rows).map key = (others key n rows').map key := by
  rw [others, others, List.map_drop, List.map_drop, keys_sortBy h]

/-- What is kept below a key that is left, of any order of the rows. -/
theorem filter_smallest {k : κ} (h : ∀ b ∈ others key n rows, k ≤ key b) :
    ((smallest key n rows).filter fun a => key a < k).Perm (rows.filter fun a => key a < k) := by
  have hnone : (others key n rows).filter (fun a => key a < k) = [] :=
    List.filter_eq_nil_iff.mpr fun b hb => by simpa using h b hb
  have hsplit := (perm_sortBy key rows).filter fun a => key a < k
  rw [← smallest_append_others key n, List.filter_append, hnone, List.append_nil] at hsplit
  exact hsplit

/-- The rows that are kept do not depend on the order of the rows. -/
theorem smallest_perm (h : rows.Perm rows') (hcut : CutsClean key n rows) :
    (smallest key n rows).Perm (smallest key n rows') := by
  rcases hothers : others key n rows with - | ⟨d, rest⟩
  · have hall := smallest_append_others key n rows
    have hothers' : others key n rows' = [] := by
      have hkeys := keys_others key n h
      rw [hothers] at hkeys
      exact List.map_eq_nil_iff.mp hkeys.symm
    have hall' := smallest_append_others key n rows'
    rw [hothers, List.append_nil] at hall
    rw [hothers', List.append_nil] at hall'
    rw [hall, hall']
    exact (perm_sortBy key rows).trans (h.trans (perm_sortBy key rows').symm)
  -- `d` is the first row that is left
  have hd : d ∈ others key n rows := hothers ▸ List.mem_cons_self
  have hleast : ∀ b ∈ others key n rows, key d ≤ key b := by
    have hsorted := (pairwise_sortBy key rows).sublist (List.drop_sublist n _)
    change (others key n rows).Pairwise _ at hsorted
    rw [hothers] at hsorted ⊢
    exact List.forall_mem_cons.mpr ⟨le_rfl, (List.pairwise_cons.mp hsorted).1⟩
  have hleast' : ∀ b ∈ others key n rows', key d ≤ key b := by
    intro b hb
    have hkey : key b ∈ (others key n rows).map key :=
      keys_others key n h ▸ List.mem_map.mpr ⟨b, hb, rfl⟩
    obtain ⟨c, hc, hcb⟩ := List.mem_map.mp hkey
    exact hcb ▸ hleast c hc
  -- below the key of `d` everything is kept
  have hbelow := (filter_smallest hleast).trans ((h.filter _).trans (filter_smallest hleast').symm)
  have hequal : ∀ a ∈ smallest key n rows, ¬key a < key d → a = d := fun a ha hlt =>
    hcut a ha d hd (le_antisymm (smallest_le key n rows a ha d hd) (not_lt.mp hlt))
  have hequal' : ∀ a ∈ smallest key n rows', ¬key a < key d → a = d := by
    intro a ha hlt
    have hkey : key a ∈ (smallest key n rows).map key :=
      keys_smallest key n h ▸ List.mem_map.mpr ⟨a, ha, rfl⟩
    obtain ⟨c, hc, hca⟩ := List.mem_map.mp hkey
    obtain rfl := hequal c hc (hca ▸ hlt)
    have hmem : a ∈ smallest key n rows ++ others key n rows := by
      rw [smallest_append_others]
      exact (perm_sortBy key rows).mem_iff.mpr (h.mem_iff.mpr (mem_of_mem_smallest ha))
    rcases List.mem_append.mp hmem with hkept | hleft
    · exact hequal a hkept hlt
    · exact (hcut c hc a hleft hca).symm
  have hrest : (smallest key n rows).filter (fun a => !decide (key a < key d)) =
      (smallest key n rows').filter (fun a => !decide (key a < key d)) := by
    have hcount : (smallest key n rows).countP (fun a => !decide (key a < key d)) =
        (smallest key n rows').countP (fun a => !decide (key a < key d)) := by
      have hkeys := congrArg (List.countP fun k => !decide (k < key d))
        (keys_smallest key n h)
      rw [List.countP_map, List.countP_map] at hkeys
      exact hkeys
    have hreplicate : ∀ {l : List α}, (∀ a ∈ l, ¬key a < key d → a = d) →
        l.filter (fun a => !decide (key a < key d)) =
          List.replicate (l.countP fun a => !decide (key a < key d)) d := by
      intro l hl
      refine List.eq_replicate_iff.mpr ⟨(List.countP_eq_length_filter ..).symm, fun a ha => ?_⟩
      obtain ⟨ha, hlt⟩ := List.mem_filter.mp ha
      exact hl a ha (by simpa using hlt)
    rw [hreplicate hequal, hreplicate hequal', hcount]
  have hsplit := List.filter_append_perm (fun a => decide (key a < key d)) (smallest key n rows)
  have hsplit' := List.filter_append_perm (fun a => decide (key a < key d)) (smallest key n rows')
  rw [hrest] at hsplit
  exact hsplit.symm.trans ((hbelow.append_right _).trans hsplit')

/-- Rows with different keys are kept in one order. -/
theorem smallest_eq (h : rows.Perm rows') (hcut : CutsClean key n rows)
    (hnodup : ((smallest key n rows).map key).Nodup) :
    smallest key n rows = smallest key n rows' := by
  refine List.Perm.eq_of_pairwise (fun a b ha hb hab hba => ?_) (pairwise_smallest key n rows)
    (pairwise_smallest key n rows') (smallest_perm h hcut)
  have hb' := (smallest_perm h hcut).mem_iff.mpr hb
  exact List.inj_on_of_nodup_map hnodup ha hb' (le_antisymm hab hba)

end Selection
