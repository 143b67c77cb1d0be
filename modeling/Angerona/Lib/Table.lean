import Mathlib.Algebra.Order.BigOperators.Group.List
import Mathlib.Algebra.Order.Ring.Nat
import Mathlib.Data.List.Nodup

/-!
    Tables as lists of rows in insertion order: conditional updates, deletes and their row counts,
    and what they keep — keys, membership and column totals. -/

namespace Table

variable {ρ κ : Type}

/-- `UPDATE … SET f WHERE p`. -/
def update (p : ρ → Bool) (f : ρ → ρ) (rows : List ρ) : List ρ :=
  rows.map fun r => if p r then f r else r

/-- `DELETE … WHERE p`. -/
def delete (p : ρ → Bool) (rows : List ρ) : List ρ := rows.filter fun r => !p r

/-- The number of rows a conditional statement touches. -/
def rowcount (p : ρ → Bool) (rows : List ρ) : ℕ := rows.countP p

/-- `SUM(w)`. -/
def total (w : ρ → ℕ) (rows : List ρ) : ℕ := (rows.map w).sum

variable {p : ρ → Bool} {f : ρ → ρ} {rows : List ρ}

theorem exists_of_rowcount (h : rowcount p rows = 1) : ∃ r ∈ rows, p r = true := by
  have : 0 < rows.countP p := by rw [rowcount] at h; omega
  exact List.countP_pos_iff.mp this

/-- One row of a table without duplicates is all a statement touches. -/
theorem rowcount_eq_one {r : ρ} (hn : rows.Nodup) (hr : r ∈ rows) (hp : p r = true)
    (huniq : ∀ s ∈ rows, p s = true → s = r) : rowcount p rows = 1 := by
  have hfilter : rows.filter p = [r] := by
    have hmem : ∀ s, s ∈ rows.filter p ↔ s ∈ [r] := by
      intro s
      rw [List.mem_filter, List.mem_singleton]
      exact ⟨fun ⟨hs, hps⟩ => huniq s hs hps, by rintro rfl; exact ⟨hr, hp⟩⟩
    exact List.perm_singleton.mp
      ((List.perm_ext_iff_of_nodup (hn.filter p) (List.nodup_singleton r)).mpr hmem)
  rw [rowcount, List.countP_eq_length_filter, hfilter, List.length_singleton]

theorem mem_update {r : ρ} : r ∈ update p f rows ↔ ∃ s ∈ rows, (if p s then f s else s) = r := by
  rw [update, List.mem_map]

theorem mem_delete {r : ρ} : r ∈ delete p rows ↔ r ∈ rows ∧ p r = false := by
  rw [delete, List.mem_filter, Bool.not_eq_true']

/-- An update that keeps the key of the rows it touches keeps the key column. -/
theorem keys_update {key : ρ → κ} (hk : ∀ r ∈ rows, p r = true → key (f r) = key r) :
    (update p f rows).map key = rows.map key := by
  rw [update, List.map_map]
  refine List.map_congr_left fun r hr => ?_
  by_cases hp : p r = true
  · simp [hp, hk r hr hp]
  · simp [hp]

/-- So does a change of one row that keeps its key. -/
theorem keys_modify {key : ρ → κ} (hk : ∀ r, key (f r) = key r) (k : ℕ) (rows : List ρ) :
    (rows.modify k f).map key = rows.map key := by
  induction rows generalizing k with
  | nil => rw [List.modify_nil]
  | cons r rows ih =>
    cases k with
    | zero => rw [List.modify_zero_cons, List.map_cons, List.map_cons, hk]
    | succ k => rw [List.modify_succ_cons, List.map_cons, List.map_cons, ih]

theorem keys_delete_nodup {key : ρ → κ} (hn : (rows.map key).Nodup) :
    ((delete p rows).map key).Nodup :=
  hn.sublist (List.filter_sublist.map key)

/-- Rows with one key are one row. -/
theorem eq_of_key {key : ρ → κ} (hn : (rows.map key).Nodup) {r s : ρ} (hr : r ∈ rows)
    (hs : s ∈ rows) (h : key r = key s) : r = s :=
  List.inj_on_of_nodup_map hn hr hs h

/-- A delete of rows that all satisfy `q` takes its row count off the count of `q`. -/
theorem rowcount_delete {q : ρ → Bool} (h : ∀ r ∈ rows, p r = true → q r = true) :
    rowcount q rows = rowcount q (delete p rows) + rowcount p rows := by
  induction rows with
  | nil => rfl
  | cons r rows ih =>
    have ih' := ih fun s hs => h s (List.mem_cons_of_mem r hs)
    have hr := h r List.mem_cons_self
    simp only [rowcount, delete, List.countP_cons, List.filter_cons] at ih' ⊢
    by_cases hp : p r = true
    · simp [hp, hr hp, ih', Nat.add_assoc]
    · by_cases hq : q r = true
      · simp [hp, hq, ih']
        omega
      · simp [hp, hq, ih']

/-- When only the row `r` satisfies `p`, the update replaces `r` and keeps the others. -/
theorem mem_update_of_unique {r s : ρ} (hp : p r = true)
    (huniq : ∀ t ∈ rows, p t = true → t = r) (hs : s ∈ update p f rows) :
    s = f r ∨ (s ∈ rows ∧ s ≠ r) := by
  obtain ⟨t, ht, rfl⟩ := mem_update.mp hs
  by_cases hpt : p t = true
  · obtain rfl := huniq t ht hpt
    exact Or.inl (if_pos hpt)
  · rw [if_neg hpt]
    exact Or.inr ⟨ht, fun he => hpt (he ▸ hp)⟩

theorem total_update_le {w : ρ → ℕ} (hw : ∀ r ∈ rows, p r = true → w (f r) ≤ w r) :
    total w (update p f rows) ≤ total w rows := by
  rw [total, total, update, List.map_map]
  refine List.sum_le_sum fun r hr => ?_
  by_cases hp : p r = true
  · simpa [hp] using hw r hr hp
  · simp [hp]

theorem total_delete_le (w : ρ → ℕ) : total w (delete p rows) ≤ total w rows :=
  (List.filter_sublist.map w).sum_le_sum fun _ _ => Nat.zero_le _

theorem total_append (w : ρ → ℕ) (rows rows' : List ρ) :
    total w (rows ++ rows') = total w rows + total w rows' := by
  rw [total, List.map_append, List.sum_append, total, total]

/-- The rows that satisfy `q`, counted. -/
theorem length_filter_eq_total (q : ρ → Bool) (rows : List ρ) :
    (rows.filter q).length = total (fun r => if q r then 1 else 0) rows := by
  induction rows with
  | nil => rfl
  | cons r rows ih =>
    simp only [total, List.map_cons, List.sum_cons] at ih ⊢
    by_cases hq : q r = true
    · simp [hq, ih, Nat.add_comm]
    · simp [hq, ih]

/-- A column summed over the rows that satisfy `q`. -/
theorem sum_filter_eq_total (q : ρ → Bool) (w : ρ → ℕ) (rows : List ρ) :
    ((rows.filter q).map w).sum = total (fun r => if q r then w r else 0) rows := by
  induction rows with
  | nil => rfl
  | cons r rows ih =>
    simp only [total, List.map_cons, List.sum_cons] at ih ⊢
    by_cases hq : q r = true
    · simp [hq, ih]
    · simp [hq, ih]

/-! ### New keys -/

section Fresh

variable [DecidableEq κ] (key : ρ → κ)

/-- The rows whose key is neither known nor that of an earlier row. -/
def fresh : List κ → List ρ → List ρ
  | _, [] => []
  | known, r :: rows =>
    if key r ∈ known then fresh known rows else r :: fresh (known ++ [key r]) rows

variable {key}

theorem fresh_cons_known {known : List κ} {r : ρ} (h : key r ∈ known) (rows : List ρ) :
    fresh key known (r :: rows) = fresh key known rows := by rw [fresh, if_pos h]

theorem fresh_cons_new {known : List κ} {r : ρ} (h : key r ∉ known) (rows : List ρ) :
    fresh key known (r :: rows) = r :: fresh key (known ++ [key r]) rows := by rw [fresh, if_neg h]

theorem mem_fresh {known : List κ} {rows : List ρ} {f : ρ} (h : f ∈ fresh key known rows) :
    f ∈ rows ∧ key f ∉ known := by
  induction rows generalizing known with
  | nil => cases h
  | cons r rows ih =>
    by_cases hr : key r ∈ known
    · rw [fresh_cons_known hr] at h
      exact ⟨List.mem_cons_of_mem _ (ih h).1, (ih h).2⟩
    · rw [fresh_cons_new hr] at h
      rcases List.mem_cons.mp h with rfl | h
      · exact ⟨List.mem_cons_self, hr⟩
      · exact ⟨List.mem_cons_of_mem _ (ih h).1, fun hf => (ih h).2 (List.mem_append_left _ hf)⟩

/-- Every key that is not known is that of a fresh row. -/
theorem exists_fresh {known : List κ} {rows : List ρ} {r : ρ} (hr : r ∈ rows)
    (hk : key r ∉ known) : ∃ f ∈ fresh key known rows, key f = key r := by
  induction rows generalizing known with
  | nil => cases hr
  | cons s rows ih =>
    by_cases hs : key s ∈ known
    · rw [fresh_cons_known hs]
      rcases List.mem_cons.mp hr with rfl | hr
      · exact absurd hs hk
      · exact ih hr hk
    · rw [fresh_cons_new hs]
      by_cases he : key s = key r
      · exact ⟨s, List.mem_cons_self, he⟩
      · have hr' : r ∈ rows := (List.mem_cons.mp hr).resolve_left fun h => he (h ▸ rfl)
        have hk' : key r ∉ known ++ [key s] := by
          rw [List.mem_append, List.mem_singleton, not_or]
          exact ⟨hk, fun h => he h.symm⟩
        obtain ⟨f, hf, hfr⟩ := ih hr' hk'
        exact ⟨f, List.mem_cons_of_mem _ hf, hfr⟩

/-- The fresh rows whose key is not in another list either. -/
theorem filter_fresh {a b c : List κ} (h : ∀ k, k ∈ b ↔ k ∈ a ∨ k ∈ c) (rows : List ρ) :
    (fresh key a rows).filter (fun r => key r ∉ c) = fresh key b rows := by
  induction rows generalizing a b with
  | nil => rfl
  | cons r rows ih =>
    by_cases ha : key r ∈ a
    · rw [fresh_cons_known ha, fresh_cons_known ((h _).mpr (.inl ha)), ih h]
    · by_cases hc : key r ∈ c
      · rw [fresh_cons_new ha, fresh_cons_known ((h _).mpr (.inr hc)),
          List.filter_cons_of_neg (by simpa using hc)]
        refine ih fun k => ?_
        rw [h, List.mem_append, List.mem_singleton]
        constructor
        · rintro (hk | hk)
          · exact .inl (.inl hk)
          · exact .inr hk
        · rintro ((hk | rfl) | hk)
          · exact .inl hk
          · exact .inr hc
          · exact .inr hk
      · have hb : key r ∉ b := fun hb => ((h _).mp hb).elim ha hc
        rw [fresh_cons_new ha, fresh_cons_new hb, List.filter_cons_of_pos (by simpa using hc)]
        refine congrArg (r :: ·) (ih fun k => ?_)
        rw [List.mem_append, List.mem_append, h, or_right_comm]

end Fresh

end Table
