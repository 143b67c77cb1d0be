import Angerona.Lib.Dict
import Mathlib

/-!
    Quotas that are granted to holders, and what the holders have used of them.

    A resource of some size is safe under a bound when the size and what all holders may still add
    are within it. A size that was seen earlier tells the size up to what the present holders have
    used. -/

namespace Dict

variable {κ α : Type} [DecidableEq κ] {d : Dict κ α} {k : κ} {v : α} {f g : κ → α → ℕ}

/-- What the items amount to together. -/
def total (f : κ → α → ℕ) (d : Dict κ α) : ℕ := (d.items.map fun i => f i.1 i.2).sum

theorem total_congr (h : ∀ k v, d.get? k = some v → f k v = g k v) : d.total f = d.total g := by
  rw [total, total]
  exact congrArg List.sum (List.map_congr_left fun i hi => h i.1 i.2 (mem_items.mp hi))

theorem total_set_fresh (h : d.get? k = none) : (d.set k v).total f = d.total f + f k v := by
  have hfresh : k ∉ d.items.map Prod.fst := by
    rw [mem_keys, h]
    exact Bool.false_ne_true
  have hitems : (d.set k v).items = d.items ++ [(k, v)] := put_fresh hfresh
  rw [total, hitems, List.map_append, List.sum_append, List.map_singleton, List.sum_singleton, total]

theorem erase_absent (h : d.get? k = none) : (d.erase k).items = d.items := by
  refine List.filter_eq_self.mpr fun i hi => decide_eq_true fun hk => ?_
  have hsome := mem_items.mp hi
  rw [hk, h] at hsome
  cases hsome

/-- An item that is taken out counts no more. -/
theorem total_erase (h : d.get? k = some v) : (d.erase k).total f + f k v = d.total f := by
  have hmem := mem_items.mpr h
  obtain ⟨items, hnodup⟩ := d
  rw [total, total, erase]
  dsimp only at hmem ⊢
  clear h
  induction items with
  | nil => cases hmem
  | cons i items ih =>
    rw [List.map_cons, List.nodup_cons] at hnodup
    rcases List.mem_cons.mp hmem with rfl | hmem
    · have hrest : items.filter (fun i => i.1 ≠ k) = items := by
        refine List.filter_eq_self.mpr fun i hi => decide_eq_true fun hk => ?_
        exact hnodup.1 (List.mem_map.mpr ⟨i, hi, hk⟩)
      rw [List.filter_cons_of_neg (by simp), hrest, List.map_cons, List.sum_cons, Nat.add_comm]
    · have hne : i.1 ≠ k := fun he => hnodup.1 (List.mem_map.mpr ⟨_, hmem, he.symm⟩)
      rw [List.filter_cons_of_pos (by simpa using hne), List.map_cons, List.map_cons, List.sum_cons,
        List.sum_cons, Nat.add_assoc, ih hnodup.2 hmem]

omit [DecidableEq κ] in
theorem total_add : d.total (fun k v => f k v + g k v) = d.total f + d.total g := by
  rw [total, total, total, List.sum_map_add]

end Dict

namespace Reservation

variable {κ : Type} [DecidableEq κ] {leases : Dict κ ℕ} {used : κ → ℕ} {k : κ} {q n : ℕ}

/-- No holder has used more than it was granted. -/
def Within (leases : Dict κ ℕ) (used : κ → ℕ) : Prop := ∀ k q, leases.get? k = some q → used k ≤ q

def granted (leases : Dict κ ℕ) : ℕ := leases.total fun _ q => q

/-- What the present holders may still use. -/
def remaining (leases : Dict κ ℕ) (used : κ → ℕ) : ℕ := leases.total fun k q => q - used k

/-- What the present holders have used. -/
def spent (leases : Dict κ ℕ) (used : κ → ℕ) : ℕ := leases.total fun k _ => used k

theorem remaining_add_spent (h : Within leases used) :
    remaining leases used + spent leases used = granted leases := by
  rw [remaining, spent, granted, ← Dict.total_add]
  exact Dict.total_congr fun k q hk => Nat.sub_add_cancel (h k q hk)

/-! ### A grant -/

theorem within_grant (h : Within leases used) (k : κ) (q : ℕ) :
    Within (leases.set k q) (Function.update used k 0) := by
  intro j r hj
  rw [Dict.get?_set] at hj
  by_cases hjk : j = k
  · rw [hjk, Function.update_self]
    exact Nat.zero_le r
  · rw [if_neg hjk] at hj
    rw [Function.update_of_ne hjk]
    exact h j r hj

theorem total_update (f : κ → ℕ → ℕ → ℕ) (hk : leases.get? k = none) (x : ℕ) :
    leases.total (fun j r => f j r (Function.update used k x j)) =
      leases.total fun j r => f j r (used j) := by
  refine Dict.total_congr fun j r hj => ?_
  have hjk : j ≠ k := by
    rintro rfl
    rw [hk] at hj
    cases hj
  rw [Function.update_of_ne hjk]

theorem granted_grant (hk : leases.get? k = none) (q : ℕ) :
    granted (leases.set k q) = granted leases + q := Dict.total_set_fresh hk

theorem remaining_grant (hk : leases.get? k = none) (q : ℕ) :
    remaining (leases.set k q) (Function.update used k 0) = remaining leases used + q := by
  rw [remaining, Dict.total_set_fresh hk, total_update (fun _ r u => r - u) hk,
    Function.update_self]
  rfl

theorem spent_grant (hk : leases.get? k = none) (q : ℕ) :
    spent (leases.set k q) (Function.update used k 0) = spent leases used := by
  rw [spent, Dict.total_set_fresh hk, total_update (fun _ _ u => u) hk, Function.update_self]
  rfl

/-! ### A use -/

theorem within_use (h : Within leases used) (hk : leases.get? k = some q) (hn : used k + n ≤ q) :
    Within leases (Function.update used k (used k + n)) := by
  intro j r hj
  by_cases hjk : j = k
  · rw [hjk, hk] at hj
    rw [hjk, Function.update_self, ← Option.some.inj hj]
    exact hn
  · rw [Function.update_of_ne hjk]
    exact h j r hj

theorem spent_use (hk : leases.get? k = some q) :
    spent leases (Function.update used k (used k + n)) = spent leases used + n := by
  have habsent : (leases.erase k).get? k = none := by rw [Dict.get?_erase, if_pos rfl]
  rw [spent, spent, ← Dict.total_erase hk, ← Dict.total_erase hk,
    total_update (fun _ _ u => u) habsent, Function.update_self, Nat.add_assoc]

theorem remaining_use (h : Within leases used) (hk : leases.get? k = some q) (hn : used k + n ≤ q) :
    remaining leases (Function.update used k (used k + n)) + n = remaining leases used := by
  have hbefore := remaining_add_spent h
  have hafter := remaining_add_spent (within_use h hk hn)
  rw [spent_use hk] at hafter
  omega

/-! ### A release -/

theorem within_release (h : Within leases used) (k : κ) : Within (leases.erase k) used := by
  intro j r hj
  rw [Dict.get?_erase] at hj
  split at hj
  · cases hj
  · exact h j r hj

theorem granted_release (k : κ) :
    granted (leases.erase k) + (leases.get? k).getD 0 = granted leases := by
  cases hk : leases.get? k with
  | none =>
    rw [granted, Dict.total, Dict.erase_absent hk, Option.getD_none]
    rfl
  | some q => exact Dict.total_erase hk

theorem remaining_release (k : κ) : remaining (leases.erase k) used ≤ remaining leases used := by
  cases hk : leases.get? k with
  | none => rw [remaining, Dict.total, Dict.erase_absent hk, remaining, Dict.total]
  | some q =>
    rw [remaining, remaining, ← Dict.total_erase hk]
    exact Nat.le_add_right _ _

/-- A holder that has used nothing leaves nothing behind. -/
theorem spent_release (h : ∀ q, leases.get? k = some q → used k = 0) :
    spent (leases.erase k) used = spent leases used := by
  cases hk : leases.get? k with
  | none => rw [spent, Dict.total, Dict.erase_absent hk, spent, Dict.total]
  | some q => rw [spent, spent, ← Dict.total_erase hk, h q hk, Nat.add_zero]

end Reservation
