import Mathlib.Data.List.Induction

/-!
    Hash chains: rows that each carry the hash of the row before.

    What makes one row right is `valid`; `prev` and `next` are the hash it continues and the hash it
    leaves. A chain is checked from its first row and grown at its end, and `linked_snoc` is where
    the two meet. -/

namespace HashChain

variable {ρ η : Type} (valid : ρ → Prop) (prev next : ρ → η)

/-- The rows continue `p`, each the one before it, and leave `q`. -/
def Linked : η → List ρ → η → Prop
  | p, [], q => p = q
  | p, r :: rows, q => prev r = p ∧ valid r ∧ Linked (next r) rows q

/-- The hash that checked rows leave; `none` at the first row that is wrong. -/
def walk [DecidableEq η] [DecidablePred valid] : η → List ρ → Option η
  | p, [] => some p
  | p, r :: rows => if prev r = p ∧ valid r then walk (next r) rows else none

/-- The hash the rows leave. -/
def tip (genesis : η) (rows : List ρ) : η := (rows.getLast?.map next).getD genesis

variable {valid prev next}

theorem walk_eq_some [DecidableEq η] [DecidablePred valid] {p q : η} {rows : List ρ} :
    walk valid prev next p rows = some q ↔ Linked valid prev next p rows q := by
  induction rows generalizing p with
  | nil => exact Option.some_inj
  | cons r rows ih =>
    rw [walk, Linked]
    split
    · rename_i h
      rw [ih]
      exact ⟨fun hl => ⟨h.1, h.2, hl⟩, fun hl => hl.2.2⟩
    · rename_i h
      exact ⟨fun hn => absurd hn (by simp), fun hl => absurd ⟨hl.1, hl.2.1⟩ h⟩

/-- A row that continues the last one makes the chain one longer. -/
theorem linked_snoc {p q : η} {rows : List ρ} {r : ρ} :
    Linked valid prev next p (rows ++ [r]) q ↔
      Linked valid prev next p rows (prev r) ∧ valid r ∧ next r = q := by
  induction rows generalizing p with
  | nil =>
    rw [List.nil_append, Linked, Linked, Linked]
    exact ⟨fun h => ⟨h.1.symm, h.2⟩, fun h => ⟨h.1.symm, h.2⟩⟩
  | cons s rows ih =>
    rw [List.cons_append, Linked, Linked, ih]
    constructor
    · rintro ⟨hprev, hvalid, hrows, hr⟩
      exact ⟨⟨hprev, hvalid, hrows⟩, hr⟩
    · rintro ⟨⟨hprev, hvalid, hrows⟩, hr⟩
      exact ⟨hprev, hvalid, hrows, hr⟩

theorem tip_snoc (genesis : η) (rows : List ρ) (r : ρ) :
    tip next genesis (rows ++ [r]) = next r := by
  rw [tip, List.getLast?_concat]
  rfl

end HashChain
