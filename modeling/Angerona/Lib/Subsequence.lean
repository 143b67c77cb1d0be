import Mathlib.Data.List.Sublists

/-!
    The greedy search for a subsequence.

    Entries are matched by a key. The search takes, for each key in turn, the first entry after the
    one before that has it. It finds an occurrence whenever there is one, and what it leaves behind
    is enough to decide whether more keys follow. -/

namespace Subsequence
open List

variable {α κ : Type} (key : α → κ)

/-- `x` is the entry after `earlier` that brings the first `n + 1` keys together. -/
def Brings (ks : List κ) (n : ℕ) (earlier : List α) (x : α) : Prop :=
  (ks.take (n + 1)).Sublist ((earlier ++ [x]).map key) ∧
    ¬(ks.take (n + 1)).Sublist (earlier.map key)

section Brings

variable {key}

theorem brings_nil {k : κ} {ks : List κ} {n : ℕ} {x : α} :
    Brings key (k :: ks) n [] x ↔ key x = k ∧ ks.take n = [] := by
  rw [Brings, take_succ_cons, nil_append, map_singleton, map_nil, sublist_nil, sublist_singleton]
  constructor
  · rintro ⟨h | h, -⟩
    · cases h
    · exact ⟨(cons.inj h).1.symm, (cons.inj h).2⟩
  · rintro ⟨rfl, h⟩
    rw [h]
    exact ⟨.inr rfl, cons_ne_nil _ _⟩

theorem brings_cons_pos {k : κ} {ks : List κ} {n : ℕ} {y x : α} {earlier : List α} (h : key y = k) :
    Brings key (k :: ks) (n + 1) (y :: earlier) x ↔ Brings key ks n earlier x := by
  rw [Brings, Brings, take_succ_cons, cons_append, map_cons, map_cons, h, cons_sublist_cons,
    cons_sublist_cons]

theorem brings_cons_zero {k : κ} {ks : List κ} {y x : α} {earlier : List α} (h : key y = k) :
    ¬Brings key (k :: ks) 0 (y :: earlier) x := by
  rintro ⟨-, hn⟩
  rw [take_succ_cons, take_zero, map_cons, h] at hn
  exact hn ((nil_sublist _).cons_cons k)

theorem brings_cons_neg {k : κ} {ks : List κ} {n : ℕ} {y x : α} {earlier : List α}
    (h : key y ≠ k) :
    Brings key (k :: ks) n (y :: earlier) x ↔ Brings key (k :: ks) n earlier x := by
  have hskip : ∀ l : List κ, (k :: ks.take n).Sublist (key y :: l) ↔ (k :: ks.take n).Sublist l := by
    intro l
    refine ⟨fun hs => ?_, fun hs => hs.cons _⟩
    rcases sublist_cons_iff.mp hs with hs | ⟨r, hr, -⟩
    · exact hs
    · exact absurd (cons.inj hr).1.symm h
  rw [Brings, Brings, take_succ_cons, cons_append, map_cons, map_cons, hskip, hskip]

end Brings

variable [DecidableEq κ]

/-- The entries the search takes. -/
def pick : List κ → List α → List α
  | [], _ => []
  | _ :: _, [] => []
  | k :: ks, x :: xs => if key x = k then x :: pick ks xs else pick (k :: ks) xs

/-- The entries after the last one it takes. -/
def rest : List κ → List α → List α
  | [], xs => xs
  | _ :: _, [] => []
  | k :: ks, x :: xs => if key x = k then rest ks xs else rest (k :: ks) xs

/-- The search finds all keys. -/
def Found (ks : List κ) (xs : List α) : Prop := (pick key ks xs).length = ks.length

instance (ks : List κ) (xs : List α) : Decidable (Found key ks xs) :=
  inferInstanceAs (Decidable (_ = _))

variable {key}

theorem pick_cons_pos {k : κ} {x : α} (h : key x = k) (ks : List κ) (xs : List α) :
    pick key (k :: ks) (x :: xs) = x :: pick key ks xs := if_pos h

theorem pick_cons_neg {k : κ} {x : α} (h : key x ≠ k) (ks : List κ) (xs : List α) :
    pick key (k :: ks) (x :: xs) = pick key (k :: ks) xs := if_neg h

theorem rest_cons_pos {k : κ} {x : α} (h : key x = k) (ks : List κ) (xs : List α) :
    rest key (k :: ks) (x :: xs) = rest key ks xs := if_pos h

theorem rest_cons_neg {k : κ} {x : α} (h : key x ≠ k) (ks : List κ) (xs : List α) :
    rest key (k :: ks) (x :: xs) = rest key (k :: ks) xs := if_neg h

theorem found_nil (xs : List α) : Found key [] xs := by
  cases xs <;> rfl

theorem found_cons_pos {k : κ} {x : α} (h : key x = k) {ks : List κ} {xs : List α} :
    Found key (k :: ks) (x :: xs) ↔ Found key ks xs := by
  rw [Found, pick_cons_pos h, length_cons, length_cons, Nat.add_right_cancel_iff, Found]

theorem found_cons_neg {k : κ} {x : α} (h : key x ≠ k) {ks : List κ} {xs : List α} :
    Found key (k :: ks) (x :: xs) ↔ Found key (k :: ks) xs := by
  rw [Found, pick_cons_neg h, Found]

/-- The keys occur, followed by others, exactly when the search finds them and leaves the others. -/
theorem append_sublist_iff {ls : List κ} : ∀ {ks : List κ} {xs : List α},
    (ks ++ ls).Sublist (xs.map key) ↔ Found key ks xs ∧ ls.Sublist ((rest key ks xs).map key)
  | [], xs => by
    rw [nil_append, rest]
    exact (and_iff_right (found_nil xs)).symm
  | k :: ks, [] => by
    simp [Found, pick]
  | k :: ks, x :: xs => by
    rw [map_cons, cons_append]
    by_cases h : key x = k
    · rw [found_cons_pos h, rest_cons_pos h, ← append_sublist_iff, h, cons_sublist_cons]
    · rw [found_cons_neg h, rest_cons_neg h, ← append_sublist_iff, cons_append]
      refine ⟨fun hs => ?_, fun hs => hs.cons _⟩
      rcases sublist_cons_iff.mp hs with hs | ⟨r, hr, -⟩
      · exact hs
      · exact absurd (cons.inj hr).1.symm h

theorem found_iff {ks : List κ} {xs : List α} : Found key ks xs ↔ ks.Sublist (xs.map key) := by
  have h : (ks ++ []).Sublist (xs.map key) ↔ Found key ks xs ∧ _ := append_sublist_iff
  rw [append_nil] at h
  rw [h, and_iff_left (nil_sublist _)]

theorem Found.append {ks : List κ} {xs : List α} (h : Found key ks xs) (ys : List α) :
    Found key ks (xs ++ ys) := by
  rw [found_iff, map_append]
  exact (found_iff.mp h).trans (sublist_append_left _ _)

/-- A search that found all keys takes the same entries of a longer list. -/
theorem pick_append {ys : List α} : ∀ {ks : List κ} {xs : List α}, Found key ks xs →
    pick key ks (xs ++ ys) = pick key ks xs
  | [], xs, _ => by rw [pick, pick]
  | k :: ks, [], h => by simp [Found, pick] at h
  | k :: ks, x :: xs, h => by
    rw [cons_append]
    by_cases hk : key x = k
    · rw [pick_cons_pos hk, pick_cons_pos hk, pick_append ((found_cons_pos hk).mp h)]
    · rw [pick_cons_neg hk, pick_cons_neg hk, pick_append ((found_cons_neg hk).mp h)]

/-- The search takes the entries that bring one more key each. -/
theorem forall_pick_iff {P : α → Prop} : ∀ {ks : List κ} {xs : List α},
    (∀ x ∈ pick key ks xs, P x) ↔
      ∀ n < ks.length, ∀ earlier x later, xs = earlier ++ x :: later →
        Brings key ks n earlier x → P x
  | [], xs => by
    rw [pick]
    simp
  | k :: ks, [] => by
    rw [pick]
    simp
  | k :: ks, y :: ys => by
    by_cases h : key y = k
    · rw [pick_cons_pos h, forall_mem_cons, forall_pick_iff]
      constructor
      · rintro ⟨hy, hrest⟩ n hn earlier x later hsplit hbrings
        rcases earlier with _ | ⟨z, earlier⟩
        · obtain ⟨rfl, -⟩ := cons.inj hsplit
          exact hy
        · obtain ⟨rfl, htail⟩ := cons.inj hsplit
          cases n with
          | zero => exact absurd hbrings (brings_cons_zero h)
          | succ n =>
            exact hrest n (Nat.lt_of_succ_lt_succ hn) earlier x later htail
              ((brings_cons_pos h).mp hbrings)
      · intro hall
        refine ⟨hall 0 (Nat.succ_pos _) [] y ys rfl (brings_nil.mpr ⟨h, rfl⟩), ?_⟩
        intro n hn earlier x later hsplit hbrings
        exact hall (n + 1) (Nat.succ_lt_succ hn) (y :: earlier) x later (by rw [hsplit]; rfl)
          ((brings_cons_pos h).mpr hbrings)
    · rw [pick_cons_neg h, forall_pick_iff]
      constructor
      · intro hall n hn earlier x later hsplit hbrings
        rcases earlier with _ | ⟨z, earlier⟩
        · obtain ⟨rfl, -⟩ := cons.inj hsplit
          exact absurd (brings_nil.mp hbrings).1 h
        · obtain ⟨rfl, htail⟩ := cons.inj hsplit
          exact hall n hn earlier x later htail ((brings_cons_neg h).mp hbrings)
      · intro hall n hn earlier x later hsplit hbrings
        exact hall n hn (y :: earlier) x later (by rw [hsplit]; rfl)
          ((brings_cons_neg h).mpr hbrings)

/-- What is left stands after the last entry taken. -/
theorem exists_last : ∀ {ks : List κ} {xs : List α}, Found key ks xs → ks ≠ [] →
    ∃ pre x, xs = pre ++ x :: rest key ks xs ∧ (pick key ks xs).getLast? = some x
  | [], _, _, h => absurd rfl h
  | k :: ks, [], h, _ => by simp [Found, pick] at h
  | k :: ks, x :: xs, h, _ => by
    by_cases hk : key x = k
    · rw [rest_cons_pos hk, pick_cons_pos hk]
      rw [found_cons_pos hk] at h
      rcases eq_or_ne ks [] with rfl | hks
      · refine ⟨[], x, ?_, ?_⟩
        · rw [rest, nil_append]
        · rw [pick, getLast?_singleton]
      · obtain ⟨pre, y, hxs, hlast⟩ := exists_last h hks
        refine ⟨x :: pre, y, congrArg (x :: ·) hxs, ?_⟩
        rw [getLast?_cons, hlast, Option.getD_some]
    · rw [rest_cons_neg hk, pick_cons_neg hk]
      obtain ⟨pre, y, hxs, hlast⟩ := exists_last ((found_cons_neg hk).mp h) (cons_ne_nil k ks)
      exact ⟨x :: pre, y, congrArg (x :: ·) hxs, hlast⟩

/-- An occurrence that the last entry completes ends with it. -/
theorem sublist_concat_new {γ : Type} {ks ls : List γ} {k : γ} (h : ks.Sublist (ls ++ [k]))
    (hn : ¬ks.Sublist ls) : ∃ init, ks = init ++ [k] ∧ init.Sublist ls := by
  obtain ⟨a, b, rfl, ha, hb⟩ := sublist_append_iff.mp h
  rcases sublist_singleton.mp hb with rfl | rfl
  · exact absurd (by rwa [append_nil]) hn
  · exact ⟨a, rfl, ha⟩

end Subsequence
