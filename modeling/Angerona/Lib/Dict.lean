import Mathlib.Data.List.Induction
import Mathlib.Data.List.Nodup
import Mathlib.Data.List.Sort

/-!
    Dictionaries: items in insertion order, each key once. `set` replaces the value of a key where
    it stands, or appends. -/

structure Dict (κ α : Type) where
  items : List (κ × α)
  nodup : (items.map Prod.fst).Nodup

namespace Dict

variable {κ α β : Type} [DecidableEq κ]

instance [DecidableEq α] : DecidableEq (Dict κ α) := fun d e =>
  decidable_of_iff (d.items = e.items) ⟨fun h => by
    obtain ⟨items, hd⟩ := d
    obtain ⟨items', he⟩ := e
    obtain rfl : items = items' := h
    rfl, fun h => h ▸ rfl⟩

def empty : Dict κ α := ⟨[], List.nodup_nil⟩

/-- `d.get(k)`. -/
def get? (d : Dict κ α) (k : κ) : Option α := (d.items.find? fun i => i.1 = k).map Prod.snd

/-- `d.values()`. -/
def values (d : Dict κ α) : List α := d.items.map Prod.snd

/-- `len(d)`. -/
def size (d : Dict κ α) : ℕ := d.items.length

/-- The items after `d[k] = v`. -/
def put (k : κ) (v : α) : List (κ × α) → List (κ × α)
  | [] => [(k, v)]
  | i :: items => if i.1 = k then (k, v) :: items else i :: put k v items

theorem put_keys (k : κ) (v : α) (items : List (κ × α)) :
    (put k v items).map Prod.fst =
      if k ∈ items.map Prod.fst then items.map Prod.fst else items.map Prod.fst ++ [k] := by
  induction items with
  | nil => rfl
  | cons i items ih =>
    rw [put]
    by_cases hi : i.1 = k
    · rw [if_pos hi, List.map_cons, List.map_cons, if_pos (List.mem_cons.mpr (Or.inl hi.symm)), hi]
    · rw [if_neg hi, List.map_cons, List.map_cons, ih]
      by_cases hk : k ∈ items.map Prod.fst
      · rw [if_pos hk, if_pos (List.mem_cons_of_mem _ hk)]
      · rw [if_neg hk, if_neg fun h => (List.mem_cons.mp h).elim (fun he => hi he.symm) hk]
        rfl

/-- A key that is new goes behind the others. -/
theorem put_fresh {k : κ} {v : α} : ∀ {items : List (κ × α)}, k ∉ items.map Prod.fst →
    put k v items = items ++ [(k, v)] := by
  intro items hk
  induction items with
  | nil => rfl
  | cons i items ih =>
    rw [List.map_cons, List.mem_cons, not_or] at hk
    rw [put, if_neg fun h => hk.1 h.symm, ih hk.2, List.cons_append]

theorem put_nodup (k : κ) (v : α) {items : List (κ × α)} (h : (items.map Prod.fst).Nodup) :
    ((put k v items).map Prod.fst).Nodup := by
  rw [put_keys]
  split
  · exact h
  · rename_i hk
    exact List.nodup_append.mpr ⟨h, List.nodup_singleton k,
      fun a ha b hb hab => hk (List.mem_singleton.mp hb ▸ hab ▸ ha)⟩

/-- `d[k] = v`. -/
def set (d : Dict κ α) (k : κ) (v : α) : Dict κ α := ⟨put k v d.items, put_nodup k v d.nodup⟩

/-- `d.pop(k, None)`. -/
def erase (d : Dict κ α) (k : κ) : Dict κ α :=
  ⟨d.items.filter fun i => i.1 ≠ k, (List.filter_sublist.map Prod.fst).nodup d.nodup⟩

/-- The items that satisfy `p`. -/
def keep (p : κ × α → Bool) (d : Dict κ α) : Dict κ α :=
  ⟨d.items.filter p, (List.filter_sublist.map Prod.fst).nodup d.nodup⟩

/-! ### Reading -/

@[simp] theorem get?_empty (k : κ) : (empty : Dict κ α).get? k = none := rfl

/-- The value of a key is the one its item has. -/
theorem mem_items {d : Dict κ α} {k : κ} {v : α} : (k, v) ∈ d.items ↔ d.get? k = some v := by
  obtain ⟨items, hn⟩ := d
  rw [get?]
  induction items with
  | nil => simp
  | cons i items ih =>
    rw [List.map_cons, List.nodup_cons] at hn
    by_cases hi : i.1 = k
    · rw [List.find?_cons_of_pos (by simpa using hi)]
      constructor
      · intro h
        rcases List.mem_cons.mp h with rfl | h
        · rfl
        · exact absurd (List.mem_map.mpr ⟨_, h, hi.symm⟩) hn.1
      · intro h
        obtain rfl := Option.some.inj h
        exact List.mem_cons.mpr (Or.inl (Prod.ext hi.symm rfl))
    · rw [List.find?_cons_of_neg (by simpa using hi), ← ih hn.2, List.mem_cons]
      exact or_iff_right fun he => hi (he ▸ rfl)

theorem mem_values {d : Dict κ α} {v : α} : v ∈ d.values ↔ ∃ k, d.get? k = some v := by
  rw [values, List.mem_map]
  constructor
  · rintro ⟨⟨k, w⟩, hi, rfl⟩
    exact ⟨k, mem_items.mp hi⟩
  · rintro ⟨k, hk⟩
    exact ⟨(k, v), mem_items.mpr hk, rfl⟩

theorem mem_keys {d : Dict κ α} {k : κ} : k ∈ d.items.map Prod.fst ↔ (d.get? k).isSome = true := by
  rw [List.mem_map, Option.isSome_iff_exists]
  constructor
  · rintro ⟨⟨k', v⟩, hi, rfl⟩
    exact ⟨v, mem_items.mp hi⟩
  · rintro ⟨v, hv⟩
    exact ⟨(k, v), mem_items.mpr hv, rfl⟩

/-! ### Writing -/

theorem find?_put (k : κ) (v : α) (items : List (κ × α)) (j : κ) :
    ((put k v items).find? fun i => i.1 = j).map Prod.snd =
      if j = k then some v else (items.find? fun i => i.1 = j).map Prod.snd := by
  induction items with
  | nil =>
    by_cases hj : j = k
    · simp [put, hj]
    · simp [put, hj, Ne.symm hj]
  | cons i items ih =>
    rw [put]
    by_cases hi : i.1 = k
    · rw [if_pos hi]
      by_cases hj : j = k
      · simp [hj]
      · have hij : i.1 ≠ j := fun he => hj (he.symm.trans hi)
        simp [hj, Ne.symm hj, hij]
    · rw [if_neg hi]
      by_cases hij : i.1 = j
      · have hjk : j ≠ k := fun he => hi (hij.trans he)
        simp [hij, hjk]
      · simpa [hij] using ih

@[simp] theorem get?_set (d : Dict κ α) (k : κ) (v : α) (j : κ) :
    (d.set k v).get? j = if j = k then some v else d.get? j := find?_put k v d.items j

/-- `d.update(items)`. -/
def update (d : Dict κ α) (items : List (κ × α)) : Dict κ α :=
  items.foldl (fun d i => d.set i.1 i.2) d

/-- The last value that some items give a key. -/
def last (k : κ) (items : List (κ × α)) : Option α :=
  (items.reverse.find? fun i => i.1 = k).map Prod.snd

theorem last_append (k : κ) (items items' : List (κ × α)) :
    last k (items ++ items') = (last k items').or (last k items) := by
  rw [last, last, last, List.reverse_append, List.find?_append]
  cases items'.reverse.find? fun i => i.1 = k <;> rfl

theorem get?_update (k : κ) (items : List (κ × α)) (d : Dict κ α) :
    (d.update items).get? k = (last k items).or (d.get? k) := by
  induction items using List.reverseRecOn with
  | nil => rfl
  | append_singleton items i ih =>
    rw [update, List.foldl_append, List.foldl_cons, List.foldl_nil, ← update, get?_set, ih,
      last_append]
    by_cases hk : k = i.1
    · simp [last, hk]
    · simp [last, hk, Ne.symm hk]

/-- The items of a dictionary give each key its value. -/
theorem last_items (d : Dict κ α) (k : κ) : last k d.items = d.get? k := by
  refine Option.ext fun v => ?_
  rw [← mem_items, last, Option.map_eq_some_iff]
  constructor
  · rintro ⟨i, hi, rfl⟩
    have hk : i.1 = k := by simpa using List.find?_some hi
    exact hk ▸ List.mem_reverse.mp (List.mem_of_find?_eq_some hi)
  · intro hmem
    rcases hi : d.items.reverse.find? fun i => i.1 = k with _ | i
    · have hne := List.find?_eq_none.mp hi (k, v) (List.mem_reverse.mpr hmem)
      simp at hne
    · have hk : i.1 = k := by simpa using List.find?_some hi
      have hin := List.mem_reverse.mp (List.mem_of_find?_eq_some hi)
      exact ⟨i, hi, congrArg Prod.snd (List.inj_on_of_nodup_map d.nodup hin hmem hk)⟩

theorem mem_of_last {k : κ} {v : α} {items : List (κ × α)} (h : last k items = some v) :
    (k, v) ∈ items := by
  rw [last, Option.map_eq_some_iff] at h
  obtain ⟨i, hi, rfl⟩ := h
  have hk : i.1 = k := by simpa using List.find?_some hi
  exact hk ▸ List.mem_reverse.mp (List.mem_of_find?_eq_some hi)

theorem last_isSome {k : κ} {v : α} {items : List (κ × α)} (h : (k, v) ∈ items) :
    ∃ w, last k items = some w := by
  rw [← Option.isSome_iff_exists, last, Option.isSome_map, List.find?_isSome]
  exact ⟨(k, v), List.mem_reverse.mpr h, by simp⟩

theorem size_set_of_mem {d : Dict κ α} {k : κ} {v : α} (h : (d.get? k).isSome = true) :
    (d.set k v).size = d.size := by
  have hlen := congrArg List.length (put_keys k v d.items)
  rw [if_pos (mem_keys.mpr h), List.length_map, List.length_map] at hlen
  exact hlen

theorem size_set_le (d : Dict κ α) (k : κ) (v : α) : (d.set k v).size ≤ d.size + 1 := by
  have hlen := congrArg List.length (put_keys k v d.items)
  rw [List.length_map] at hlen
  rw [size, set, hlen]
  split
  · simp [size]
  · simp [size]

@[simp] theorem get?_erase (d : Dict κ α) (k j : κ) :
    (d.erase k).get? j = if j = k then none else d.get? j := by
  refine Option.ext fun v => ?_
  rw [← mem_items, erase, List.mem_filter, mem_items]
  by_cases hj : j = k
  · simp [hj]
  · simp [hj]

theorem get?_keep (d : Dict κ α) (p : κ × α → Bool) (k : κ) :
    (d.keep p).get? k = (d.get? k).filter fun v => p (k, v) := by
  refine Option.ext fun v => ?_
  rw [← mem_items, keep, List.mem_filter, mem_items, Option.filter_eq_some_iff]

theorem size_erase_le (d : Dict κ α) (k : κ) : (d.erase k).size ≤ d.size :=
  List.length_filter_le _ _

theorem size_erase_lt {d : Dict κ α} {k : κ} (h : (d.get? k).isSome = true) :
    (d.erase k).size < d.size := by
  obtain ⟨v, hv⟩ := Option.isSome_iff_exists.mp h
  refine List.length_filter_lt_length_iff_exists.mpr ⟨(k, v), mem_items.mpr hv, ?_⟩
  simp

/-! ### Rebuilding -/

/-- Every value under a function of its item. -/
def map (f : κ → α → β) (d : Dict κ α) : Dict κ β :=
  ⟨d.items.map fun i => (i.1, f i.1 i.2), by
    rw [List.map_map]
    exact d.nodup⟩

theorem get?_map (f : κ → α → β) (d : Dict κ α) (k : κ) :
    (d.map f).get? k = (d.get? k).map (f k) := by
  refine Option.ext fun b => ?_
  rw [← mem_items, map, List.mem_map, Option.map_eq_some_iff]
  constructor
  · rintro ⟨⟨k', a⟩, hi, he⟩
    obtain ⟨rfl, rfl⟩ := Prod.mk.inj he
    exact ⟨a, mem_items.mp hi, rfl⟩
  · rintro ⟨a, ha, rfl⟩
    exact ⟨(k, a), mem_items.mpr ha, rfl⟩

/-- Items that are those of `d` under a function, in any order, are a dictionary of the images. -/
theorem get?_of_perm {d : Dict κ α} {e : Dict κ β} {f : α → β}
    (h : e.items.Perm (d.items.map fun i => (i.1, f i.2))) (k : κ) :
    e.get? k = (d.get? k).map f := by
  refine Option.ext fun b => ?_
  rw [← mem_items, h.mem_iff, List.mem_map, Option.map_eq_some_iff]
  constructor
  · rintro ⟨⟨k', a⟩, hi, he⟩
    obtain ⟨rfl, rfl⟩ := Prod.mk.inj he
    exact ⟨a, mem_items.mp hi, rfl⟩
  · rintro ⟨a, ha, rfl⟩
    exact ⟨(k, a), mem_items.mpr ha, rfl⟩

end Dict
