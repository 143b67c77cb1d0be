import Angerona.Lib.PyNumber
import Angerona.Lib.StrictJson

/-!
    Dictionaries that are written with sorted keys and loaded again, by their items, and documents
    one member of which signs the others.

    The tree of a dictionary has one member for each item, in the order of the names. So what a
    signature covers, the canonical tree without the signature's own member, is the same before the
    document is written and after it is loaded. -/

namespace PyJson
open Text Raising

/-- `d.get(name)`, where an item that is not there is told from one that is `None`. -/
def lookup (name : Str) (items : List (Key × Value)) : Option Value :=
  (items.find? fun item => item.1 = .str name).map Prod.snd

/-- `{k: v for k, v in d.items() if k != name}`. -/
def without (name : Str) (items : List (Key × Value)) : List (Key × Value) :=
  items.filter fun item => item.1 ≠ .str name

/-- The keys are different strings. -/
structure Keyed (items : List (Key × Value)) : Prop where
  strings : (items.map Prod.fst).all Key.isStr = true
  nodup : (items.map Prod.fst).Nodup

variable {repr : Double → Str} {items : List (Key × Value)} {j : Json}

/-! ### Items -/

/-- The members that are written for the items. -/
structure Written (repr : Double → Str) (items : List (Key × Value)) (members : List (Str × Json)) :
    Prop where
  sorted : (members.map Prod.fst).Pairwise (· < ·)
  count : members.length = items.length
  mem : ∀ name c, (name, c) ∈ members ↔ ∃ v, (Key.str name, v) ∈ items ∧ v.dumps repr true = .ok c
  dumped : ∀ name v, (Key.str name, v) ∈ items → ∃ c, v.dumps repr true = .ok c

theorem keyed_loads {d : List (Key × Value)} (h : j.loads = .dict d) :
    Keyed d ∧ ∀ item ∈ d, ∃ c : Json, item.2 = c.loads := by
  cases j with
  | obj members =>
    rw [Json.loads, Value.dict.injEq, loadsMembers_eq] at h
    obtain ⟨hnodup, hmem⟩ := dictOf_spec (members.map fun m => (Key.str m.1, m.2.loads))
    rw [h] at hnodup hmem
    have hloaded : ∀ item ∈ d, ∃ m : Str × Json, item = (Key.str m.1, m.2.loads) := by
      intro item hitem
      obtain ⟨m, -, rfl⟩ := List.mem_map.mp (hmem item hitem)
      exact ⟨m, rfl⟩
    refine ⟨⟨List.all_eq_true.mpr fun k hk => ?_, hnodup⟩, fun item hitem => ?_⟩
    · obtain ⟨item, hitem, rfl⟩ := List.mem_map.mp hk
      obtain ⟨m, rfl⟩ := hloaded item hitem
      rfl
    · obtain ⟨m, rfl⟩ := hloaded item hitem
      exact ⟨m.2, rfl⟩
  | null | bool b | int n | float f | str s | arr xs => cases h

end PyJson
