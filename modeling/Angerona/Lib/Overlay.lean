import Mathlib

/-!
    Layers laid over each other, where a layer may lock what it sets against the layers after it.

    The layers are looked at for one key: which of them set it, and which of them lock it. -/

namespace Overlay

variable {β ι : Type} (sets locks : β → Bool)

/-- One more layer: whose value stands, and whether it is locked. -/
def lay (w : Option β × Bool) (b : β) : Option β × Bool :=
  (if !w.2 && sets b then some b else w.1, w.2 || locks b)

/-- The first layer that locks, or else the last one that sets. -/
def winner (bs : List β) : Option β := (bs.find? locks).or (bs.reverse.find? sets)

/-- Layers that lock only what they set: the value that stands is the winner's. -/
theorem foldl_lay (hown : ∀ b, locks b = true → sets b = true) (bs : List β) :
    bs.foldl (lay sets locks) (none, false) = (winner sets locks bs, bs.any locks) := by
  induction bs using List.reverseRecOn with
  | nil => rfl
  | append_singleton bs b ih =>
    rw [List.foldl_append, ih, List.foldl_cons, List.foldl_nil, lay, winner, winner,
      List.find?_append, List.any_append]
    rcases hfirst : bs.find? locks with _ | a
    · have hany : bs.any locks = false := by
        rw [List.any_eq_false]
        intro x hx
        simpa using List.find?_eq_none.mp hfirst x hx
      rcases hset : sets b with _ | _
      · have hlock : locks b = false := by
          by_contra h
          rw [hown b (by simpa using h)] at hset
          cases hset
        simp [hany, hset, hlock]
      · rcases hlock : locks b with _ | _ <;> simp [hany, hset, hlock]
    · have hany : bs.any locks = true :=
        List.any_eq_true.mpr ⟨a, List.mem_of_find?_eq_some hfirst, List.find?_some hfirst⟩
      simp [hany]

variable (r : ι → ι → Prop) (look : ι → Option β) (p : β → Bool)

/-- The first of some places, in their order, whose choice satisfies `p`. -/
theorem find?_filterMap_iff (hasymm : ∀ {i j}, r i j → ¬r j i) : ∀ {is : List ι}, is.Pairwise r →
    ∀ b, (is.filterMap look).find? p = some b ↔
      ∃ i ∈ is, look i = some b ∧ p b = true ∧ ∀ j ∈ is, r j i → ∀ c, look j = some c → p c = false
  | [], _, b => by simp
  | i :: is, hpw, b => by
    obtain ⟨hfirst, hpw⟩ := List.pairwise_cons.mp hpw
    have ih := find?_filterMap_iff hasymm hpw
    rcases hi : look i with _ | a
    · rw [List.filterMap_cons_none hi, ih]
      constructor
      · rintro ⟨k, hk, hkb, hb, hbefore⟩
        refine ⟨k, List.mem_cons_of_mem _ hk, hkb, hb, fun j hj hjk c hc => ?_⟩
        rcases List.mem_cons.mp hj with rfl | hj
        · rw [hi] at hc
          cases hc
        · exact hbefore j hj hjk c hc
      · rintro ⟨k, hk, hkb, hb, hbefore⟩
        rcases List.mem_cons.mp hk with rfl | hk
        · rw [hi] at hkb
          cases hkb
        · exact ⟨k, hk, hkb, hb, fun j hj => hbefore j (List.mem_cons_of_mem _ hj)⟩
    · rw [List.filterMap_cons_some hi]
      rcases ha : p a with _ | _
      · rw [List.find?_cons_of_neg (by simp [ha]), ih]
        constructor
        · rintro ⟨k, hk, hkb, hb, hbefore⟩
          refine ⟨k, List.mem_cons_of_mem _ hk, hkb, hb, fun j hj hjk c hc => ?_⟩
          rcases List.mem_cons.mp hj with rfl | hj
          · rw [hi] at hc
            rw [← Option.some.inj hc]
            exact ha
          · exact hbefore j hj hjk c hc
        · rintro ⟨k, hk, hkb, hb, hbefore⟩
          rcases List.mem_cons.mp hk with rfl | hk
          · rw [hi] at hkb
            rw [← Option.some.inj hkb, ha] at hb
            cases hb
          · exact ⟨k, hk, hkb, hb, fun j hj => hbefore j (List.mem_cons_of_mem _ hj)⟩
      · rw [List.find?_cons_of_pos ha]
        constructor
        · intro hab
          refine ⟨i, List.mem_cons_self, by rw [hi, hab], by rw [← Option.some.inj hab, ha], ?_⟩
          intro j hj hji c hc
          rcases List.mem_cons.mp hj with rfl | hj
          · exact absurd hji (hasymm hji)
          · exact absurd (hfirst j hj) (hasymm hji)
        · rintro ⟨k, hk, hkb, hb, hbefore⟩
          rcases List.mem_cons.mp hk with rfl | hk
          · rw [← hi, hkb]
          · rw [hbefore i List.mem_cons_self (hfirst k hk) a hi] at ha
            cases ha

end Overlay
