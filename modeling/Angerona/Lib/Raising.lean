import Mathlib.Data.List.Basic

/-!
    Functions that raise: how a computation in `Except` that returned got there, and what a loop
    whose body may raise preserves. -/

namespace Raising

variable {ε α β : Type}

theorem bind_ok {x : Except ε α} {f : α → Except ε β} {b : β} :
    (x >>= f) = .ok b ↔ ∃ a, x = .ok a ∧ f a = .ok b := by
  cases x with
  | error e => simp [bind, Except.bind]
  | ok a => simp [bind, Except.bind]

theorem map_ok {x : Except ε α} {f : α → β} {b : β} :
    x.map f = .ok b ↔ ∃ a, x = .ok a ∧ f a = b := by
  cases x with
  | error e => simp [Except.map]
  | ok a => simp [Except.map]

theorem mapError_ok {ε' : Type} {x : Except ε α} {f : ε → ε'} {a : α} :
    x.mapError f = .ok a ↔ x = .ok a := by
  cases x with
  | error e => simp [Except.mapError]
  | ok a => simp [Except.mapError]

theorem if_error_ok {p : Prop} [Decidable p] {e : ε} {x : Except ε α} {a : α} :
    (if p then .error e else x) = .ok a ↔ ¬p ∧ x = .ok a := by
  by_cases hp : p
  · simp [hp]
  · simp [hp]

/-- A loop preserves what its body preserves on the elements it runs over. -/
theorem foldlM_invariant {I : β → Prop} {f : β → α → Except ε β} : ∀ {l : List α},
    (∀ b a b', a ∈ l → I b → f b a = .ok b' → I b') → ∀ {b b' : β}, I b →
      l.foldlM f b = .ok b' → I b'
  | [], _, b, b', h0, h => by
    obtain rfl := Except.ok.inj h
    exact h0
  | a :: l, hf, b, b', h0, h => by
    rw [List.foldlM_cons] at h
    obtain ⟨c, hc, h⟩ := bind_ok.mp h
    exact foldlM_invariant (fun b a b' ha => hf b a b' (List.mem_cons_of_mem _ ha))
      (hf b a c List.mem_cons_self h0 hc) h

/-- Mapping returned: every element was mapped, in order. -/
theorem mapM_ok {f : α → Except ε β} : ∀ {l : List α} {bs : List β}, l.mapM f = .ok bs →
    List.Forall₂ (fun a b => f a = .ok b) l bs
  | [], bs, h => by
    rw [List.mapM_nil] at h
    obtain rfl := Except.ok.inj h
    exact .nil
  | a :: l, bs, h => by
    rw [List.mapM_cons] at h
    obtain ⟨b, hb, h⟩ := bind_ok.mp h
    obtain ⟨bs', hbs, h⟩ := bind_ok.mp h
    obtain rfl := Except.ok.inj h
    exact .cons hb (mapM_ok hbs)

/-- What is in the result of a mapping comes from an element. -/
theorem of_mem_mapM {f : α → Except ε β} {l : List α} {bs : List β} (h : l.mapM f = .ok bs) {b : β}
    (hb : b ∈ bs) : ∃ a ∈ l, f a = .ok b := by
  have hall := mapM_ok h
  clear h
  induction hall with
  | nil => simp at hb
  | @cons a c l bs hac _ ih =>
    rcases List.mem_cons.mp hb with rfl | hb
    · exact ⟨a, List.mem_cons_self, hac⟩
    · obtain ⟨a', ha', hf⟩ := ih hb
      exact ⟨a', List.mem_cons_of_mem _ ha', hf⟩

/-- A loop of checks passes exactly when every check does. -/
theorem forM_ok_iff {f : α → Except ε Unit} : ∀ {l : List α},
    l.forM f = .ok () ↔ ∀ a ∈ l, f a = .ok ()
  | [] => by simp [List.forM_eq_forM, pure, Except.pure]
  | a :: l => by
    rw [List.forM_eq_forM, List.forM_cons, bind_ok, List.forall_mem_cons]
    have ih := forM_ok_iff (f := f) (l := l)
    rw [List.forM_eq_forM] at ih
    rw [ih]
    exact ⟨fun ⟨_, h, h'⟩ => ⟨h, h'⟩, fun ⟨h, h'⟩ => ⟨(), h, h'⟩⟩

/-! ### Raising instead -/

/-- One computation raises, or it does what the other does. -/
def Refuses (x y : Except ε α) : Prop := (∃ e, x = .error e) ∨ x = y

namespace Refuses

theorem refl (x : Except ε α) : Refuses x x := Or.inr rfl

theorem bind {x y : Except ε α} {f g : α → Except ε β} (h : Refuses x y)
    (hfg : ∀ a, Refuses (f a) (g a)) : Refuses (x >>= f) (y >>= g) := by
  rcases h with ⟨e, rfl⟩ | rfl
  · exact Or.inl ⟨e, rfl⟩
  · cases x with
    | error e => exact Or.inl ⟨e, rfl⟩
    | ok a => exact hfg a

theorem map {x y : Except ε α} (f : α → β) (h : Refuses x y) : Refuses (x.map f) (y.map f) := by
  rcases h with ⟨e, rfl⟩ | rfl
  · exact Or.inl ⟨e, rfl⟩
  · exact refl _

theorem mapM {f g : α → Except ε β} : ∀ {l : List α}, (∀ a ∈ l, Refuses (f a) (g a)) →
    Refuses (l.mapM f) (l.mapM g)
  | [], _ => refl _
  | a :: l, h => by
    rw [List.mapM_cons, List.mapM_cons]
    exact (h a List.mem_cons_self).bind fun b =>
      (mapM fun a ha => h a (List.mem_cons_of_mem _ ha)).bind fun _ => refl _

end Refuses

/-- Every element's image is in the result of a mapping. -/
theorem mem_mapM {f : α → Except ε β} {a : α} : ∀ {l : List α} {bs : List β}, l.mapM f = .ok bs →
    a ∈ l → ∃ b, f a = .ok b ∧ b ∈ bs
  | [], _, _, ha => by cases ha
  | c :: l, bs, h, ha => by
    rw [List.mapM_cons] at h
    obtain ⟨b, hb, h⟩ := bind_ok.mp h
    obtain ⟨bs', hbs, h⟩ := bind_ok.mp h
    obtain rfl := Except.ok.inj h
    rcases List.mem_cons.mp ha with rfl | ha
    · exact ⟨b, hb, List.mem_cons_self⟩
    · obtain ⟨b', hb', hmem⟩ := mem_mapM hbs ha
      exact ⟨b', hb', List.mem_cons_of_mem _ hmem⟩

/-- A mapping returns when it does on every element. -/
theorem mapM_returns {f : α → Except ε β} : ∀ {l : List α}, (∀ a ∈ l, ∃ b, f a = .ok b) →
    ∃ bs, l.mapM f = .ok bs
  | [], _ => ⟨[], rfl⟩
  | a :: l, h => by
    obtain ⟨b, hb⟩ := h a List.mem_cons_self
    obtain ⟨bs, hbs⟩ := mapM_returns fun a ha => h a (List.mem_cons_of_mem _ ha)
    exact ⟨b :: bs, by rw [List.mapM_cons, hb, hbs]; rfl⟩

end Raising
