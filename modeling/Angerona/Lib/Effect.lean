import Mathlib.Order.Defs.Unbundled
import Mathlib.Tactic.Basic
import Mathlib.Tactic.TypeStar

/-!
    Effects: functions on a state that return or raise, and keep what they changed before they
    raised.

    `wp m Q E s` says that `m`, run from `s`, returns a value and a state that satisfy `Q` or raises
    with an error and a state that satisfy `E`. It is computed along the text of `m`. -/

/-- A function on states of type `σ` that raises errors of type `ε`. -/
def Effect (ε σ α : Type) : Type := σ → Except ε α × σ

namespace Effect

variable {ε σ τ α β : Type}

instance : Monad (Effect ε σ) where
  pure a := fun s => (.ok a, s)
  bind m f := fun s =>
    match m s with
    | (.ok a, t) => f a t
    | (.error e, t) => (.error e, t)

def raise (e : ε) : Effect ε σ α := fun s => (.error e, s)

def read : Effect ε σ σ := fun s => (.ok s, s)

def modify (f : σ → σ) : Effect ε σ Unit := fun s => (.ok (), f s)

/-- Raises unless the condition holds. -/
def check (p : Prop) [Decidable p] (e : ε) : Effect ε σ Unit := if p then pure () else raise e

/-- A result that needs no state. -/
def lift (r : Except ε α) : Effect ε σ α := fun s => (r, s)

/-- The value that is there, or a raise. -/
def demand (o : Option α) (e : ε) : Effect ε σ α := fun s => (o.elim (.error e) .ok, s)

/-- `try` with a handler that swallows the caught errors. -/
def attempt (caught : ε → Bool) (m : Effect ε σ α) : Effect ε σ (Option α) := fun s =>
  match m s with
  | (.ok a, t) => (.ok (some a), t)
  | (.error e, t) => if caught e then (.ok none, t) else (.error e, t)

/-- `try` with a handler that turns every error into a result. -/
def handle (m : Effect ε σ α) (f : ε → α) : Effect ε σ α := fun s =>
  match m s with
  | (.ok a, t) => (.ok a, t)
  | (.error e, t) => (.ok (f e), t)

/-- `try … finally`: however `m` ends, `g` is applied to the state. -/
def ensuring (m : Effect ε σ α) (g : σ → σ) : Effect ε σ α := fun s => ((m s).1, g (m s).2)

/-- A transaction: the state is what it was when `m` raises. -/
def atomic (m : Effect ε σ α) : Effect ε σ α := fun s =>
  match m s with
  | (.ok a, t) => (.ok a, t)
  | (.error e, _) => (.error e, s)

/-- An effect on a part of the state. -/
def zoom (part : σ → τ) (put : τ → σ → σ) (m : Effect ε τ α) : Effect ε σ α := fun s =>
  ((m (part s)).1, put (m (part s)).2 s)

/-! ### Pre- and postconditions -/

/-- From the state, `m` returns as `Q` says or raises as `E` says. -/
def wp (m : Effect ε σ α) (Q : α → σ → Prop) (E : ε → σ → Prop) (s : σ) : Prop :=
  match m s with
  | (.ok a, t) => Q a t
  | (.error e, t) => E e t

variable {m : Effect ε σ α} {f : α → Effect ε σ β} {Q : α → σ → Prop} {R : β → σ → Prop}
  {E : ε → σ → Prop} {s t : σ}

@[simp] theorem wp_pure {a : α} : wp (pure a : Effect ε σ α) Q E s ↔ Q a s := Iff.rfl

@[simp] theorem wp_raise {e : ε} : wp (raise e : Effect ε σ α) Q E s ↔ E e s := Iff.rfl

@[simp] theorem wp_read {Q : σ → σ → Prop} : wp (read : Effect ε σ σ) Q E s ↔ Q s s := Iff.rfl

@[simp] theorem wp_modify {g : σ → σ} {Q : Unit → σ → Prop} :
    wp (modify g : Effect ε σ Unit) Q E s ↔ Q () (g s) := Iff.rfl

@[simp] theorem wp_bind : wp (m >>= f) R E s ↔ wp m (fun a t => wp (f a) R E t) E s := by
  change (match (match m s with
    | (.ok a, t) => f a t
    | (.error e, t) => (.error e, t)) with
    | (.ok b, t) => R b t
    | (.error e, t) => E e t) ↔ _
  rw [wp]
  rcases m s with ⟨_ | a, t⟩
  · rfl
  · rfl

@[simp] theorem wp_ite {p : Prop} [Decidable p] {n : Effect ε σ α} :
    wp (if p then m else n) Q E s ↔ (p → wp m Q E s) ∧ (¬p → wp n Q E s) := by
  by_cases hp : p
  · simp [hp]
  · simp [hp]

@[simp] theorem wp_check {p : Prop} [Decidable p] {e : ε} {Q : Unit → σ → Prop} :
    wp (check p e : Effect ε σ Unit) Q E s ↔ (p → Q () s) ∧ (¬p → E e s) := by
  rw [check, wp_ite, wp_pure, wp_raise]

/-- A check that holds. -/
theorem wp_pass {p : Prop} [Decidable p] {e : ε} {f : Unit → Effect ε σ β} (hp : p)
    (h : wp (f ()) R E s) : wp (check p e >>= f) R E s :=
  wp_bind.mpr (wp_check.mpr ⟨fun _ => h, fun hn => absurd hp hn⟩)

theorem wp_lift {r : Except ε α} :
    wp (lift r : Effect ε σ α) Q E s ↔ (∀ a, r = .ok a → Q a s) ∧ ∀ e, r = .error e → E e s := by
  rcases r with e | a
  · simp [wp, lift]
  · simp [wp, lift]

/-- A result that is there. -/
theorem wp_got {r : Except ε α} {a : α} (hr : r = .ok a) (h : wp (f a) R E s) :
    wp (lift r >>= f) R E s := by
  subst hr
  exact wp_bind.mpr h

theorem wp_demand {o : Option α} {e : ε} :
    wp (demand o e : Effect ε σ α) Q E s ↔ (∀ a, o = some a → Q a s) ∧ (o = none → E e s) := by
  rcases o with _ | a
  · simp [wp, demand]
  · simp [wp, demand]

theorem wp_attempt {caught : ε → Bool} {Q : Option α → σ → Prop}
    (h : wp m (fun a => Q (some a)) (fun e t => if caught e then Q none t else E e t) s) :
    wp (attempt caught m) Q E s := by
  rw [wp] at h
  rw [wp, attempt]
  rcases hm : m s with ⟨e | a, t⟩
  · rw [hm] at h
    dsimp only at h ⊢
    by_cases hc : caught e
    · rw [if_pos hc] at h ⊢
      exact h
    · rw [if_neg hc] at h ⊢
      exact h
  · rw [hm] at h
    exact h

theorem wp_handle {g : ε → α} :
    wp (handle m g) Q E s ↔ wp m Q (fun e t => Q (g e) t) s := by
  rw [wp, wp, handle]
  rcases m s with ⟨_ | a, t⟩
  · rfl
  · rfl

theorem wp_ensuring {g : σ → σ} :
    wp (ensuring m g) Q E s ↔ wp m (fun a t => Q a (g t)) (fun e t => E e (g t)) s := by
  rw [wp, wp, ensuring]
  rcases m s with ⟨_ | a, t⟩
  · rfl
  · rfl

theorem wp_atomic : wp (atomic m) Q E s ↔ wp m Q (fun e _ => E e s) s := by
  rw [wp, wp, atomic]
  rcases m s with ⟨_ | a, t⟩
  · rfl
  · rfl

theorem wp_mono {Q' : α → σ → Prop} {E' : ε → σ → Prop} (h : wp m Q E s)
    (hQ : ∀ a t, Q a t → Q' a t) (hE : ∀ e t, E e t → E' e t) : wp m Q' E' s := by
  rw [wp] at h ⊢
  split at h
  · exact hQ _ _ h
  · exact hE _ _ h

/-- What holds however the effect ends. -/
theorem wp_state {I : σ → Prop} (h : wp m (fun _ => I) (fun _ => I) s) : I (m s).2 := by
  rw [wp] at h
  split at h
  · rename_i hm
    rw [hm]
    exact h
  · rename_i hm
    rw [hm]
    exact h

theorem wp_ok {a : α} (h : wp m Q E s) (hm : m s = (.ok a, t)) : Q a t := by
  rwa [wp, hm] at h

theorem wp_error {e : ε} (h : wp m Q E s) (hm : m s = (.error e, t)) : E e t := by
  rwa [wp, hm] at h

/-- How the effect ends, as an equation. -/
theorem wp_self (m : Effect ε σ α) (s : σ) :
    wp m (fun a t => m s = (.ok a, t)) (fun e t => m s = (.error e, t)) s := by
  rw [wp]
  rcases m s with ⟨_ | a, t⟩
  · rfl
  · rfl

/-- That the effect returns. -/
theorem wp_returns : wp m (fun _ _ => True) (fun _ _ => False) s ↔ ∃ a, (m s).1 = .ok a := by
  rw [wp]
  rcases m s with ⟨_ | a, t⟩
  · simp
  · simp

theorem wp_zoom {part : σ → τ} {put : τ → σ → σ} {n : Effect ε τ α} :
    wp (zoom part put n) Q E s ↔
      wp n (fun a u => Q a (put u s)) (fun e u => E e (put u s)) (part s) := by
  rw [wp, wp, zoom]
  rcases n (part s) with ⟨_ | a, u⟩
  · rfl
  · rfl

/-- Two facts about one run. -/
theorem wp_and {Q' : α → σ → Prop} {E' : ε → σ → Prop} (h : wp m Q E s) (h' : wp m Q' E' s) :
    wp m (fun a t => Q a t ∧ Q' a t) (fun e t => E e t ∧ E' e t) s := by
  rw [wp] at h h' ⊢
  split at h
  · rename_i hm
    rw [hm] at h'
    exact ⟨h, h'⟩
  · rename_i hm
    rw [hm] at h'
    exact ⟨h, h'⟩

/-! ### What an effect changes at most -/

section Within

variable {P : σ → σ → Prop}

/-- However `m` ends, the state after is related to the state before. -/
def Within (P : σ → σ → Prop) (m : Effect ε σ α) : Prop := ∀ s, P s (m s).2

theorem Within.wp (h : Within P m) (s : σ) : wp m (fun _ => P s) (fun _ => P s) s := by
  rw [Effect.wp]
  have hs := h s
  rcases hm : m s with ⟨_ | a, t⟩
  · rwa [hm] at hs
  · rwa [hm] at hs

theorem Within.mono {P' : σ → σ → Prop} (h : Within P m) (himp : ∀ s t, P s t → P' s t) :
    Within P' m := fun s => himp _ _ (h s)

theorem Within.modify {g : σ → σ} (h : ∀ s, P s (g s)) : Within P (modify g : Effect ε σ Unit) := h

theorem Within.ite {p : Prop} [Decidable p] {n : Effect ε σ α} (hm : p → Within P m)
    (hn : ¬p → Within P n) : Within P (if p then m else n) := by
  by_cases hp : p
  · rw [if_pos hp]
    exact hm hp
  · rw [if_neg hp]
    exact hn hp

theorem Within.elim {γ : Type} {o : Option γ} {g : γ → Effect ε σ α} (hm : Within P m)
    (hg : ∀ c, Within P (g c)) : Within P (o.elim m g) := by
  rcases o with _ | c
  · exact hm
  · exact hg c

variable [IsPreorder σ P]

theorem Within.pure (a : α) : Within P (pure a : Effect ε σ α) := fun s => refl_of P s

theorem Within.read : Within P (read : Effect ε σ σ) := fun s => refl_of P s

theorem Within.check {p : Prop} [Decidable p] {e : ε} : Within P (check p e : Effect ε σ Unit) :=
  Within.ite (fun _ => Within.pure ()) fun _ s => refl_of P s

theorem Within.demand {o : Option α} {e : ε} : Within P (demand o e : Effect ε σ α) :=
  fun s => refl_of P s

theorem Within.bind (hm : Within P m) (hf : ∀ a, Within P (f a)) : Within P (m >>= f) := by
  intro s
  have hs := hm s
  change P s (match m s with
    | (.ok a, t) => f a t
    | (.error e, t) => (.error e, t)).2
  rcases hr : m s with ⟨_ | a, t⟩
  · rwa [hr] at hs
  · rw [hr] at hs
    exact trans_of P hs (hf a t)

end Within

/-! ### Effects that never raise -/

/-- From every state `m` returns. -/
def Returns (m : Effect ε σ α) : Prop := ∀ s, ∃ a, (m s).1 = .ok a

theorem Returns.pure (a : α) : Returns (pure a : Effect ε σ α) := fun _ => ⟨a, rfl⟩

theorem Returns.read : Returns (read : Effect ε σ σ) := fun s => ⟨s, rfl⟩

theorem Returns.modify (g : σ → σ) : Returns (modify g : Effect ε σ Unit) := fun _ => ⟨(), rfl⟩

theorem Returns.ite {p : Prop} [Decidable p] {n : Effect ε σ α} (hm : Returns m) (hn : Returns n) :
    Returns (if p then m else n) := by
  split
  · exact hm
  · exact hn

theorem Returns.elim {γ : Type} {o : Option γ} {g : γ → Effect ε σ α} (hm : Returns m)
    (hg : ∀ c, Returns (g c)) : Returns (o.elim m g) := by
  rcases o with _ | c
  · exact hm
  · exact hg c

theorem Returns.bind (hm : Returns m) (hf : ∀ a, Returns (f a)) : Returns (m >>= f) := by
  intro s
  obtain ⟨a, ha⟩ := hm s
  change ∃ b, (match m s with
    | (.ok a, t) => f a t
    | (.error e, t) => (.error e, t)).1 = .ok b
  rcases hr : m s with ⟨_ | a', t⟩
  · rw [hr] at ha
    exact absurd ha (by simp)
  · exact hf a' t

/-- An effect that never raises and changes at most so much. -/
theorem Returns.wp {P : σ → σ → Prop} (hm : Returns m) (h : Within P m) (s : σ) :
    wp m (fun _ => P s) (fun _ _ => False) s := by
  have hs := h s
  obtain ⟨a, ha⟩ := hm s
  rw [Effect.wp]
  rcases hr : m s with ⟨_ | b, t⟩
  · rw [hr] at ha
    exact absurd ha (by simp)
  · rwa [hr] at hs

end Effect
