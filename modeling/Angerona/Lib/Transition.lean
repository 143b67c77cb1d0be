import Mathlib.Data.List.Induction

/-!
    Labelled transition systems: runs and their invariants.

    A run is a list of labels, oldest first. Invariants are carried by one step and hold along every
    run; a step may be restricted by a guard on its label and the state before it. -/

namespace Transition

variable {σ α : Type} {step : σ → α → σ → Prop}

/-- `Run step s ls t`: the steps labelled `ls` lead from `s` to `t`. -/
inductive Run (step : σ → α → σ → Prop) (s : σ) : List α → σ → Prop where
  | nil : Run step s [] s
  | snoc {ls : List α} {t u : σ} {a : α} : Run step s ls t → step t a u → Run step s (ls ++ [a]) u

/-- The steps whose label the guard allows in the state before. -/
def Guarded (guard : σ → α → Prop) (step : σ → α → σ → Prop) : σ → α → σ → Prop :=
  fun s a t => guard s a ∧ step s a t

namespace Run

/-- What one step preserves holds along every run. -/
theorem invariant {I : σ → Prop} (hstep : ∀ s a t, I s → step s a t → I t) {s t : σ} {ls : List α}
    (h : Run step s ls t) (h0 : I s) : I t := by
  induction h with
  | nil => exact h0
  | snoc _ hs ih => exact hstep _ _ _ ih hs

theorem append {s t u : σ} {ls ms : List α} (h : Run step s ls t) (h' : Run step t ms u) :
    Run step s (ls ++ ms) u := by
  induction h' with
  | nil => rwa [List.append_nil]
  | snoc _ hs ih => exact List.append_assoc ls _ _ ▸ ih.snoc hs

theorem single {s t : σ} {a : α} (h : step s a t) : Run step s [a] t := Run.nil.snoc h

theorem cons {s t u : σ} {a : α} {ls : List α} (h : step s a t) (h' : Run step t ls u) :
    Run step s (a :: ls) u := (single h).append h'

theorem mono {step' : σ → α → σ → Prop} (himp : ∀ s a t, step s a t → step' s a t) {s t : σ}
    {ls : List α} (h : Run step s ls t) : Run step' s ls t := by
  induction h with
  | nil => exact nil
  | snoc _ hs ih => exact ih.snoc (himp _ _ _ hs)

/-- A run whose labels the guard always allows. -/
theorem guarded {guard : σ → α → Prop} {s t : σ} {ls : List α} (h : Run step s ls t)
    (hg : ∀ a ∈ ls, ∀ s, guard s a) : Run (Guarded guard step) s ls t := by
  induction h with
  | nil => exact .nil
  | snoc _ hs ih =>
    exact (ih fun a ha => hg a (List.mem_append_left _ ha)).snoc
      ⟨hg _ (List.mem_append_right _ List.mem_cons_self) _, hs⟩

/-- Executing a list of actions of a partial step function is a run of it. -/
theorem of_exec {f : σ → α → Option σ} {s t : σ} : ∀ {ls : List α}, ls.foldlM f s = some t →
    Run (fun s a t => f s a = some t) s ls t := by
  intro ls
  induction ls using List.reverseRecOn generalizing t with
  | nil =>
    intro h
    obtain rfl := Option.some.inj h
    exact .nil
  | append_singleton ls a ih =>
    intro h
    rw [List.foldlM_append] at h
    obtain ⟨u, hu, h⟩ := Option.bind_eq_some_iff.mp h
    rw [List.foldlM_cons] at h
    obtain ⟨v, hv, h⟩ := Option.bind_eq_some_iff.mp h
    obtain rfl := Option.some.inj h
    exact (ih hu).snoc hv

/-- Executing a list of actions, each of which the guard is seen to allow, is a run. -/
theorem of_checked {f : σ → α → σ} {guard : σ → α → Prop} [∀ s a, Decidable (guard s a)] {s t : σ}
    {ls : List α}
    (h : ls.foldlM (fun s a => if guard s a then some (f s a) else none) s = some t) :
    Run (Guarded guard fun s a t => f s a = t) s ls t := by
  refine (of_exec h).mono fun s a t hs => ?_
  split at hs
  · rename_i hguard
    exact ⟨hguard, Option.some.inj hs⟩
  · cases hs

/-- Executing a list of actions that the guard always allows is a run. -/
theorem of_foldl {f : σ → α → σ} {guard : σ → α → Prop} {s : σ} : ∀ {ls : List α},
    (∀ t, ∀ a ∈ ls, guard t a) → Run (Guarded guard fun s a t => f s a = t) s ls (ls.foldl f s) := by
  intro ls
  induction ls using List.reverseRecOn with
  | nil => exact fun _ => .nil
  | append_singleton ls a ih =>
    intro h
    rw [List.foldl_append]
    exact (ih fun t b hb => h t b (List.mem_append_left _ hb)).snoc
      ⟨h _ a (List.mem_append_right _ List.mem_cons_self), rfl⟩

end Run

end Transition
