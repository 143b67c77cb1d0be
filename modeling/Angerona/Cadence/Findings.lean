import Mathlib
import Angerona.Cadence.Connections

/-!
    Findings need callbacks.

    A history holds no more than the callbacks that were counted, and no history of fewer than four is
    judged. A connection that is counted once has no finding. -/

namespace Angerona.Cadence
open Text

variable {T C : Type} [LinearOrder T] {H : Host T C} {d : Detector T C} {s : Snapshot T}

/-- Histories and findings are made of callbacks that were counted. -/
structure Detector.Counted (d : Detector T C) : Prop where
  history : ∀ key hist, d.callbacks.get? key = some hist → hist.length ≤ d.recorded.count key
  emitted : ∀ f ∈ d.emitted, minCallbacks ≤ d.recorded.count f.key

/-- What is judged a cadence has four callbacks. -/
theorem length_of_beaconScore {timestamps : List T} (h : (H.beaconScore timestamps).1 = true) :
    minCallbacks ≤ timestamps.length := by
  rw [Host.beaconScore] at h
  split at h
  · cases h
  · omega

theorem length_extended (h : d.Counted) (key : Key T) (now : T) :
    (d.extended key now).length ≤ (d.recorded ++ [key]).count key := by
  have hheld : ((d.callbacks.get? key).getD []).length ≤ d.recorded.count key := by
    rcases hget : d.callbacks.get? key with _ | hist
    · exact Nat.zero_le _
    · exact h.history key hist hget
  rw [Detector.extended, List.length_drop, List.length_append, List.count_append]
  simp only [List.length_singleton, List.count_singleton_self]
  omega

theorem Detector.Counted.observe (h : d.Counted) (connection : ℕ × Str) :
    (d.observe H s connection).Counted := by
  rw [Detector.observe]
  rcases s.key connection with _ | key
  · exact h
  have hmore : ∀ k, d.recorded.count k ≤ (d.recorded ++ [key]).count k := fun k => by
    rw [List.count_append]
    exact Nat.le_add_right _ _
  have hlength := length_extended h key s.now
  have hhistory : ∀ k hist, (d.callbacks.set key (d.extended key s.now)).get? k = some hist →
      hist.length ≤ (d.recorded ++ [key]).count k := by
    intro k hist hget
    rw [Dict.get?_set] at hget
    split at hget
    · rename_i hk
      subst hk
      obtain rfl := Option.some.inj hget
      exact hlength
    · exact (h.history k hist hget).trans (hmore k)
  dsimp only
  split
  · rename_i hscore
    have hjudged : (H.beaconScore (d.extended key s.now)).1 = true := by
      simp only [Bool.and_eq_true] at hscore
      exact hscore.1
    refine ⟨hhistory, fun f hf => ?_⟩
    rcases List.mem_append.mp hf with hf | hf
    · exact (h.emitted f hf).trans (hmore _)
    · obtain rfl := List.mem_singleton.mp hf
      exact (length_of_beaconScore hjudged).trans hlength
  · exact ⟨hhistory, fun f hf => (h.emitted f hf).trans (hmore _)⟩

theorem Detector.Counted.foldl (h : d.Counted) (connections : List (ℕ × Str)) :
    (connections.foldl (Detector.observe H s) d).Counted := by
  induction connections generalizing d with
  | nil => exact h
  | cons connection connections ih => exact ih (h.observe connection)

theorem Detector.Counted.pollOnce (h : d.Counted) (poll : Poll T) : (d.pollOnce H poll).1.Counted := by
  cases poll with
  | unread error => exact h
  | table s =>
    have hobserved := h.foldl (H := H) (s := s) (d.fresh H s)
    refine ⟨fun key hist hget => hobserved.history key hist ?_, hobserved.emitted⟩
    exact (Option.filter_eq_some_iff.mp ((Dict.get?_keep _ _ _).symm.trans hget)).1

end Angerona.Cadence
