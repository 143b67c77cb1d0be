import Mathlib

/-!
    Things that expire: what has expired stays so. -/

namespace Expiry

variable {τ : Type} [LinearOrder τ] {s t : τ}

/-- Not yet expired; what has no deadline never is. -/
def Live (d : Option τ) (t : τ) : Prop := ∀ u ∈ d, t < u

instance (d : Option τ) (t : τ) : Decidable (Live d t) :=
  match d with
  | none => .isTrue fun _ h => by cases h
  | some u => decidable_of_iff (t < u) ⟨fun h _ hu => Option.some.inj hu ▸ h, fun h => h u rfl⟩

theorem Live.earlier {d : Option τ} (h : Live d t) (hst : s ≤ t) : Live d s :=
  fun u hu => hst.trans_lt (h u hu)

end Expiry
