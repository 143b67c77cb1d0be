import Angerona.Lib.Text

/-!
    Texts in segments: paths and dotted names.

    One text continues another by whole segments exactly when it is that text, or that text, the
    separator and something more. -/

namespace Text

variable {c : Char}

/-- The segments between the occurrences of a character. -/
def segments (c : Char) (s : Str) : List Str := splitOn [c] s

theorem segments_ne_nil (s : Str) : segments c s ≠ [] := splitOn_ne_nil (List.cons_ne_nil _ _) s

theorem join_segments (s : Str) : join [c] (segments c s) = s :=
  join_splitOn (List.cons_ne_nil _ _) s

theorem segments_inj {s t : Str} (h : segments c s = segments c t) : s = t := by
  rw [← join_segments (c := c) s, h, join_segments]

/-- The first occurrence of the character in a text that has one at its end or before. -/
theorem cut_append_cons (a b : Str) : cut [c] (a ++ c :: b) =
    (cut [c] a).elim (some (a, b)) fun p => some (p.1, p.2 ++ c :: b) := by
  induction a with
  | nil => simp [cut]
  | cons x a ih =>
    by_cases hx : c = x
    · simp [cut, hx]
    · rw [List.cons_append, cut, cut, ih]
      cases cut [c] a with
      | none => simp [hx]
      | some p => simp [hx]

theorem segments_append (a b : Str) :
    segments c (a ++ c :: b) = segments c a ++ segments c b := by
  induction hn : a.length using Nat.strong_induction_on generalizing a with
  | _ n ih =>
    rw [segments, splitOn_eq (List.cons_ne_nil _ _), cut_append_cons]
    rw [segments, splitOn_eq (List.cons_ne_nil _ _) a]
    rcases hcut : cut [c] a with _ | ⟨x, y⟩
    · rfl
    · have hlen := cut_length hcut
      rw [List.length_singleton] at hlen
      exact congrArg (x :: ·) (ih y.length (by omega) y rfl)

/-- A text continues another by whole segments. -/
theorem segments_prefix {s t : Str} :
    segments c s <+: segments c t ↔ s = t ∨ s ++ [c] <+: t := by
  constructor
  · rintro ⟨w, hw⟩
    by_cases hnil : w = []
    · rw [hnil, List.append_nil] at hw
      exact .inl (segments_inj hw)
    · refine .inr ⟨join [c] w, ?_⟩
      rw [← join_segments (c := c) t, ← hw, join_append (segments_ne_nil s) hnil, join_segments]
  · rintro (rfl | ⟨w, rfl⟩)
    · exact List.prefix_rfl
    · rw [List.append_assoc, List.singleton_append, segments_append]
      exact List.prefix_append _ _

end Text
