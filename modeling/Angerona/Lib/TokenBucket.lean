import Mathlib.Algebra.Order.Field.Basic
import Mathlib.Algebra.Order.BigOperators.Group.List
import Mathlib.Tactic.Linarith
import Mathlib.Tactic.Ring

/-!
    Token buckets.

    A bucket has a level that grows at `rate` up to `burst`; it is stored as the level at one time
    and that time. What is taken in a window of time is bounded by `burst + rate * length`: at any
    time the takes since the window opened, and what is left, are within that bound. -/

namespace TokenBucket

variable {K : Type} [Field K] [LinearOrder K]

structure Bucket (K : Type) where
  tokens : K
  stamp : K

/-- The level at `now`. -/
def Bucket.level (rate burst : K) (b : Bucket K) (now : K) : K :=
  min burst (b.tokens + max 0 (now - b.stamp) * rate)

variable {rate burst : K} {b : Bucket K} {n t c : K}

theorem level_le (t : K) : b.level rate burst t ≤ burst := min_le_left _ _

/-- What was taken at or after `a`. -/
def spent (takes : List (K × K)) (a : K) : K :=
  ((takes.filter fun e => a ≤ e.1).map Prod.snd).sum

variable {takes : List (K × K)}

theorem spent_append (takes : List (K × K)) (e : K × K) (a : K) :
    spent (takes ++ [e]) a = spent takes a + if a ≤ e.1 then e.2 else 0 := by
  rw [spent, spent, List.filter_append, List.map_append, List.sum_append]
  by_cases h : a ≤ e.1
  · simp [h]
  · simp [h]

theorem spent_of_lt {a : K} (h : ∀ e ∈ takes, e.1 < a) : spent takes a = 0 := by
  rw [spent, List.filter_eq_nil_iff.mpr fun e he => by simpa using h e he]
  rfl

variable [IsStrictOrderedRing K]

/-! ### Levels -/

theorem level_nonneg (hrate : 0 ≤ rate) (hburst : 0 ≤ burst) (hb : 0 ≤ b.tokens) (t : K) :
    0 ≤ b.level rate burst t :=
  le_min hburst (add_nonneg hb (mul_nonneg (le_max_left 0 _) hrate))

theorem level_of_le (ht : b.stamp ≤ t) :
    b.level rate burst t = min burst (b.tokens + (t - b.stamp) * rate) := by
  rw [Bucket.level, max_eq_right (sub_nonneg.mpr ht)]

/-- Storing the level anew changes nothing. -/
theorem level_restamp (hrate : 0 ≤ rate) (hn : b.stamp ≤ n) (ht : n ≤ t) :
    Bucket.level rate burst ⟨b.level rate burst n, n⟩ t = b.level rate burst t := by
  have hgrow : 0 ≤ (t - n) * rate := mul_nonneg (sub_nonneg.mpr ht) hrate
  have hsplit : (t - b.stamp) * rate = (n - b.stamp) * rate + (t - n) * rate := by ring
  rw [level_of_le ht, level_of_le (hn.trans ht), level_of_le hn, hsplit]
  rcases le_total burst (b.tokens + (n - b.stamp) * rate) with h | h
  · rw [min_eq_left h, min_eq_left (by linarith), min_eq_left (by linarith)]
  · rw [min_eq_right h, add_assoc]

/-- A bucket that was filled stays full. -/
theorem level_full (hrate : 0 ≤ rate) (ht : n ≤ t) :
    Bucket.level rate burst ⟨burst, n⟩ t = burst := by
  have hgrow : 0 ≤ (t - n) * rate := mul_nonneg (sub_nonneg.mpr ht) hrate
  rw [level_of_le ht, min_eq_left (by simpa using hgrow)]

/-- After a take the level is at most what was left and what has come since. -/
theorem level_take_le (ht : n ≤ t) :
    Bucket.level rate burst ⟨b.level rate burst n - c, n⟩ t ≤
      b.level rate burst n - c + (t - n) * rate := by
  rw [level_of_le ht]
  exact min_le_right _ _

/-- What is missing has come once the time that it takes has passed. -/
theorem le_level_of_wait (hrate : 0 < rate) (hstamp : b.stamp ≤ n) (hc : c ≤ burst)
    (ht : n ≤ t) (hwait : (c - b.level rate burst n) / rate ≤ t - n) : c ≤ b.level rate burst t := by
  rw [← level_restamp hrate.le hstamp ht, level_of_le ht]
  refine le_min hc ?_
  rw [div_le_iff₀ hrate] at hwait
  linarith

/-! ### Windows -/

/-- In every window that is still open, what was taken and what is left are within the bound; the
    times that may come are `late`. -/
def Within (rate burst : K) (takes : List (K × K)) (late : K → Prop) (avail : K → K) : Prop :=
  ∀ a t, late t → a ≤ t → spent takes a + avail t ≤ burst + rate * (t - a)

variable {late late' : K → Prop} {avail avail' : K → K}

theorem Within.start (hrate : 0 ≤ rate) (havail : ∀ t, late t → avail t ≤ burst) :
    Within rate burst [] late avail := by
  intro a t ht ha
  have hgrow : 0 ≤ rate * (t - a) := mul_nonneg hrate (sub_nonneg.mpr ha)
  have hle := havail t ht
  rw [spent_of_lt (by simp)]
  linarith

/-- Time passes. -/
theorem Within.wait (h : Within rate burst takes late avail) (hlate : ∀ t, late' t → late t)
    (havail : ∀ t, late' t → avail' t ≤ avail t) : Within rate burst takes late' avail' :=
  fun a t ht ha => (add_le_add_right (havail t ht) _).trans (h a t (hlate t ht) ha)

/-- `c` is taken at time `n`. -/
theorem Within.take (h : Within rate burst takes late avail) (hrate : 0 ≤ rate) (hn : late n)
    (hpast : ∀ e ∈ takes, e.1 ≤ n) (hburst : ∀ t, late' t → avail' t ≤ burst)
    (havail : ∀ t, late' t → avail' t ≤ avail n - c + (t - n) * rate) :
    Within rate burst (takes ++ [(n, c)]) late' avail' := by
  intro a t ht ha
  rw [spent_append]
  by_cases hna : a ≤ n
  · rw [if_pos hna]
    have hbefore := h a n hn hna
    have hafter := havail t ht
    have hsplit : rate * (t - a) = rate * (n - a) + (t - n) * rate := by ring
    linarith
  -- the window opens after the take
  · rw [if_neg hna, spent_of_lt fun e he => (hpast e he).trans_lt (not_le.mp hna)]
    have hgrow : 0 ≤ rate * (t - a) := mul_nonneg hrate (sub_nonneg.mpr ha)
    have hle := hburst t ht
    linarith

end TokenBucket
