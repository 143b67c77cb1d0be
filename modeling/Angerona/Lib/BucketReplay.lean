import Mathlib.Algebra.Order.Field.Basic
import Mathlib.Data.List.Induction
import Mathlib.Tactic.Linarith

/-!
    Token buckets rebuilt from the times of what they admitted.

    A bucket that was never charged has no time yet. Replaying only the last times, from a bucket
    that holds the one token the first of them must have found, never gives more than replaying all
    of them did. -/

namespace BucketReplay

variable {K : Type} [Field K] [LinearOrder K]

structure Bucket (K : Type) where
  tokens : K
  last : Option K
  deriving DecidableEq

/-- The balance at `t`. -/
def Bucket.level (rate burst : K) (b : Bucket K) (t : K) : K :=
  match b.last with
  | none => min burst b.tokens
  | some s => min burst (b.tokens + (t - s) * rate)

/-- One token is taken at `t`. -/
def Bucket.charge (rate burst : K) (b : Bucket K) (t : K) : Bucket K :=
  ⟨b.level rate burst t - 1, some t⟩

def Bucket.replay (rate burst : K) (b : Bucket K) (times : List K) : Bucket K :=
  times.foldl (Bucket.charge rate burst) b

/-- Every charge finds a token. -/
def Bucket.Admits (rate burst : K) : Bucket K → List K → Prop
  | _, [] => True
  | b, t :: times => 1 ≤ b.level rate burst t ∧ Admits rate burst (b.charge rate burst t) times

/-- `b` was charged last when `c` was, and holds no more. -/
structure Bucket.Below (b c : Bucket K) : Prop where
  last : b.last = c.last
  tokens : b.tokens ≤ c.tokens

variable {rate burst : K} {b c : Bucket K} {t : K} {times times' : List K}

theorem replay_append :
    b.replay rate burst (times ++ times') = (b.replay rate burst times).replay rate burst times' :=
  List.foldl_append

theorem replay_snoc :
    b.replay rate burst (times ++ [t]) = (b.replay rate burst times).charge rate burst t :=
  replay_append

/-- The time of a bucket is that of a charge, or the one it had. -/
theorem mem_last_replay (h : t ∈ (b.replay rate burst times).last) : t ∈ times ∨ t ∈ b.last := by
  induction times using List.reverseRecOn with
  | nil => exact .inr h
  | append_singleton times s _ =>
    rw [replay_snoc] at h
    obtain rfl := Option.some.inj h
    exact .inl (List.mem_append_right _ List.mem_cons_self)

theorem admits_append : b.Admits rate burst (times ++ times') ↔
    b.Admits rate burst times ∧ (b.replay rate burst times).Admits rate burst times' := by
  induction times generalizing b with
  | nil => exact ⟨fun h => ⟨trivial, h⟩, And.right⟩
  | cons t times ih =>
    rw [List.cons_append, Bucket.Admits, Bucket.Admits, ih, and_assoc]
    rfl

theorem admits_snoc : b.Admits rate burst (times ++ [t]) ↔
    b.Admits rate burst times ∧ 1 ≤ (b.replay rate burst times).level rate burst t := by
  rw [admits_append, Bucket.Admits, Bucket.Admits, and_true]

/-! ### Comparing buckets -/

omit [Field K] in
theorem Bucket.Below.refl (b : Bucket K) : b.Below b := ⟨rfl, le_rfl⟩

variable [IsStrictOrderedRing K]

theorem Bucket.Below.level (h : b.Below c) (t : K) : b.level rate burst t ≤ c.level rate burst t := by
  obtain ⟨tokens, last⟩ := b
  obtain ⟨tokens', last'⟩ := c
  obtain rfl : last = last' := h.last
  have htokens : tokens ≤ tokens' := h.tokens
  cases last with
  | none => exact min_le_min_left burst htokens
  | some s => exact min_le_min_left burst (add_le_add_left htokens _)

theorem Bucket.Below.charge (h : b.Below c) (t : K) :
    (b.charge rate burst t).Below (c.charge rate burst t) :=
  ⟨rfl, sub_le_sub_right (h.level t) 1⟩

theorem Bucket.Below.replay (h : b.Below c) (times : List K) :
    (b.replay rate burst times).Below (c.replay rate burst times) := by
  induction times generalizing b c with
  | nil => exact h
  | cons t times ih => exact ih (h.charge t)

/-- A bucket that is replayed from one token only, over the times that are left, holds no more than
    the one that admitted all of them. -/
theorem replay_one_below (h : b.Admits rate burst (times ++ t :: times')) :
    Bucket.Below (Bucket.replay rate burst ⟨1, none⟩ (t :: times'))
      (b.replay rate burst (times ++ t :: times')) := by
  have hfirst : 1 ≤ (b.replay rate burst times).level rate burst t := (admits_append.mp h).2.1
  rw [replay_append]
  -- after the first of them the short bucket is empty
  have hempty : Bucket.Below (Bucket.charge rate burst ⟨1, none⟩ t)
      ((b.replay rate burst times).charge rate burst t) := by
    refine ⟨rfl, sub_le_sub_right ?_ 1⟩
    exact (min_le_right burst 1).trans hfirst
  exact hempty.replay times'

end BucketReplay
