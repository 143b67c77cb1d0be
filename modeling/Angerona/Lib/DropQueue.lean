import Mathlib.Data.List.Basic
import Mathlib.Data.List.Nodup
import Mathlib.Data.List.Infix

/-!
    A bounded queue that gives up its oldest element when it is full.

    The histories of what was accepted, delivered and lost are kept beside what is pending. Every
    accepted element ends in exactly one of the three places, and order is kept. -/

structure DropQueue (β : Type) where
  accepted : List β
  delivered : List β
  pending : List β
  lost : List β

namespace DropQueue

variable {β : Type} {q : DropQueue β} {x : β} {cap k : ℕ}

def empty : DropQueue β := ⟨[], [], [], []⟩

/-- Make room: nothing below the capacity, else the oldest pending element is lost. -/
def shed (cap : ℕ) (q : DropQueue β) : DropQueue β :=
  if cap ≤ q.pending.length then
    { q with pending := q.pending.drop 1, lost := q.lost ++ q.pending.take 1 }
  else q

def enqueue (x : β) (q : DropQueue β) : DropQueue β :=
  { q with accepted := q.accepted ++ [x], pending := q.pending ++ [x] }

def push (cap : ℕ) (x : β) (q : DropQueue β) : DropQueue β := (q.shed cap).enqueue x

def pop (k : ℕ) (q : DropQueue β) : DropQueue β :=
  { q with delivered := q.delivered ++ q.pending.take k, pending := q.pending.drop k }

/-- What holds between the histories and the pending elements. -/
structure Sound [DecidableEq β] (q : DropQueue β) : Prop where
  nodup : q.accepted.Nodup
  split : q.accepted.filter (· ∉ q.lost) = q.delivered ++ q.pending
  suffix : q.pending <:+ q.accepted
  lost_mem : ∀ y ∈ q.lost, y ∈ q.accepted
  count : q.accepted.length = q.delivered.length + q.pending.length + q.lost.length

/-! ### One lemma per change -/

variable [DecidableEq β]

theorem Sound.empty : (DropQueue.empty : DropQueue β).Sound := ⟨.nil, rfl, List.nil_suffix, by simp [DropQueue.empty], rfl⟩

theorem Sound.pop (h : q.Sound) (k : ℕ) : (q.pop k).Sound := by
  refine ⟨h.nodup, ?_, (List.drop_suffix k _).trans h.suffix, h.lost_mem, ?_⟩
  · rw [DropQueue.pop, List.append_assoc, List.take_append_drop]
    exact h.split
  · have hlen := congrArg List.length (List.take_append_drop k q.pending)
    rw [List.length_append] at hlen
    simp only [DropQueue.pop, List.length_append]
    have := h.count
    omega

/-- Losing `y` takes it, and nothing else, out of what is left. -/
theorem filter_lose {accepted lost d ys : List β} {y : β} (hnodup : accepted.Nodup)
    (h : accepted.filter (· ∉ lost) = d ++ y :: ys) :
    accepted.filter (· ∉ lost ++ [y]) = d ++ ys := by
  have hleft : (d ++ y :: ys).Nodup := h ▸ hnodup.filter _
  obtain ⟨-, hys, hdisj⟩ := List.nodup_append.mp hleft
  have hd : y ∉ d := fun hd => hdisj y hd y List.mem_cons_self rfl
  have hfilter : accepted.filter (· ∉ lost ++ [y]) =
      (accepted.filter (· ∉ lost)).filter (· ≠ y) := by
    rw [List.filter_filter]
    refine List.filter_congr fun z _ => ?_
    simp [and_comm]
  rw [hfilter, h, List.filter_append, List.filter_cons_of_neg (by simp)]
  congr 1
  · exact List.filter_eq_self.mpr fun z hz => by simpa using fun he : z = y => hd (he ▸ hz)
  · exact List.filter_eq_self.mpr fun z hz => by
      simpa using fun he : z = y => (List.nodup_cons.mp hys).1 (he ▸ hz)

/-- Losing the oldest pending element. -/
theorem Sound.shed (h : q.Sound) (cap : ℕ) : (q.shed cap).Sound := by
  rw [DropQueue.shed]
  split
  · refine ⟨h.nodup, ?_, (List.drop_suffix 1 _).trans h.suffix, ?_, ?_⟩
    · rcases hp : q.pending with _ | ⟨y, ys⟩
      · simpa [hp] using h.split
      · exact filter_lose h.nodup (hp ▸ h.split)
    · intro y hy
      rcases List.mem_append.mp hy with hy | hy
      · exact h.lost_mem y hy
      · exact h.suffix.subset (List.mem_of_mem_take hy)
    · have hlen := congrArg List.length (List.take_append_drop 1 q.pending)
      rw [List.length_append] at hlen
      simp only [List.length_append]
      have := h.count
      omega
  · exact h

/-- A new element is appended to the accepted and the pending ones. -/
theorem Sound.enqueue (h : q.Sound) (hx : x ∉ q.accepted) : (q.enqueue x).Sound := by
  have hl : x ∉ q.lost := fun hl => hx (h.lost_mem x hl)
  refine ⟨?_, ?_, ?_, fun y hy => List.mem_append_left _ (h.lost_mem y hy), ?_⟩
  · exact List.nodup_append.mpr ⟨h.nodup, List.nodup_singleton x,
      fun a ha b hb hab => hx (List.mem_singleton.mp hb ▸ hab ▸ ha)⟩
  · change (q.accepted ++ [x]).filter (· ∉ q.lost) = q.delivered ++ (q.pending ++ [x])
    rw [List.filter_append, h.split, List.append_assoc, List.filter_cons_of_pos (by simpa using hl),
      List.filter_nil]
  · obtain ⟨pre, hpre⟩ := h.suffix
    exact ⟨pre, by simp only [DropQueue.enqueue, ← hpre, List.append_assoc]⟩
  · simp only [DropQueue.enqueue, List.length_append, List.length_singleton]
    have := h.count
    omega

theorem Sound.push (h : q.Sound) (cap : ℕ) (hx : x ∉ q.accepted) : (q.push cap x).Sound := by
  refine (h.shed cap).enqueue ?_
  rw [DropQueue.shed]
  split
  · exact hx
  · exact hx

end DropQueue
