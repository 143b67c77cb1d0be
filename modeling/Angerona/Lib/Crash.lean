import Angerona.Lib.Effect
import Mathlib.Data.Nat.Notation

/-!
    Programs that a crash can cut between two durable steps.

    A machine has a disk, which outlives a crash, and a memory, which does not. A durable step
    changes the disk as a whole. The schedule says after how many durable steps the crash comes.

    `Survives I m Q s`: `m`, run from `s`, ends as `Q` says, or is cut while the disk satisfies `I`.
    Where no crash is scheduled, the program ends. -/

namespace Crash
open Effect

/-- Why a program stopped. -/
inductive Stop (ε : Type) where
  | crash
  | raised (e : ε)

structure Machine (D M : Type) where
  disk : D
  memory : M
  /-- The durable steps that are left before the crash, if there is one. -/
  left : Option ℕ

abbrev Program (ε D M : Type) : Type → Type := Effect (Stop ε) (Machine D M)

section Steps

variable {ε D M α β : Type}

def disk : Program ε D M D := fun s => (.ok s.disk, s)

def memory : Program ε D M M := fun s => (.ok s.memory, s)

def remember (g : M → M) : Program ε D M Unit := modify fun s => { s with memory := g s.memory }

/-- The machine after a durable step. -/
def Machine.write (f : D → D) (s : Machine D M) : Machine D M :=
  { s with disk := f s.disk, left := s.left.map (· - 1) }

/-- A durable step, unless the crash comes first. -/
def durable (f : D → D) : Program ε D M Unit := fun s =>
  if s.left = some 0 then (.error .crash, s) else (.ok (), s.write f)

def require (p : Prop) [Decidable p] (e : ε) : Program ε D M Unit := check p (.raised e)

/-- The value that is there, or a raise. -/
def obtain? (o : Option α) (e : ε) : Program ε D M α := demand o (.raised e)

/-- The value of a computation that needs no machine. -/
def compute (r : Except ε α) : Program ε D M α := lift (r.mapError .raised)

end Steps

section Rules

variable {ε D M α β : Type} {I : D → Prop} {m : Program ε D M α} {f : α → Program ε D M β}
  {Q : α → Machine D M → Prop} {R : β → Machine D M → Prop} {s : Machine D M}

/-- `m` ends as `Q` says, or is cut where the disk satisfies `I`. -/
def Survives (I : D → Prop) (m : Program ε D M α) (Q : α → Machine D M → Prop) (s : Machine D M) :
    Prop :=
  wp m (fun a t => Q a t ∧ (s.left = none → t.left = none))
    (fun e t => e = .crash ∧ s.left ≠ none ∧ I t.disk) s

theorem Survives.mono {Q' : α → Machine D M → Prop} (h : Survives I m Q s)
    (himp : ∀ a t, Q a t → Q' a t) : Survives I m Q' s :=
  wp_mono h (fun a t ht => ⟨himp a t ht.1, ht.2⟩) fun _ _ ht => ht

theorem survives_pure {a : α} (h : Q a s) : Survives I (pure a : Program ε D M α) Q s :=
  wp_pure.mpr ⟨h, id⟩

/-- One program after the other; a crash that is not scheduled for the first is not for the second. -/
theorem Survives.bind (h : Survives I m (fun a t => Survives I (f a) R t) s) :
    Survives I (m >>= f) R s := by
  refine wp_bind.mpr (wp_mono h (fun a t ht => ?_) fun _ _ ht => ht)
  exact wp_mono ht.1 (fun b u hu => ⟨hu.1, fun hs => hu.2 (ht.2 hs)⟩)
    fun e u hu => ⟨hu.1, fun hs => hu.2.1 (ht.2 hs), hu.2.2⟩

theorem Survives.map {g : α → β} (h : Survives I m (fun a t => R (g a) t) s) :
    Survives I (g <$> m) R s :=
  (h.mono fun _ _ ht => survives_pure ht).bind

theorem survives_disk {f : D → Program ε D M β} (h : Survives I (f s.disk) R s) :
    Survives I (disk >>= f) R s :=
  wp_bind.mpr h

theorem survives_memory {f : M → Program ε D M β} (h : Survives I (f s.memory) R s) :
    Survives I (memory >>= f) R s :=
  wp_bind.mpr h

theorem survives_remember {g : M → M} {Q : Unit → Machine D M → Prop}
    (h : Q () { s with memory := g s.memory }) : Survives I (remember g : Program ε D M Unit) Q s :=
  wp_modify.mpr ⟨h, id⟩

/-- A durable step: if the crash comes before it, the disk is one that the program may be cut at. -/
theorem survives_durable {g : D → D} {Q : Unit → Machine D M → Prop}
    (hI : s.left = some 0 → I s.disk) (h : s.left ≠ some 0 → Q () (s.write g)) : Survives I (durable g : Program ε D M Unit) Q s := by
  rw [Survives, wp, durable]
  by_cases hs : s.left = some 0
  · rw [if_pos hs]
    refine ⟨rfl, ?_, hI hs⟩
    rw [hs]
    exact Option.some_ne_none 0
  · rw [if_neg hs]
    refine ⟨h hs, fun hn => ?_⟩
    simp [Machine.write, hn]

theorem survives_require {p : Prop} [Decidable p] {e : ε} {f : Unit → Program ε D M β} (hp : p)
    (h : Survives I (f ()) R s) : Survives I (require p e >>= f) R s :=
  wp_pass hp h

/-- A check that holds, at the end of a program. -/
theorem survives_required {p : Prop} [Decidable p] {e : ε} {Q : Unit → Machine D M → Prop} (hp : p)
    (h : Q () s) : Survives I (require p e : Program ε D M Unit) Q s :=
  wp_check.mpr ⟨fun _ => ⟨h, id⟩, fun hn => absurd hp hn⟩

theorem survives_obtain {o : Option α} {a : α} {e : ε} (ho : o = some a)
    (h : Survives I (f a) R s) : Survives I (obtain? o e >>= f) R s := by
  subst ho
  exact wp_bind.mpr h

theorem survives_compute {r : Except ε α} {a : α} (hr : r = .ok a) (h : Survives I (f a) R s) :
    Survives I (compute r >>= f) R s := by
  subst hr
  exact wp_bind.mpr h

/-- A program that is not cut returns. -/
theorem Survives.returns (h : Survives I m Q s) (hs : s.left = none) :
    ∃ a t, m s = (.ok a, t) ∧ Q a t := by
  rw [Survives, wp] at h
  rcases hm : m s with ⟨e | a, t⟩
  · rw [hm] at h
    exact absurd hs h.2.1
  · rw [hm] at h
    exact ⟨a, t, rfl, h.1⟩

/-- However the program ends, its disk is one that a crash can leave. -/
theorem Survives.outcome (h : Survives I m Q s) :
    (∃ a t, m s = (.ok a, t) ∧ Q a t) ∨ ∃ t, m s = (.error .crash, t) ∧ I t.disk := by
  rw [Survives, wp] at h
  rcases hm : m s with ⟨e | a, t⟩
  · rw [hm] at h
    obtain ⟨rfl, -, hI⟩ := h
    exact .inr ⟨t, rfl, hI⟩
  · rw [hm] at h
    exact .inl ⟨a, t, rfl, h.1⟩

/-! ### Programs that may refuse -/

variable {F : Machine D M → Prop}

/-- `m` ends as `Q` says, raises in a state that satisfies `F`, or is cut where the disk satisfies
    `I`. -/
def Ends (I : D → Prop) (F : Machine D M → Prop) (m : Program ε D M α)
    (Q : α → Machine D M → Prop) (s : Machine D M) : Prop :=
  wp m Q (fun e t => e = .crash ∧ I t.disk ∨ (∃ x, e = .raised x) ∧ F t) s

theorem Survives.ends (h : Survives I m Q s) : Ends I F m Q s :=
  wp_mono h (fun _ _ ht => ht.1) fun _ _ ht => .inl ⟨ht.1, ht.2.2⟩

theorem Ends.mono {F' : Machine D M → Prop} {Q' : α → Machine D M → Prop} (h : Ends I F m Q s)
    (hQ : ∀ a t, Q a t → Q' a t) (hF : ∀ t, F t → F' t) : Ends I F' m Q' s :=
  wp_mono h hQ fun _ t ht => ht.imp_right fun ht => ⟨ht.1, hF t ht.2⟩

theorem ends_pure {a : α} (h : Q a s) : Ends I F (pure a : Program ε D M α) Q s := wp_pure.mpr h

theorem Ends.bind (h : Ends I F m (fun a t => Ends I F (f a) R t) s) : Ends I F (m >>= f) R s :=
  wp_bind.mpr h

theorem ends_disk {f : D → Program ε D M β} (h : Ends I F (f s.disk) R s) :
    Ends I F (disk >>= f) R s :=
  wp_bind.mpr h

theorem ends_memory {f : M → Program ε D M β} (h : Ends I F (f s.memory) R s) :
    Ends I F (memory >>= f) R s :=
  wp_bind.mpr h

theorem ends_require {p : Prop} [Decidable p] {e : ε} {f : Unit → Program ε D M β}
    (hp : p → Ends I F (f ()) R s) (hn : ¬p → F s) : Ends I F (require p e >>= f) R s :=
  wp_bind.mpr (wp_check.mpr ⟨hp, fun h => .inr ⟨⟨e, rfl⟩, hn h⟩⟩)

/-- The three ends of a program. -/
theorem Ends.cases (h : Ends I F m Q s) : (∃ a t, m s = (.ok a, t) ∧ Q a t) ∨
    (∃ t, m s = (.error .crash, t) ∧ I t.disk) ∨ ∃ x t, m s = (.error (.raised x), t) ∧ F t := by
  rw [Ends, wp] at h
  rcases hm : m s with ⟨e | a, t⟩
  · rw [hm] at h
    rcases h with ⟨rfl, hI⟩ | ⟨⟨x, rfl⟩, hF⟩
    · exact .inr (.inl ⟨t, rfl, hI⟩)
    · exact .inr (.inr ⟨x, t, rfl, hF⟩)
  · rw [hm] at h
    exact .inl ⟨a, t, rfl, h⟩

end Rules

end Crash
