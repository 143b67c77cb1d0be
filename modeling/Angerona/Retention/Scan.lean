import Mathlib
import Angerona.Retention.Cleanup

/-!
    What a scan knows of the part of the directory that it has read.

    Its totals are those of the entries it read and that are still there, and its heap has the archives
    among them that may be deleted, but for some others. While the scan has deleted nothing these
    others are no older than what is in the heap. -/

namespace Angerona.Retention
open Text BoundedHeap

variable {T : Type} [LinearOrder T]

/-! ### The order of the candidates -/

instance : Std.Total (Older (T := T)) where
  total a b := by
    rcases lt_trichotomy a.stamp b.stamp with h | h | h
    · exact Or.inl (Or.inl h)
    · rcases le_total b.name a.name with hname | hname
      · exact Or.inl (Or.inr ⟨h, hname⟩)
      · exact Or.inr (Or.inr ⟨h.symm, hname⟩)
    · exact Or.inr (Or.inl h)

instance : IsTrans (File T) Older where
  trans a b c := by
    rintro (hab | ⟨hab, hname⟩) (hbc | ⟨hbc, hname'⟩)
    · exact Or.inl (hab.trans hbc)
    · exact Or.inl (hbc ▸ hab)
    · exact Or.inl (hab ▸ hbc)
    · exact Or.inr ⟨hab.trans hbc, hname'.trans hname⟩

theorem Older.stamp_le {a b : File T} (h : Older a b) : a.stamp ≤ b.stamp := by
  rcases h with h | h
  · exact h.le
  · exact h.1.le

/-! ### What is read -/

/-- The active log or an archive. -/
def managedName (name : Str) : Bool := name = activeName || isArchive name

/-- An archive that may be deleted. -/
def eligible (files : List (File T)) (f : File T) : Bool :=
  isArchive f.name && f.plain && !pinned files f

/-- The totals of some entries. -/
def totalsOf (files entries : List (File T)) : Totals where
  managedBytes := ((entries.filter fun f => managedName f.name && f.plain).map File.size).sum
  pinnedFiles := entries.countP fun f => isArchive f.name && f.plain && pinned files f
  unsafeFiles := entries.countP fun f => managedName f.name && !f.plain
  archives := entries.countP fun f => isArchive f.name && f.plain

omit [LinearOrder T] in
theorem totalsOf_perm (files : List (File T)) {entries entries' : List (File T)} (h : entries.Perm entries') :
    totalsOf files entries = totalsOf files entries' := by
  rw [totalsOf, totalsOf, h.countP_eq, h.countP_eq, h.countP_eq, ((h.filter _).map _).sum_eq]

theorem isArchive_activeName : isArchive activeName = false := by decide +kernel

/-- Reading an entry pushes it, if it may be deleted. -/
theorem inventory_heap (files : List (File T)) (cursor : Cursor T) (f : File T) :
    (cursor.inventory files f).heap =
      if eligible files f then push Older maxDeletions cursor.heap f else cursor.heap := by
  rw [Cursor.inventory, eligible]
  by_cases hactive : f.name = activeName
  · rw [hactive, isArchive_activeName]
    cases f.plain <;> simp
  · cases isArchive f.name <;> cases f.plain <;> cases pinned files f <;> simp [hactive]

theorem inventory_iterator (files : List (File T)) (cursor : Cursor T) (f : File T) :
    (cursor.inventory files f).iterator = cursor.iterator := by
  rw [Cursor.inventory]
  dsimp only
  split_ifs <;> rfl

/-- Reading an entry counts it. -/
theorem inventory_totals {files seen : List (File T)} {cursor : Cursor T}
    (h : cursor.totals = totalsOf files seen) (f : File T) :
    (cursor.inventory files f).totals = totalsOf files (seen ++ [f]) := by
  rw [Cursor.inventory]
  by_cases hactive : f.name = activeName
  · cases hplain : f.plain <;>
      simp [h, totalsOf, managedName, hactive, isArchive_activeName, hplain]
  · cases harchive : isArchive f.name <;> cases hplain : f.plain <;>
      cases hpinned : pinned files f <;>
        simp [h, totalsOf, managedName, hactive, harchive, hplain, hpinned]

/-- The totals and the heap are those of what was read, but for some others. -/
structure Scanned (files : List (File T)) (cursor : Cursor T) (seen others : List (File T)) :
    Prop where
  totals : cursor.totals = totalsOf files seen
  split : Split Older maxDeletions cursor.heap (seen.filter (eligible files)) others

theorem foldl_inventory (files : List (File T)) (entries : List (File T)) :
    ∀ (cursor : Cursor T) (seen : List (File T)), cursor.totals = totalsOf files seen →
      (entries.foldl (Cursor.inventory files) cursor).totals = totalsOf files (seen ++ entries) ∧
        (entries.foldl (Cursor.inventory files) cursor).heap =
          (entries.filter (eligible files)).foldl (push Older maxDeletions) cursor.heap ∧
        (entries.foldl (Cursor.inventory files) cursor).iterator = cursor.iterator := by
  induction entries with
  | nil => exact fun cursor seen h => ⟨by rw [List.append_nil]; exact h, rfl, rfl⟩
  | cons f entries ih =>
    intro cursor seen h
    obtain ⟨htotals, hheap, hiterator⟩ := ih _ _ (inventory_totals h f)
    rw [List.foldl_cons, hheap, hiterator, inventory_iterator, inventory_heap]
    refine ⟨by rw [htotals, List.append_assoc, List.singleton_append], ?_, rfl⟩
    by_cases hf : eligible files f = true
    · rw [if_pos hf, List.filter_cons_of_pos hf, List.foldl_cons]
    · rw [if_neg hf, List.filter_cons_of_neg hf]

/-- Reading more entries. -/
theorem Scanned.read {files seen others : List (File T)} {cursor : Cursor T}
    (h : Scanned files cursor seen others) (entries : List (File T)) :
    ∃ others', Scanned files (entries.foldl (Cursor.inventory files) cursor) (seen ++ entries) others' ∧
      (First Older maxDeletions cursor.heap others →
        First Older maxDeletions (entries.foldl (Cursor.inventory files) cursor).heap others') := by
  obtain ⟨htotals, hheap, -⟩ := foldl_inventory files entries _ _ h.totals
  obtain ⟨others', hsplit, hfirst⟩ :=
    h.split.foldl (by decide) (entries.filter (eligible files))
  rw [hheap]
  refine ⟨others', ⟨htotals, ?_⟩, hfirst⟩
  rw [hheap]
  refine ⟨?_, hsplit.sorted, hsplit.length, hsplit.omitted⟩
  refine List.Perm.trans ?_ hsplit.perm
  rw [List.filter_append]
  exact List.perm_append_comm.trans ((List.reverse_perm _).symm.append_right _)

/-! ### What is deleted -/

section Prune

variable {cutoff : T} {exhausted : Bool} {limit : ℕ}

theorem prune_perm (cs : List (File T)) : ∀ managed count,
    ((prune cutoff exhausted limit cs managed count).deleted ++
      (prune cutoff exhausted limit cs managed count).left).Perm cs := by
  induction cs with
  | nil => exact fun _ _ => List.Perm.refl _
  | cons c cs ih =>
    intro managed count
    rw [prune]
    split
    · exact List.perm_middle.trans ((ih managed count).cons c)
    · split
      · exact List.Perm.refl _
      · exact (ih _ _).cons c

theorem prune_left_sublist (cs : List (File T)) : ∀ managed count,
    (prune cutoff exhausted limit cs managed count).left.Sublist cs := by
  induction cs with
  | nil => exact fun _ _ => List.Sublist.slnil
  | cons c cs ih =>
    intro managed count
    rw [prune]
    split
    · exact (ih managed count).cons_cons c
    · split
      · exact List.Sublist.refl _
      · exact (ih _ _).cons c

theorem prune_deleted_sublist (cs : List (File T)) : ∀ managed count,
    (prune cutoff exhausted limit cs managed count).deleted.Sublist cs := by
  induction cs with
  | nil => exact fun _ _ => List.Sublist.slnil
  | cons c cs ih =>
    intro managed count
    rw [prune]
    split
    · exact (ih managed count).cons c
    · split
      · exact List.nil_sublist _
      · exact (ih _ _).cons_cons c

/-- The bytes go down by what is deleted. -/
theorem prune_managedBytes (cs : List (File T)) : ∀ managed count,
    (prune cutoff exhausted limit cs managed count).managedBytes =
      managed - ((prune cutoff exhausted limit cs managed count).deleted.map File.size).sum := by
  induction cs with
  | nil => exact fun _ _ => rfl
  | cons c cs ih =>
    intro managed count
    rw [prune]
    split
    · exact ih managed count
    · split
      · rfl
      · dsimp only
        rw [ih, List.map_cons, List.sum_cons, Nat.sub_sub]

/-- An archive is deleted because of its age, or because of the bytes once the scan is complete. -/
theorem prune_reason (cs : List (File T)) : ∀ managed count before c after,
    (prune cutoff exhausted limit cs managed count).deleted = before ++ c :: after →
      c.stamp < cutoff ∨ (exhausted = true ∧ limit < managed - (before.map File.size).sum) := by
  induction cs with
  | nil => exact fun _ _ before c after h => absurd h (by simp [prune])
  | cons d cs ih =>
    intro managed count before c after h
    rw [prune] at h
    split at h
    · exact ih managed count before c after h
    · rename_i hreason
      split at h
      · simp at h
      · rcases before with _ | ⟨e, before⟩
        · obtain ⟨rfl, -⟩ := List.cons.inj h
          rw [not_and_or, not_or, not_le, not_le] at hreason
          rcases hreason with hreason | ⟨hexhausted, hlimit⟩
          · exact Or.inl hreason
          · exact Or.inr ⟨by simpa using hexhausted, by simpa using hlimit⟩
        · obtain ⟨rfl, hrest⟩ := List.cons.inj h
          rw [List.map_cons, List.sum_cons, ← Nat.sub_sub]
          exact ih _ _ before c after hrest

/-- After an archive is kept no other is deleted, so what is deleted is older than what is left. -/
theorem prune_first {cs : List (File T)} (hsorted : cs.Pairwise Older) : ∀ managed count,
    ∀ d ∈ (prune cutoff exhausted limit cs managed count).deleted,
      ∀ l ∈ (prune cutoff exhausted limit cs managed count).left, Older d l := by
  induction cs with
  | nil => exact fun _ _ d hd => absurd hd List.not_mem_nil
  | cons c cs ih =>
    intro managed count
    obtain ⟨hc, hcs⟩ := List.pairwise_cons.mp hsorted
    rw [prune]
    split
    · rename_i hkept
      have hnone : ∀ (cs : List (File T)), (∀ a ∈ cs, Older c a) →
          (prune cutoff exhausted limit cs managed count).deleted = [] := by
        intro cs hcs
        induction cs with
        | nil => rfl
        | cons a cs ih =>
          have ha := (hcs a List.mem_cons_self).stamp_le
          rw [prune, if_pos ⟨hkept.1.trans ha, hkept.2⟩]
          exact ih fun b hb => hcs b (List.mem_cons_of_mem _ hb)
      intro d hd
      rw [show (prune cutoff exhausted limit cs managed count).deleted = [] from hnone cs hc] at hd
      exact absurd hd List.not_mem_nil
    · split
      · exact fun d hd => absurd hd List.not_mem_nil
      · intro d hd l hl
        rcases List.mem_cons.mp hd with rfl | hd
        · exact hc l ((prune_left_sublist cs _ _).subset hl)
        · exact ih hcs _ _ d hd l hl

/-- Unless the loop broke off, what is left is not too old. -/
theorem prune_left (cs : List (File T)) : ∀ managed count,
    (prune cutoff exhausted limit cs managed count).stopped = false →
      ∀ l ∈ (prune cutoff exhausted limit cs managed count).left, cutoff ≤ l.stamp := by
  induction cs with
  | nil => exact fun _ _ _ l hl => absurd hl List.not_mem_nil
  | cons c cs ih =>
    intro managed count hstopped
    rw [prune] at hstopped ⊢
    split at hstopped
    · rename_i hkept
      rw [if_pos hkept]
      intro l hl
      rcases List.mem_cons.mp hl with rfl | hl
      · exact hkept.1
      · exact ih _ _ hstopped l hl
    · rename_i hkept
      split at hstopped
      · cases hstopped
      · rename_i hcount
        rw [if_neg hkept, if_neg hcount]
        exact ih _ _ hstopped

/-- Archives that are all too old are all deleted while there is room for it. -/
theorem prune_all {cs : List (File T)} (hold : ∀ c ∈ cs, c.stamp < cutoff) : ∀ managed count,
    count + cs.length ≤ maxDeletions → prune cutoff exhausted limit cs managed count =
      ⟨cs, [], managed - (cs.map File.size).sum, false⟩ := by
  induction cs with
  | nil => exact fun _ _ _ => rfl
  | cons c cs ih =>
    intro managed count hroom
    rw [List.length_cons] at hroom
    have hc := not_le.mpr (hold c List.mem_cons_self)
    rw [prune, if_neg fun h => hc h.1, if_neg (by omega),
      ih (fun d hd => hold d (List.mem_cons_of_mem _ hd)) _ _ (by omega)]
    simp [Nat.sub_sub]

end Prune

end Angerona.Retention
