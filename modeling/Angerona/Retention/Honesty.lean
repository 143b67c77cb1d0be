import Mathlib
import Angerona.Lib.PyNumber
import Angerona.Retention.Scan

/-!
    What a cleanup deletes and what it reports, over every sequence of calls.

    Deletions and totals are always right. The verdict `clean` is right in a call whose scan has not
    both left out a candidate and deleted an archive before: the candidates that were left out are
    not looked at again in the scan, and the place that a deletion frees hides that they are missing. -/

namespace Angerona.Retention
open Text BoundedHeap

variable {T : Type} [LinearOrder T] {cutoff : T → ℕ → T} {w : World T} {call : Call T}

/-! ### The directory after deletions -/

/-- The names of a directory are different. -/
def Distinct (files : List (File T)) : Prop := (files.map File.name).Nodup

/-- What stays of some entries when archives are deleted. -/
def remaining (deleted entries : List (File T)) : List (File T) :=
  entries.filter fun f => deleted.all fun d => d.name ≠ f.name

/-- The name of an archive ends like the extension of a log. -/
theorem getLast?_archive {name : Str} (h : isArchive name = true) : name.getLast? = some 'g' := by
  rw [isArchive] at h
  split at h
  · rename_i first digits identifier last hparts
    have hlast : last = "log".toList := by
      simp only [Bool.and_eq_true, decide_eq_true_eq] at h
      exact h.2
    have hjoin : join ".".toList (splitOn ".".toList name) = name := join_splitOn (by decide) name
    rw [hparts, hlast] at hjoin
    rw [← hjoin]
    simp [join, List.intercalate, List.getLast?_cons, List.getLast?_append]
  · cases h

theorem not_archive_keep (name : Str) : isArchive (name ++ keepSuffix) = false := by
  by_contra h
  have hlast := getLast?_archive (Bool.eq_true_of_not_eq_false h)
  rw [List.getLast?_append] at hlast
  simp [keepSuffix] at hlast

omit [LinearOrder T] in
/-- A pin is never deleted. -/
theorem pinned_remaining {files deleted : List (File T)} (h : ∀ d ∈ deleted, isArchive d.name = true)
    (f : File T) : pinned (remaining deleted files) f = pinned files f := by
  rw [Bool.eq_iff_iff, pinned, pinned, List.any_eq_true, List.any_eq_true]
  constructor
  · rintro ⟨g, hg, hname⟩
    exact ⟨g, (List.mem_filter.mp hg).1, hname⟩
  · rintro ⟨g, hg, hname⟩
    refine ⟨g, List.mem_filter.mpr ⟨hg, List.all_eq_true.mpr fun d hd => ?_⟩, hname⟩
    have hd := h d hd
    rw [decide_eq_true_eq]
    intro he
    rw [he, of_decide_eq_true hname, not_archive_keep] at hd
    cases hd

omit [LinearOrder T] in
/-- Entries are what is deleted of them and what remains. -/
theorem perm_remaining {entries deleted : List (File T)} (hnames : Distinct entries)
    (hsub : deleted ⊆ entries) (hnodup : deleted.Nodup) :
    entries.Perm (deleted ++ remaining deleted entries) := by
  have hentries : entries.Nodup := hnames.of_map _
  have hdistinct : ∀ a ∈ entries, ∀ b ∈ entries, a.name = b.name → a = b :=
    List.inj_on_of_nodup_map hnames
  refine (List.perm_ext_iff_of_nodup hentries ?_).mpr fun a => ?_
  · rw [List.nodup_append]
    refine ⟨hnodup, hentries.filter _, fun a ha b hb he => ?_⟩
    have hne := List.all_eq_true.mp (List.mem_filter.mp hb).2 a ha
    rw [he] at hne
    simp at hne
  · rw [List.mem_append]
    constructor
    · intro ha
      by_cases hd : a ∈ deleted
      · exact Or.inl hd
      · refine Or.inr (List.mem_filter.mpr ⟨ha, List.all_eq_true.mpr fun d hdel => ?_⟩)
        rw [decide_eq_true_eq]
        intro he
        exact hd (hdistinct d (hsub hdel) a ha he ▸ hdel)
    · rintro (ha | ha)
      · exact hsub ha
      · exact (List.mem_filter.mp ha).1

omit [LinearOrder T] in
/-- The totals of what remains after archives are deleted. -/
theorem totalsOf_remaining {files entries deleted : List (File T)} (hnames : Distinct entries)
    (hsub : deleted ⊆ entries) (hnodup : deleted.Nodup)
    (heligible : ∀ d ∈ deleted, eligible files d = true) :
    totalsOf (remaining deleted files) (remaining deleted entries) =
      { totalsOf files entries with
        managedBytes := (totalsOf files entries).managedBytes - (deleted.map File.size).sum
        archives := (totalsOf files entries).archives - deleted.length } := by
  have hparts : ∀ d ∈ deleted, isArchive d.name = true ∧ d.plain = true ∧ pinned files d = false := by
    intro d hd
    have h := heligible d hd
    simp only [eligible, Bool.and_eq_true, Bool.not_eq_true'] at h
    exact ⟨h.1.1, h.1.2, h.2⟩
  have hpins : ∀ f : File T, pinned (remaining deleted files) f = pinned files f := fun f =>
    pinned_remaining (fun d hd => (hparts d hd).1) f
  rw [totalsOf_perm files (perm_remaining hnames hsub hnodup)]
  have hmanaged : deleted.filter (fun f => managedName f.name && f.plain) = deleted :=
    List.filter_eq_self.mpr fun d hd => by simp [managedName, hparts d hd]
  have hpinned : deleted.countP (fun f => isArchive f.name && f.plain && pinned files f) = 0 :=
    List.countP_eq_zero.mpr fun d hd => by simp [hparts d hd]
  have hunsafe : deleted.countP (fun f => managedName f.name && !f.plain) = 0 :=
    List.countP_eq_zero.mpr fun d hd => by simp [hparts d hd]
  have harchives : deleted.countP (fun f => isArchive f.name && f.plain) = deleted.length :=
    List.countP_eq_length.mpr fun d hd => by simp [hparts d hd]
  simp only [totalsOf, hpins, List.filter_append, List.map_append, List.sum_append, List.countP_append,
    hmanaged, hpinned, hunsafe, harchives, Nat.zero_add, Nat.add_sub_cancel_left]

/-! ### The cursor between calls -/

/-- An open scan has read some entries of the directory, and what it knows is about these. -/
structure World.Scans (w : World T) (entries : List (File T)) (cursor : Cursor T) (touched : Bool)
    (seen others : List (File T)) : Prop where
  perm : w.files.Perm (seen ++ entries)
  scanned : Scanned w.files cursor seen others
  first : touched = false → First Older maxDeletions cursor.heap others

/-- The invariant of a sequence of calls. -/
structure World.Valid (w : World T) : Prop where
  distinct : Distinct w.files
  scan : ∀ entries, w.cursor.iterator = some entries →
    ∃ seen others, w.Scans entries w.cursor w.touched seen others

/-- At the start of a call the scan is open. -/
theorem World.Valid.prepared (h : w.Valid) (call : Call T) :
    ∃ seen others, w.Scans (w.prepared call).entries (w.prepared call) w.wasTouched seen others := by
  rw [World.prepared, Cursor.prepare, World.wasTouched]
  cases hiterator : w.cursor.iterator with
  | none =>
    refine ⟨[], [], (call.lists w.files).symm, ⟨rfl, split_nil⟩, fun _ => first_nil _⟩
  | some entries =>
    obtain ⟨seen, others, hscans⟩ := h.scan entries hiterator
    refine ⟨seen, others, ?_, hscans.scanned, hscans.first⟩
    rw [Cursor.entries, hiterator]
    exact hscans.perm

/-- After its entries are read, the scan has read them. -/
theorem World.Valid.read (h : w.Valid) (call : Call T) :
    ∃ seen others, w.Scans ((w.prepared call).entries.drop maxEntries) (w.read call) w.wasTouched
      seen others := by
  obtain ⟨seen, others, hscans⟩ := h.prepared call
  obtain ⟨others', hscanned, hfirst⟩ :=
    hscans.scanned.read ((w.prepared call).entries.take maxEntries)
  refine ⟨_, others', ?_, hscanned, fun ht => hfirst (hscans.first ht)⟩
  rw [List.append_assoc, List.take_append_drop]
  exact hscans.perm

section Deletion

variable {entries seen others : List (File T)} {cursor : Cursor T} {touched : Bool}

theorem World.Scans.distinct (hs : w.Scans entries cursor touched seen others)
    (h : Distinct w.files) : Distinct (seen ++ entries) := (hs.perm.map _).nodup_iff.mp h

/-- What is in the heap was read and may be deleted. -/
theorem World.Scans.kept (hs : w.Scans entries cursor touched seen others) :
    ∀ f ∈ cursor.heap.kept, f ∈ seen ∧ eligible w.files f = true := fun _ hf =>
  List.mem_filter.mp (hs.scanned.split.perm.mem_iff.mpr (List.mem_append_left _ hf))

theorem World.Scans.nodup_kept (hs : w.Scans entries cursor touched seen others)
    (h : Distinct w.files) : cursor.heap.kept.Nodup := by
  have hseen : (seen.filter (eligible w.files)).Nodup :=
    (((List.nodup_append.mp (hs.distinct h).of_map).1)).filter _
  exact (List.nodup_append.mp (hs.scanned.split.perm.nodup_iff.mp hseen)).1

/-- Deleting from the heap is deleting from what was read. -/
theorem World.Scans.delete (hs : w.Scans entries cursor touched seen others)
    (h : Distinct w.files) {deleted left : List (File T)}
    (hperm : (deleted ++ left).Perm cursor.heap.kept) (hleft : left.Sublist cursor.heap.kept)
    {w' : World T} (hfiles : w'.files = remaining deleted w.files) {cursor' : Cursor T}
    (hheap : cursor'.heap = ⟨left, cursor.heap.omitted⟩)
    (htotals : cursor'.totals =
      { cursor.totals with
        managedBytes := cursor.totals.managedBytes - (deleted.map File.size).sum
        archives := cursor.totals.archives - deleted.length }) :
    w'.Scans entries cursor' (touched || !deleted.isEmpty) (remaining deleted seen) others := by
  have hdeleted : ∀ d ∈ deleted, d ∈ seen ∧ eligible w.files d = true := fun d hd =>
    hs.kept d (hperm.mem_iff.mp (List.mem_append_left _ hd))
  have hnodup : deleted.Nodup :=
    (List.nodup_append.mp (hperm.nodup_iff.mpr (hs.nodup_kept h))).1
  have hboth := hs.distinct h
  have hseen : Distinct seen := by
    rw [Distinct, List.map_append] at hboth
    exact (List.nodup_append.mp hboth).1
  have hrest : remaining deleted entries = entries := by
    refine List.filter_eq_self.mpr fun f hf => List.all_eq_true.mpr fun d hd => ?_
    rw [Distinct, List.map_append, List.nodup_append] at hboth
    rw [decide_eq_true_eq]
    exact hboth.2.2 _ (List.mem_map_of_mem (hdeleted d hd).1) _ (List.mem_map_of_mem hf)
  have hpins : ∀ f : File T, pinned (remaining deleted w.files) f = pinned w.files f := by
    refine pinned_remaining fun d hd => ?_
    have hd := (hdeleted d hd).2
    simp only [eligible, Bool.and_eq_true] at hd
    exact hd.1.1
  have heligible : eligible w'.files = eligible w.files := by
    funext f
    rw [eligible, eligible, hfiles, hpins]
  refine ⟨?_, ⟨?_, ?_⟩, fun htouched => ?_⟩
  · rw [hfiles]
    have hfilter := hs.perm.filter fun f => deleted.all fun d => d.name ≠ f.name
    rw [List.filter_append] at hfilter
    rw [← hrest]
    exact hfilter
  · rw [htotals, hs.scanned.totals, hfiles,
      totalsOf_remaining hseen (fun d hd => (hdeleted d hd).1) hnodup fun d hd => (hdeleted d hd).2]
  · rw [hheap, heligible]
    refine ⟨?_, hs.scanned.split.sorted.sublist hleft, hleft.length_le.trans hs.scanned.split.length,
      hs.scanned.split.omitted⟩
    have hall : deleted.filter (eligible w.files) = deleted :=
      List.filter_eq_self.mpr fun d hd => (hdeleted d hd).2
    have hsplit := ((perm_remaining hseen (fun d hd => (hdeleted d hd).1) hnodup).filter
      (eligible w.files)).symm.trans hs.scanned.split.perm
    rw [List.filter_append, hall] at hsplit
    refine (List.perm_append_left_iff deleted).mp (hsplit.trans ?_)
    rw [← List.append_assoc]
    exact hperm.symm.append_right others
  · obtain ⟨hbefore, hnone⟩ := Bool.or_eq_false_iff.mp htouched
    have hnone : deleted = [] := by simpa using hnone
    subst hnone
    have hsame : left = cursor.heap.kept :=
      hleft.eq_of_length (by simpa using hperm.length_eq)
    rw [hheap, hsame]
    exact hs.first hbefore

end Deletion

variable (cutoff) in
/-- The directory after an enabled call, and what its scan knows. -/
theorem World.Valid.scanned (h : w.Valid) (henabled : call.policy.enabled = true) :
    ∃ seen others,
      w.Scans ((w.prepared call).entries.drop maxEntries) (w.read call) w.wasTouched seen others ∧
      (cleanup cutoff w call).1.Scans ((w.prepared call).entries.drop maxEntries)
        (cleanup cutoff w call).1.cursor (cleanup cutoff w call).1.touched
        (remaining (w.pruned cutoff call).deleted seen) others := by
  obtain ⟨seen, others, hscans⟩ := h.read call
  refine ⟨seen, others, hscans, ?_⟩
  have hperm : ((w.pruned cutoff call).deleted ++ (w.pruned cutoff call).left).Perm
      (w.read call).heap.kept := prune_perm _ _ _
  rw [cleanup, henabled]
  refine hscans.delete h.distinct hperm (prune_left_sublist _ _ _) rfl rfl ?_
  have hbytes : (w.pruned cutoff call).managedBytes = (w.read call).totals.managedBytes -
      ((w.pruned cutoff call).deleted.map File.size).sum := prune_managedBytes _ _ _
  simp [hbytes]

theorem World.Valid.cleanup (h : w.Valid) (call : Call T) : (cleanup cutoff w call).1.Valid := by
  cases henabled : call.policy.enabled with
  | false =>
    rw [Retention.cleanup, henabled]
    exact ⟨h.distinct, fun entries he => by cases he⟩
  | true =>
    obtain ⟨seen, others, -, hscans⟩ := h.scanned cutoff henabled
    have hfiles : (Retention.cleanup cutoff w call).1.files =
        remaining (w.pruned cutoff call).deleted w.files := by
      rw [Retention.cleanup, henabled]
      rfl
    have hiterator : (Retention.cleanup cutoff w call).1.cursor.iterator =
        if w.exhausted call then none else some ((w.prepared call).entries.drop maxEntries) := by
      rw [Retention.cleanup, henabled]
      rfl
    refine ⟨?_, fun entries he => ?_⟩
    · rw [hfiles]
      exact h.distinct.sublist (List.filter_sublist.map _)
    · rw [hiterator] at he
      split at he
      · cases he
      · obtain rfl := Option.some.inj he
        exact ⟨_, others, hscans⟩

theorem valid_run (cutoff : T → ℕ → T) {files : List (File T)} (hdistinct : Distinct files)
    (calls : List (Call T)) : (run cutoff files calls).Valid := by
  induction calls using List.reverseRecOn with
  | nil => exact ⟨hdistinct, fun entries he => by cases he⟩
  | append_singleton calls call ih =>
    rw [run, List.foldl_concat]
    exact ih.cleanup call

/-! ### Verdicts -/

/-- The scan deleted nothing before a call, or has left out no candidate when the call has read its
    entries. -/
def Sound (w : World T) (call : Call T) : Prop :=
  w.wasTouched = false ∨ ((w.prepared call).heap.omitted = false ∧
    (w.prepared call).heap.kept.length +
      ((w.prepared call).entries.take maxEntries).countP (eligible w.files) ≤ maxDeletions)

/-- In a sound call everything that was left out is no older than the heap, which is then full. -/
theorem Sound.first {entries seen others : List (File T)} (h : Sound w call) (hvalid : w.Valid)
    (hs : w.Scans entries (w.read call) w.wasTouched seen others) :
    First Older maxDeletions (w.read call).heap others := by
  rcases h with htouched | ⟨homitted, hroom⟩
  · exact hs.first htouched
  · obtain ⟨seen', others', hprepared⟩ := hvalid.prepared call
    have hheap := (foldl_inventory w.files ((w.prepared call).entries.take maxEntries) _ _
      hprepared.scanned.totals).2.1
    have hnone : (w.read call).heap.omitted = false := by
      rw [World.read, hheap]
      refine omitted_foldl _ homitted ?_
      rwa [← List.countP_eq_length_filter]
    rw [hs.scanned.split.omitted hnone]
    exact first_nil _

/-- What is left of an inventory that is complete is in the heap or was left out. -/
theorem mem_left_or_others {w' : World T} {cursor : Cursor T} {touched : Bool}
    {seen others : List (File T)} (hs : w'.Scans [] cursor touched seen others) {g : File T}
    (hg : g ∈ w'.files) (heligible : eligible w'.files g = true) :
    g ∈ cursor.heap.kept ∨ g ∈ others := by
  have hseen : g ∈ seen := by
    have hmem := hs.perm.mem_iff.mp hg
    rwa [List.append_nil] at hmem
  exact List.mem_append.mp (hs.scanned.split.perm.mem_iff.mp (List.mem_filter.mpr ⟨hseen, heligible⟩))

omit [LinearOrder T] in
/-- A scan whose iterator ended has read the whole directory. -/
theorem drop_of_exhausted (hexhausted : w.exhausted call = true) :
    (w.prepared call).entries.drop maxEntries = [] :=
  List.drop_eq_nil_of_le (of_decide_eq_true hexhausted).le

section Enabled

variable (hvalid : w.Valid) (henabled : call.policy.enabled = true)

include henabled

theorem files_cleanup : (cleanup cutoff w call).1.files =
    remaining (w.pruned cutoff call).deleted w.files := by
  rw [cleanup, henabled]
  rfl

theorem report_cleanup :
    (cleanup cutoff w call).2.deleted = (w.pruned cutoff call).deleted ∧
      (cleanup cutoff w call).2.exhausted = w.exhausted call ∧
      (cleanup cutoff w call).2.totals = (cleanup cutoff w call).1.cursor.totals ∧
      (cleanup cutoff w call).1.cursor.heap =
        ⟨(w.pruned cutoff call).left, (w.read call).heap.omitted⟩ := by
  rw [cleanup, henabled]
  exact ⟨rfl, rfl, rfl, rfl⟩

theorem status_cleanup : (cleanup cutoff w call).2.status =
    if decide (call.policy.limit < (w.pruned cutoff call).managedBytes) = true then .quotaPressure
    else if ((!w.exhausted call || (w.pruned cutoff call).stopped ||
        ((w.read call).heap.omitted && decide (maxDeletions ≤ (w.pruned cutoff call).deleted.length)))
          || decide (0 < (w.read call).totals.unsafeFiles)) = true then .incomplete
    else .clean := by
  rw [cleanup, henabled]
  rfl

/-- What a clean report says. -/
theorem clean_cleanup (hclean : (cleanup cutoff w call).2.status = .clean) :
    w.exhausted call = true ∧ (w.pruned cutoff call).stopped = false ∧
      ((w.read call).heap.omitted = true → (w.pruned cutoff call).deleted.length < maxDeletions) ∧
      (cleanup cutoff w call).2.totals.unsafeFiles = 0 ∧
      (cleanup cutoff w call).2.totals.managedBytes ≤ call.policy.limit := by
  have htotals : (cleanup cutoff w call).2.totals.unsafeFiles = (w.read call).totals.unsafeFiles ∧
      (cleanup cutoff w call).2.totals.managedBytes = (w.pruned cutoff call).managedBytes := by
    rw [cleanup, henabled]
    exact ⟨rfl, rfl⟩
  rw [htotals.1, htotals.2]
  rw [status_cleanup henabled] at hclean
  by_cases hpressure : call.policy.limit < (w.pruned cutoff call).managedBytes
  · rw [if_pos (decide_eq_true hpressure)] at hclean
    cases hclean
  · rw [if_neg (by simpa using hpressure)] at hclean
    split at hclean
    · cases hclean
    · rename_i hincomplete
      simp only [Bool.or_eq_true, Bool.and_eq_true, Bool.not_eq_true', decide_eq_true_eq, not_or,
        not_and, not_le, Bool.not_eq_true, Bool.not_eq_false, not_lt, Nat.le_zero_eq] at hincomplete
      exact ⟨hincomplete.1.1.1, hincomplete.1.1.2, hincomplete.1.2, hincomplete.2, not_lt.mp hpressure⟩

include hvalid

/-- What is gone was in the heap. -/
theorem eligible_of_gone {f : File T} (hf : f ∈ w.files)
    (hgone : f ∉ (cleanup cutoff w call).1.files) :
    eligible w.files f = true ∧ f ∈ (cleanup cutoff w call).2.deleted := by
  obtain ⟨seen, others, hread, -⟩ := hvalid.scanned cutoff henabled
  rw [files_cleanup henabled, remaining, List.mem_filter, not_and] at hgone
  obtain ⟨d, hd, hname⟩ : ∃ d ∈ (w.pruned cutoff call).deleted, d.name = f.name := by
    by_contra hnone
    refine hgone hf (List.all_eq_true.mpr fun d hd => ?_)
    rw [decide_eq_true_eq]
    exact fun he => hnone ⟨d, hd, he⟩
  obtain ⟨hseen, heligible⟩ := hread.kept d ((prune_deleted_sublist _ _ _).subset hd)
  have hsame : d = f := List.inj_on_of_nodup_map hvalid.distinct
    (hread.perm.mem_iff.mpr (List.mem_append_left _ hseen)) hf hname
  subst hsame
  rw [(report_cleanup henabled).1]
  exact ⟨heligible, hd⟩

theorem reason_cleanup {before rest : List (File T)} {d : File T}
    (hdeleted : (cleanup cutoff w call).2.deleted = before ++ d :: rest) :
    d.stamp < cutoff call.now call.policy.days ∨
      ((cleanup cutoff w call).2.exhausted = true ∧ call.policy.limit <
        (totalsOf w.files w.files).managedBytes - (before.map File.size).sum) := by
  obtain ⟨seen, others, hread, -⟩ := hvalid.scanned cutoff henabled
  rw [(report_cleanup henabled).1] at hdeleted
  refine (prune_reason _ _ _ before d rest hdeleted).imp_right ?_
  rintro ⟨hexhausted, hlimit⟩
  rw [(report_cleanup henabled).2.1]
  refine ⟨hexhausted, ?_⟩
  have hperm := hread.perm
  rw [drop_of_exhausted hexhausted, List.append_nil] at hperm
  rwa [totalsOf_perm _ hperm, ← hread.scanned.totals]

variable (cutoff) in
theorem totals_cleanup (hexhausted : (cleanup cutoff w call).2.exhausted = true) :
    (cleanup cutoff w call).2.totals =
      totalsOf (cleanup cutoff w call).1.files (cleanup cutoff w call).1.files := by
  obtain ⟨seen, others, -, hscans⟩ := hvalid.scanned cutoff henabled
  rw [(report_cleanup henabled).2.1] at hexhausted
  have hperm := hscans.perm
  rw [drop_of_exhausted hexhausted, List.append_nil] at hperm
  rw [(report_cleanup henabled).2.2.1, totalsOf_perm _ hperm]
  exact hscans.scanned.totals

/-- In a sound call that completes the inventory, what is deleted is older than what may be deleted
    and is still there. -/
theorem oldest_cleanup (hsound : Sound w call) (hexhausted : (cleanup cutoff w call).2.exhausted = true)
    {d g : File T} (hd : d ∈ (cleanup cutoff w call).2.deleted)
    (hg : g ∈ (cleanup cutoff w call).1.files)
    (heligible : eligible (cleanup cutoff w call).1.files g = true) : d.stamp ≤ g.stamp := by
  obtain ⟨seen, others, hread, hscans⟩ := hvalid.scanned cutoff henabled
  have hfirst := hsound.first hvalid hread
  rw [(report_cleanup henabled).1] at hd
  rw [(report_cleanup henabled).2.1] at hexhausted
  rw [drop_of_exhausted hexhausted] at hscans
  rcases mem_left_or_others hscans hg heligible with hleft | hother
  · rw [(report_cleanup henabled).2.2.2] at hleft
    exact (prune_first hread.scanned.split.sorted _ _ d hd g hleft).stamp_le
  · exact (hfirst.before d ((prune_deleted_sublist _ _ _).subset hd) g hother).stamp_le

/-- A sound call that reports `clean` leaves no archive that is too old. -/
theorem clean_of_sound (hsound : Sound w call) (hclean : (cleanup cutoff w call).2.status = .clean) :
    (∀ g ∈ (cleanup cutoff w call).1.files, isArchive g.name = true →
        pinned (cleanup cutoff w call).1.files g = false →
          cutoff call.now call.policy.days ≤ g.stamp) ∧
      (totalsOf (cleanup cutoff w call).1.files (cleanup cutoff w call).1.files).managedBytes ≤
        call.policy.limit := by
  obtain ⟨hexhausted, hstopped, hdeleted, hunsafe, hlimit⟩ := clean_cleanup henabled hclean
  have htotals := totals_cleanup cutoff hvalid henabled
    ((report_cleanup henabled).2.1.trans hexhausted)
  rw [htotals] at hunsafe hlimit
  refine ⟨fun g hg harchive hpinned => ?_, hlimit⟩
  obtain ⟨seen, others, hread, hscans⟩ := hvalid.scanned cutoff henabled
  have hfirst := hsound.first hvalid hread
  rw [drop_of_exhausted hexhausted] at hscans
  have hplain : g.plain = true := by
    have hnone := List.countP_eq_zero.mp hunsafe g hg
    simpa [managedName, harchive] using hnone
  have hkept : ∀ l ∈ (w.pruned cutoff call).left, cutoff call.now call.policy.days ≤ l.stamp :=
    prune_left _ _ _ hstopped
  rcases mem_left_or_others hscans hg (by simp [eligible, harchive, hplain, hpinned]) with hleft | hother
  · rw [(report_cleanup henabled).2.2.2] at hleft
    exact hkept g hleft
  · -- the heap was full, and not all of it was deleted
    have homitted : (w.read call).heap.omitted = true := by
      by_contra hnone
      rw [hread.scanned.split.omitted (by simpa using hnone)] at hother
      exact absurd hother List.not_mem_nil
    have hfull := hfirst.full (List.ne_nil_of_mem hother)
    have hprune : ((w.pruned cutoff call).deleted ++ (w.pruned cutoff call).left).Perm
        (w.read call).heap.kept := prune_perm _ _ _
    have hlength := hprune.length_eq
    rw [List.length_append, hfull] at hlength
    have hsome : (w.pruned cutoff call).left ≠ [] := by
      intro hnil
      have hless := hdeleted homitted
      rw [hnil, List.length_nil] at hlength
      omega
    obtain ⟨l, hl⟩ := List.exists_mem_of_ne_nil _ hsome
    exact (hkept l hl).trans
      (hfirst.before l ((prune_left_sublist _ _ _).subset hl) g hother).stamp_le

end Enabled

/-- CORRECT: in every sequence of calls, only archives that may be deleted are deleted, for their age
    or for the bytes of a complete inventory, and the totals of a complete inventory are the real
    ones; in a sound call the deletions of a complete inventory are the oldest, and `clean` means that
    no archive is too old and the bytes are within the limit. -/
theorem cleanup_honest (cutoff : T → ℕ → T) (files : List (File T)) (hdistinct : Distinct files)
    (calls : List (Call T)) (call : Call T) :
    let w := run cutoff files calls
    let after := (cleanup cutoff w call).1
    let report := (cleanup cutoff w call).2
    let expired := cutoff call.now call.policy.days
    (∀ f ∈ w.files, f ∉ after.files → eligible w.files f = true ∧ f ∈ report.deleted) ∧
    (∀ before d rest, report.deleted = before ++ d :: rest → d.stamp < expired ∨
      (report.exhausted = true ∧ call.policy.limit <
        (totalsOf w.files w.files).managedBytes - (before.map File.size).sum)) ∧
    report.deleted.Pairwise (fun a b => a.stamp ≤ b.stamp) ∧
    (report.exhausted = true → report.totals = totalsOf after.files after.files) ∧
    (Sound w call →
      (report.exhausted = true → ∀ d ∈ report.deleted, ∀ g ∈ after.files,
        eligible after.files g = true → d.stamp ≤ g.stamp) ∧
      (report.status = .clean →
        (∀ g ∈ after.files, isArchive g.name = true → pinned after.files g = false →
          expired ≤ g.stamp) ∧
        (totalsOf after.files after.files).managedBytes ≤ call.policy.limit)) := by
  intro w after report expired
  have hvalid : w.Valid := valid_run cutoff hdistinct calls
  cases henabled : call.policy.enabled with
  | false =>
    have hcall : cleanup cutoff w call = ({ w with cursor := w.cursor.close },
        ⟨.disabled, ⟨0, 0, 0, 0⟩, 0, 0, false, false, false, []⟩) := by rw [cleanup, henabled]; rfl
    have hafter : after.files = w.files := congrArg (fun r => r.1.files) hcall
    have hdeleted : report.deleted = [] := congrArg (fun r => r.2.deleted) hcall
    have hexhausted : report.exhausted = false := congrArg (fun r => r.2.exhausted) hcall
    have hstatus : report.status = .disabled := congrArg (fun r => r.2.status) hcall
    rw [hafter, hdeleted, hexhausted, hstatus]
    refine ⟨fun f hf hgone => absurd hf hgone, fun before d rest h => absurd h (by simp),
      List.Pairwise.nil, fun h => absurd h (by decide), fun _ => ?_⟩
    exact ⟨fun h => absurd h (by decide), fun h => absurd h (by decide)⟩
  | true =>
    refine ⟨fun f hf hgone => eligible_of_gone hvalid henabled hf hgone,
      fun before d rest h => reason_cleanup hvalid henabled h, ?_,
      totals_cleanup cutoff hvalid henabled, fun hsound => ?_⟩
    · obtain ⟨seen, others, hread, -⟩ := hvalid.scanned cutoff henabled
      have hsub : (w.pruned cutoff call).deleted.Sublist (w.read call).heap.kept :=
        prune_deleted_sublist _ _ _
      have hsorted := hread.scanned.split.sorted.sublist hsub
      rw [show report.deleted = (w.pruned cutoff call).deleted from (report_cleanup henabled).1]
      exact hsorted.imp fun h => h.stamp_le
    · exact ⟨fun hexhausted d hd g hg heligible =>
          oldest_cleanup hvalid henabled hsound hexhausted hd hg heligible,
        clean_of_sound hvalid henabled hsound⟩

/-! ### A crowded directory -/

def archiveName (i : ℕ) : Str :=
  "runtime_alerts.".toList ++ Nat.toDigits 10 i ++ ".0123456789abcdef0123456789abcdef.log".toList

def archive (i : ℕ) : File ℕ := ⟨archiveName i, 1, i, true⟩

def foreign (i : ℕ) : File ℕ := ⟨Nat.toDigits 10 i, 0, 0, true⟩

/-- 66 archives and 959 other files. -/
def crowded : List (File ℕ) := (List.range 66).map archive ++ (List.range 959).map foreign

def daysBefore (now days : ℕ) : ℕ := now - days * 86400

/-- A call when all of the archives are too old. -/
def plainCall : Call ℕ where
  policy := ⟨true, 30, 256, by decide, by decide⟩
  now := 10000000
  order files := files
  lists _ := .refl _

theorem getLast?_foreign (i : ℕ) : ∃ c, (foreign i).name.getLast? = some c ∧ c.isDigit = true := by
  obtain ⟨c, hc⟩ := Option.isSome_iff_exists.mp
    (List.getLast?_isSome.mpr (Nat.toDigits_ne_nil (b := 10) (n := i)))
  exact ⟨c, hc, Nat.isDigit_of_mem_toDigits (by decide) (by decide) (List.mem_of_getLast? hc)⟩

theorem isArchive_foreign (i : ℕ) : isArchive (foreign i).name = false := by
  by_contra h
  obtain ⟨c, hc, hdigit⟩ := getLast?_foreign i
  rw [getLast?_archive (Bool.eq_true_of_not_eq_false h)] at hc
  obtain rfl := Option.some.inj hc
  exact absurd hdigit (by decide)

theorem isArchive_archive : ∀ i ∈ List.range 66, isArchive (archive i).name = true := by
  decide +kernel

/-- Archives with different numbers and other files with different numbers. -/
theorem distinct_numbered {is js : List ℕ} (hi : is.Nodup) (hj : js.Nodup)
    (harchives : ∀ i ∈ is, isArchive (archive i).name = true) :
    Distinct (is.map archive ++ js.map foreign) := by
  rw [Distinct, List.map_append, List.map_map, List.map_map, List.nodup_append]
  refine ⟨hi.map fun i j he => ?_, hj.map fun i j he => PyJson.toDigits_inj he, ?_⟩
  · exact PyJson.toDigits_inj (List.append_cancel_left (List.append_cancel_right he))
  · intro name hname other hother he
    obtain ⟨i, hi, rfl⟩ := List.mem_map.mp hname
    obtain ⟨j, -, rfl⟩ := List.mem_map.mp hother
    have harchive := harchives i hi
    rw [show (archive i).name = (foreign j).name from he, isArchive_foreign] at harchive
    cases harchive

theorem distinct_crowded : Distinct crowded :=
  distinct_numbered List.nodup_range List.nodup_range isArchive_archive

/-- Nothing is pinned. -/
theorem pinned_crowded (f : File ℕ) : pinned crowded f = false := by
  rw [pinned, List.any_eq_false]
  intro g hg hname
  have hlast : g.name.getLast? = some 'p' := by
    rw [of_decide_eq_true hname, List.getLast?_append]
    simp [keepSuffix]
  rcases List.mem_append.mp hg with hg | hg
  · obtain ⟨i, hi, rfl⟩ := List.mem_map.mp hg
    rw [getLast?_archive (isArchive_archive i hi)] at hlast
    simp at hlast
  · obtain ⟨i, -, rfl⟩ := List.mem_map.mp hg
    obtain ⟨c, hc, hdigit⟩ := getLast?_foreign i
    rw [hc] at hlast
    obtain rfl := Option.some.inj hlast
    exact absurd hdigit (by decide)

/-- What a part of the directory is counted as. -/
theorem totalsOf_crowded (n m : ℕ) (hn : n ≤ 66) :
    totalsOf crowded ((List.range n).map archive ++ (List.range m).map foreign) = ⟨n, 0, 0, n⟩ ∧
      ((List.range n).map archive ++ (List.range m).map foreign).filter (eligible crowded) =
        (List.range n).map archive := by
  have harchive : ∀ f ∈ (List.range n).map archive, isArchive f.name = true ∧ f.plain = true := by
    intro f hf
    obtain ⟨i, hi, rfl⟩ := List.mem_map.mp hf
    have hi := List.mem_range.mp hi
    exact ⟨isArchive_archive i (List.mem_range.mpr (by omega)), rfl⟩
  have hforeign : ∀ f ∈ (List.range m).map foreign,
      isArchive f.name = false ∧ managedName f.name = false ∧ f.plain = true := by
    intro f hf
    obtain ⟨i, -, rfl⟩ := List.mem_map.mp hf
    refine ⟨isArchive_foreign i, ?_, rfl⟩
    obtain ⟨c, hc, hdigit⟩ := getLast?_foreign i
    have hactive : (foreign i).name ≠ activeName := by
      intro he
      rw [he] at hc
      obtain rfl : 'g' = c := Option.some.inj hc
      exact absurd hdigit (by decide)
    simp [managedName, isArchive_foreign i, hactive]
  have hmanaged : ((List.range n).map archive ++ (List.range m).map foreign).filter
      (fun f => managedName f.name && f.plain) = (List.range n).map archive := by
    rw [List.filter_append, List.filter_eq_self.mpr fun f hf => by simp [managedName, harchive f hf],
      List.filter_eq_nil_iff.mpr fun f hf => by simp [hforeign f hf], List.append_nil]
  have heligible : ((List.range n).map archive ++ (List.range m).map foreign).filter
      (eligible crowded) = (List.range n).map archive := by
    rw [List.filter_append,
      List.filter_eq_self.mpr fun f hf => by simp [eligible, harchive f hf, pinned_crowded],
      List.filter_eq_nil_iff.mpr fun f hf => by simp [eligible, hforeign f hf], List.append_nil]
  have hpinned : ((List.range n).map archive ++ (List.range m).map foreign).countP
      (fun f => isArchive f.name && f.plain && pinned crowded f) = 0 :=
    List.countP_eq_zero.mpr fun f _ => by simp [pinned_crowded]
  have hunsafe : ((List.range n).map archive ++ (List.range m).map foreign).countP
      (fun f => managedName f.name && !f.plain) = 0 := by
    refine List.countP_eq_zero.mpr fun f hf => ?_
    rcases List.mem_append.mp hf with hf | hf
    · simp [harchive f hf]
    · simp [hforeign f hf]
  have harchives : ((List.range n).map archive ++ (List.range m).map foreign).countP
      (fun f => isArchive f.name && f.plain) = n := by
    rw [List.countP_append, List.countP_eq_length.mpr fun f hf => by simp [harchive f hf],
      List.countP_eq_zero.mpr fun f hf => by simp [hforeign f hf], List.length_map, List.length_range,
      Nat.add_zero]
  refine ⟨?_, heligible⟩
  rw [totalsOf, hmanaged, hpinned, hunsafe, harchives, List.map_map]
  congr 1
  simp [Function.comp_def, archive]

/-- The first call reads all archives and leaves two out. -/
theorem read_crowded : (World.new crowded).read plainCall =
    ⟨some crowded, ⟨(List.range 64).map archive, true⟩, ⟨66, 0, 0, 66⟩⟩ := by
  have htake : crowded.take maxEntries =
      (List.range 66).map archive ++ (List.range 958).map foreign := by
    simp [crowded, maxEntries, List.take_append, ← List.map_take, List.take_range]
  obtain ⟨htotals, heligible⟩ := totalsOf_crowded 66 958 le_rfl
  have hsorted : ((List.range 66).map archive).Pairwise fun a b => Older a b ∧ ¬Older b a := by
    rw [List.pairwise_map]
    refine List.pairwise_lt_range.imp fun {i j} hij => ⟨Or.inl hij, ?_⟩
    rintro (h | ⟨h, -⟩)
    · exact absurd hij (not_lt.mpr h.le)
    · exact hij.ne h.symm
  have hread := foldl_inventory crowded (crowded.take maxEntries)
    ((World.new crowded).prepared plainCall) [] rfl
  rw [List.nil_append, htake, htotals, heligible] at hread
  have hheap : ((World.new crowded).prepared plainCall).heap = ⟨[], false⟩ := rfl
  rw [hheap, foldl_of_sorted hsorted, ← List.map_take, List.take_range] at hread
  have hrun : (World.new crowded).read plainCall =
      (crowded.take maxEntries).foldl (Cursor.inventory crowded) ((World.new crowded).prepared plainCall) :=
    rfl
  rw [hrun, htake]
  generalize List.foldl _ _ _ = cursor at hread ⊢
  obtain ⟨iterator, heap, totals⟩ := cursor
  obtain ⟨rfl, rfl, rfl⟩ := hread
  rfl

/-- The entry that the first call leaves for the second. -/
theorem drop_crowded : crowded.drop maxEntries = [foreign 958] := by
  have hrange : List.range 959 = List.range 958 ++ [958] := List.range_succ
  have hcrowded : crowded =
      ((List.range 66).map archive ++ (List.range 958).map foreign) ++ [foreign 958] := by
    rw [crowded, hrange, List.map_append, List.append_assoc]
    rfl
  rw [hcrowded, List.drop_left' (by simp [maxEntries])]

theorem cleanup_crowded : (cleanup daysBefore (World.new crowded) plainCall).1 =
    ⟨remaining ((List.range 64).map archive) crowded,
      ⟨some [foreign 958], ⟨[], true⟩, ⟨2, 0, 0, 2⟩⟩, true⟩ := by
  have hentries : ((World.new crowded).prepared plainCall).entries = crowded := rfl
  have hexhausted : (World.new crowded).exhausted plainCall = false := by
    rw [World.exhausted, hentries]
    simp [crowded, maxEntries]
  have hold : ∀ c ∈ (List.range 64).map archive,
      c.stamp < daysBefore plainCall.now plainCall.policy.days := by
    intro c hc
    obtain ⟨i, hi, rfl⟩ := List.mem_map.mp hc
    exact (List.mem_range.mp hi).trans (by decide)
  have hpruned : World.pruned daysBefore (World.new crowded) plainCall =
      ⟨(List.range 64).map archive, [], 2, false⟩ := by
    rw [World.pruned, read_crowded, prune_all hold _ _ (by simp [maxDeletions])]
    simp [Function.comp_def, archive]
  rw [cleanup, show plainCall.policy.enabled = true from rfl, hpruned, hexhausted, read_crowded,
    hentries, drop_crowded]
  have hsome : ((List.range 64).map archive).isEmpty = false := by simp
  have hlength : ((List.range 64).map archive).length = 64 := by simp
  simp only [hsome, hlength]
  rfl

/-- The state between the two calls. -/
def halfway : World ℕ :=
  ⟨remaining ((List.range 64).map archive) crowded, ⟨some [foreign 958], ⟨[], true⟩, ⟨2, 0, 0, 2⟩⟩, true⟩

theorem read_halfway : halfway.read plainCall = halfway.cursor := by
  have hname : (foreign 958).name ≠ activeName := by decide +kernel
  have harchive : (!isArchive (foreign 958).name) = true := by decide +kernel
  have hread : halfway.read plainCall = halfway.cursor.inventory halfway.files (foreign 958) := rfl
  rw [hread, Cursor.inventory, if_pos ⟨hname, harchive⟩]

theorem pruned_halfway : halfway.pruned daysBefore plainCall = ⟨[], [], 2, false⟩ := by
  rw [World.pruned, read_halfway]
  rfl

theorem mem_halfway : archive 64 ∈ halfway.files := by
  have hcrowded : archive 64 ∈ crowded := by
    rw [crowded, List.mem_append, List.mem_map]
    exact Or.inl ⟨64, List.mem_range.mpr (by decide), rfl⟩
  rw [halfway, remaining, List.mem_filter, List.all_eq_true]
  refine ⟨hcrowded, fun d hd => ?_⟩
  obtain ⟨i, hi, rfl⟩ := List.mem_map.mp hd
  rw [decide_eq_true_eq]
  intro he
  have hsame := PyJson.toDigits_inj (List.append_cancel_left (List.append_cancel_right he))
  rw [List.mem_range] at hi
  omega

theorem cleanup_halfway : (cleanup daysBefore halfway plainCall).2.status = .clean ∧
    (cleanup daysBefore halfway plainCall).1.files = halfway.files := by
  constructor
  · have hexhausted : halfway.exhausted plainCall = true := by decide +kernel
    rw [status_cleanup rfl, pruned_halfway, read_halfway, hexhausted]
    decide +kernel
  · rw [files_cleanup rfl, pruned_halfway]
    exact List.filter_eq_self.mpr fun f _ => rfl

/-- The second call reports `clean`, and an old archive is still there. -/
theorem crowded_clean :
    Distinct crowded ∧
      (cleanup daysBefore (run daysBefore crowded [plainCall]) plainCall).2.status = .clean ∧
      ∃ g ∈ (cleanup daysBefore (run daysBefore crowded [plainCall]) plainCall).1.files,
        isArchive g.name = true ∧
          pinned (cleanup daysBefore (run daysBefore crowded [plainCall]) plainCall).1.files g = false ∧
          g.stamp < daysBefore plainCall.now plainCall.policy.days := by
  have hrun : run daysBefore crowded [plainCall] = halfway := by
    rw [run, List.foldl_cons, List.foldl_nil, cleanup_crowded, halfway]
  obtain ⟨hclean, hfiles⟩ := cleanup_halfway
  have hpinned : pinned halfway.files (archive 64) = false := by
    rw [pinned, List.any_eq_false]
    intro g hg
    have hcrowded : g ∈ crowded := by
      rw [halfway, remaining, List.mem_filter] at hg
      exact hg.1
    exact List.any_eq_false.mp (pinned_crowded (archive 64)) g hcrowded
  rw [hrun, hfiles]
  exact ⟨distinct_crowded, hclean, archive 64, mem_halfway, isArchive_archive 64 (by simp), hpinned,
    by decide⟩

/-! ### A scan of two calls -/

/-- Three archives that are too old, one that is not, and 1022 other files. -/
def scattered : List (File ℕ) := [2, 9000000, 0, 1].map archive ++ (List.range 1022).map foreign

/-- The directory lists two of the archives last. -/
def rotatedCall : Call ℕ :=
  { plainCall with
    order := fun files => files.rotate 2
    lists := fun files => files.rotate_perm 2 }

/-- The first call deletes two archives; the second completes the scan, deletes the third, and
    reports `clean` rightly. -/
theorem cleanup_honest_scattered :
    let w := run daysBefore scattered [rotatedCall]
    let ended := cleanup daysBefore w rotatedCall
    w.files.length = 1024 ∧ ended.2.deleted = [archive 2] ∧ ended.2.status = .clean ∧
      ∀ g ∈ ended.1.files, isArchive g.name = true → pinned ended.1.files g = false →
        daysBefore rotatedCall.now rotatedCall.policy.days ≤ g.stamp := by
  have hdistinct : Distinct scattered :=
    distinct_numbered (by decide) List.nodup_range (by decide +kernel)
  have hhonest := cleanup_honest daysBefore scattered hdistinct [rotatedCall] rotatedCall
  have hclean : (cleanup daysBefore (run daysBefore scattered [rotatedCall]) rotatedCall).2.status =
      .clean := by decide +kernel
  have hsound : Sound (run daysBefore scattered [rotatedCall]) rotatedCall := by
    refine .inr ⟨?_, ?_⟩
    · decide +kernel
    · decide +kernel
  refine ⟨?_, ?_, hclean, ((hhonest.2.2.2.2 hsound).2 hclean).1⟩
  · decide +kernel
  · decide +kernel

end Angerona.Retention
