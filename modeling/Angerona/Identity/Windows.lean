import Mathlib
import Angerona.Identity.Rebinding

/-!
    Which rows a finding pairs, and which rows are kept.

    Rows are kept in the order they arrive and leave at the front only, so the pairs are in order when
    the rows arrive in the order of their times. Otherwise a row can be paired with one that is dated
    after it, and one that is too old stays while an earlier arrival is not. -/

namespace Angerona.Identity
open Text

variable {T : Type} [LinearOrder T] {A : Analyzer T} {s : Analytics T} {row : Row T} {now : T}

/-! ### Digests -/

/-- The replay index holds the digests of the rows, each of one row. -/
structure Analytics.Indexed (s : Analytics T) : Prop where
  digests : s.digests = (s.events.map Row.digest).toFinset
  nodup : (s.events.map Row.digest).Nodup

/-- What leaves and what stays are the rows before and the new one. -/
theorem retain_split (A : Analyzer T) (events : List (Row T)) (row : Row T) (now : T) :
    ∃ gone, events ++ [row] = gone ++ Analytics.retain A events row now ∧
      Analytics.discarded A events row now = gone.map Row.digest := by
  by_cases hfull : A.maxEvents < (events ++ [row]).length
  · obtain ⟨first, rest, hrows⟩ := List.exists_cons_of_ne_nil
      (List.append_ne_nil_of_right_ne_nil events (List.cons_ne_nil row []))
    refine ⟨first :: rest.takeWhile (fun item => item.timestamp < A.since now), ?_, ?_⟩
    · rw [Analytics.retain]
      rw [if_pos hfull, hrows, List.tail_cons, List.cons_append, List.takeWhile_append_dropWhile]
    · rw [Analytics.discarded]
      rw [if_pos hfull, if_pos hfull, hrows]
      rfl
  · refine ⟨(events ++ [row]).takeWhile fun item => item.timestamp < A.since now, ?_, ?_⟩
    · rw [Analytics.retain]
      rw [if_neg hfull, List.takeWhile_append_dropWhile]
    · rw [Analytics.discarded]
      rw [if_neg hfull, if_neg hfull]
      rfl

theorem Analytics.Indexed.admitted (h : s.Indexed) (hnew : row.digest ∉ s.digests) :
    (s.admitted A row now).Indexed := by
  obtain ⟨gone, hrows, hgone⟩ := retain_split A s.events row now
  have hnodup : ((s.events ++ [row]).map Row.digest).Nodup := by
    rw [h.digests, List.mem_toFinset] at hnew
    rw [List.map_append, List.nodup_append]
    refine ⟨h.nodup, List.nodup_singleton _, fun digest hdigest other hother he => ?_⟩
    obtain rfl := List.mem_singleton.mp hother
    exact hnew (he ▸ hdigest)
  rw [hrows, List.map_append] at hnodup
  obtain ⟨-, hkept, hdisjoint⟩ := List.nodup_append.mp hnodup
  refine ⟨?_, hkept⟩
  have hall : insert row.digest s.digests =
      (gone.map Row.digest).toFinset ∪ ((retain A s.events row now).map Row.digest).toFinset := by
    rw [← List.toFinset_append, ← List.map_append, ← hrows, List.map_append, List.toFinset_append,
      h.digests, Finset.union_comm]
    rfl
  rw [Analytics.admitted]
  dsimp only
  rw [hall, hgone, Finset.union_sdiff_left, Finset.sdiff_eq_self_iff_disjoint]
  refine Finset.disjoint_left.mpr fun digest hdigest hother => ?_
  exact hdisjoint digest (List.mem_toFinset.mp hother) digest (List.mem_toFinset.mp hdigest) rfl

/-- A row that is not admitted changes nothing but the coverage. -/
theorem observe_of_not_admits (h : ¬s.Admits A row now) :
    (s.observe A row now).1.events = s.events ∧ (s.observe A row now).1.digests = s.digests ∧
      (s.observe A row now).1.dropped = s.dropped ∧ (s.observe A row now).2.findings = [] := by
  rw [Analytics.observe]
  split
  · exact ⟨rfl, rfl, rfl, Analytics.findings_assessment _ _ _⟩
  · rename_i htimely
    split
    · exact ⟨rfl, rfl, rfl, Analytics.findings_assessment _ _ _⟩
    · rename_i hnew
      exact absurd ⟨by simpa using htimely, hnew⟩ h

theorem Analytics.Indexed.observe (h : s.Indexed) (row : Row T) (now : T) :
    (s.observe A row now).1.Indexed := by
  by_cases hadmits : s.Admits A row now
  · rw [(Analytics.observe_of_admits hadmits).1]
    exact h.admitted hadmits.2
  · obtain ⟨hevents, hdigests, -⟩ := observe_of_not_admits hadmits
    exact ⟨by rw [hevents, hdigests, h.digests], by rw [hevents]; exact h.nodup⟩

theorem indexed_run (A : Analyzer T) (calls : List (Call T)) : (Analytics.run A calls).Indexed := by
  induction calls using List.reverseRecOn with
  | nil => exact ⟨rfl, List.nodup_nil⟩
  | append_singleton calls call ih =>
    rw [Analytics.run, List.foldl_concat]
    exact ih.observe call.row call.now

/-! ### Pairs -/

/-- The first row of every pair is not dated after the second, nor before its window. -/
def InOrder (A : Analyzer T) (findings : List (Finding T)) : Prop :=
  ∀ f ∈ findings, ∀ first second, f.rows = [first, second] →
    first.timestamp ≤ second.timestamp ∧ A.since second.timestamp ≤ first.timestamp

instance : Decidable (s.Admits A row now) := inferInstanceAs (Decidable (_ ∧ _))

/-- The rows that some calls admit. -/
def Analytics.accepted (A : Analyzer T) : Analytics T → List (Call T) → List (Row T)
  | _, [] => []
  | s, call :: calls => (if s.Admits A call.row call.now then [call.row] else []) ++
      accepted A (s.observe A call.row call.now).1 calls

/-- The rows that were admitted and a new one arrive in the order of their times, and the new one is
    not dated after its clock. -/
def Dated (A : Analyzer T) (calls : List (Call T)) (row : Row T) (now : T) : Prop :=
  (Analytics.accepted A Analytics.new calls ++ [row]).Pairwise (fun a b => a.timestamp ≤ b.timestamp) ∧
    row.timestamp ≤ now

theorem accepted_concat {calls : List (Call T)} {call : Call T} :
    Analytics.accepted A s (calls ++ [call]) = Analytics.accepted A s calls ++
      if (calls.foldl (fun s call => (s.observe A call.row call.now).1) s).Admits A call.row call.now then
        [call.row] else [] := by
  induction calls generalizing s with
  | nil =>
    rw [List.nil_append, Analytics.accepted, Analytics.accepted, Analytics.accepted, List.append_nil]
    rfl
  | cons first calls ih =>
    rw [List.cons_append, Analytics.accepted, Analytics.accepted, ih, List.append_assoc]
    rfl

/-- What is retained is the end of what was admitted. -/
theorem events_suffix (A : Analyzer T) (calls : List (Call T)) :
    (Analytics.run A calls).events <:+ Analytics.accepted A Analytics.new calls := by
  induction calls using List.reverseRecOn with
  | nil => exact List.suffix_rfl
  | append_singleton calls call ih =>
    rw [accepted_concat, Analytics.run, List.foldl_concat]
    by_cases hadmits : (Analytics.run A calls).Admits A call.row call.now
    · obtain ⟨gone, hrows, -⟩ := retain_split A (Analytics.run A calls).events call.row call.now
      obtain ⟨before, hbefore⟩ := ih
      have hadmits' := hadmits
      rw [Analytics.run] at hadmits'
      rw [if_pos hadmits', (Analytics.observe_of_admits hadmits').1]
      refine ⟨before ++ gone, ?_⟩
      rw [← hbefore, List.append_assoc, List.append_assoc, hrows]
      rfl
    · obtain ⟨hevents, -⟩ := observe_of_not_admits hadmits
      rw [Analytics.run] at hadmits hevents
      rw [if_neg hadmits, List.append_nil, hevents]
      exact ih

/-- Of rows in the order of their times, those at the front that are too old are all that are. -/
theorem since_le_of_mem_dropWhile {rows : List (Row T)} {start : T} {item : Row T}
    (hordered : rows.Pairwise fun a b => a.timestamp ≤ b.timestamp)
    (hitem : item ∈ rows.dropWhile fun item => item.timestamp < start) : start ≤ item.timestamp := by
  induction rows with
  | nil => cases hitem
  | cons first rows ih =>
    obtain ⟨hfirst, hrest⟩ := List.pairwise_cons.mp hordered
    by_cases hold : first.timestamp < start
    · rw [List.dropWhile_cons_of_pos (by simpa using hold)] at hitem
      exact ih hrest hitem
    · rw [List.dropWhile_cons_of_neg (by simpa using hold)] at hitem
      rcases List.mem_cons.mp hitem with rfl | hitem
      · exact not_lt.mp hold
      · exact (not_lt.mp hold).trans (hfirst item hitem)

/-- The rows that stay beside a new one in order are dated in its window. -/
theorem retain_inOrder {events : List (Row T)} {item : Row T}
    (hordered : (events ++ [row]).Pairwise fun a b => a.timestamp ≤ b.timestamp)
    (hnow : row.timestamp ≤ now) (hitem : item ∈ (Analytics.retain A events row now).dropLast) :
    item.timestamp ≤ row.timestamp ∧ A.since row.timestamp ≤ item.timestamp := by
  have hretained := List.dropLast_subset _ hitem
  constructor
  · obtain ⟨gone, hrows, -⟩ := retain_split A events row now
    have hmem : item ∈ events ++ [row] := hrows ▸ List.mem_append_right gone hretained
    rcases List.mem_append.mp hmem with hevent | hlast
    · exact (List.pairwise_append.mp hordered).2.2 item hevent row (List.mem_singleton_self row)
    · rw [List.mem_singleton.mp hlast]
  · refine (A.since_mono hnow).trans ?_
    rw [Analytics.retain] at hretained
    refine since_le_of_mem_dropWhile ?_ hretained
    split
    · exact hordered.sublist (List.tail_sublist _)
    · exact hordered

omit [LinearOrder T] in
/-- The partner of a row is one of the rows before it. -/
theorem mem_of_partner {rows : List (Row T)} {kind : Kind} {item : Row T}
    (h : partner rows kind = some item) : item ∈ rows := by
  rw [partner] at h
  exact List.mem_reverse.mp (List.mem_of_find?_eq_some h)

omit [LinearOrder T] in
/-- What a row is found with: itself alone, or one of its partners. -/
theorem rows_of_transitions {prior : List (Row T)} {f : Finding T}
    (h : f ∈ Analytics.transitions row prior) :
    f.rows = [row] ∨ ∃ kind item, partner prior kind = some item ∧ f.rows = [item, row] := by
  have hpair : ∀ {rule severity reason : String} {kind : Kind},
      f ∈ paired rule severity reason (partner prior kind) row →
        f.rows = [row] ∨ ∃ kind item, partner prior kind = some item ∧ f.rows = [item, row] := by
    intro rule severity reason kind hf
    obtain ⟨item, hitem, rfl⟩ := mem_paired.mp hf
    exact Or.inr ⟨kind, item, hitem, rfl⟩
  simp only [Analytics.transitions, List.mem_append] at h
  rcases h with ((h | h) | h) | h
  · split at h
    · exact hpair h
    · cases h
  · split at h
    · exact hpair h
    · cases h
  · split at h
    · rcases List.mem_append.mp h with h | h
      · exact hpair h
      · split at h
        · obtain rfl := List.mem_singleton.mp h
          exact Or.inl rfl
        · cases h
    · cases h
  · split at h
    · obtain rfl := List.mem_singleton.mp h
      exact Or.inl rfl
    · cases h

/-- The findings about two rows pair the new row with its partners. -/
theorem rows_of_findings {f : Finding T} {first second : Row T} (hf : f ∈ s.findings A row now)
    (hrows : f.rows = [first, second]) :
    second = row ∧ ∃ kind, partner (s.prior A row now) kind = some first := by
  have hfound : f.rows = [row] ∨ ∃ kind item,
      partner (s.prior A row now) kind = some item ∧ f.rows = [item, row] := by
    simp only [Analytics.findings, List.mem_append] at hf
    rcases hf with ((hf | hf) | hf) | hf
    · exact Or.inl ((mem_rebinding hf).2)
    · exact Or.inl ((mem_rebinding hf).2)
    · rw [Analytics.enrollment] at hf
      split at hf
      · obtain rfl := List.mem_singleton.mp hf
        exact Or.inl rfl
      · cases hf
    · exact rows_of_transitions hf
  rcases hfound with hone | ⟨kind, item, hitem, htwo⟩
  · rw [hrows] at hone
    simp at hone
  · rw [hrows] at htwo
    obtain ⟨rfl, rfl⟩ : first = item ∧ second = row := by simpa using htwo
    exact ⟨rfl, kind, hitem⟩

/-- The pairs of a dated row are in order. -/
theorem inOrder_of_dated {calls : List (Call T)}
    (h : (Analytics.run A calls).Admits A row now → Dated A calls row now) :
    InOrder A ((Analytics.run A calls).observe A row now).2.findings := by
  intro f hf first second hrows
  by_cases hadmits : (Analytics.run A calls).Admits A row now
  · rw [(Analytics.observe_of_admits hadmits).2] at hf
    obtain ⟨rfl, kind, hpartner⟩ := rows_of_findings hf hrows
    obtain ⟨hordered, hnow⟩ := h hadmits
    have hpast := hordered.sublist ((events_suffix A calls).sublist.append_right [second])
    exact retain_inOrder hpast hnow (List.mem_of_mem_filter (mem_of_partner hpartner))
  · rw [(observe_of_not_admits hadmits).2.2.2] at hf
    cases hf

/-! ### Replays -/

theorem mem_dropWhile {α : Type} {p : α → Bool} {a : α} (ha : p a = false) : ∀ {l : List α},
    a ∈ l → a ∈ l.dropWhile p
  | b :: l, h => by
    rw [List.dropWhile_cons]
    split
    · rename_i hb
      rcases List.mem_cons.mp h with rfl | h
      · exact absurd hb (by simp [ha])
      · exact mem_dropWhile ha h
    · exact h

/-- Without a row too many, the rows of the window stay. -/
theorem mem_retain {events : List (Row T)} {item : Row T} (hitem : item ∈ events ++ [row])
    (hroom : (events ++ [row]).length ≤ A.maxEvents) (hwindow : A.since now ≤ item.timestamp) :
    item ∈ Analytics.retain A events row now := by
  rw [Analytics.retain]
  rw [if_neg (not_lt.mpr hroom)]
  exact mem_dropWhile (by simpa using hwindow) hitem

/-- A step drops nothing, and keeps the rows of the window, or counts a dropped row. -/
theorem observe_keeps (s : Analytics T) (row : Row T) (now : T) :
    ((s.observe A row now).1.dropped = s.dropped ∧ ∀ item ∈ s.events, A.since now ≤ item.timestamp →
        item ∈ (s.observe A row now).1.events) ∨
      (s.observe A row now).1.dropped = s.dropped + 1 := by
  by_cases hadmits : s.Admits A row now
  · rw [(Analytics.observe_of_admits hadmits).1, Analytics.admitted]
    dsimp only
    by_cases hfull : A.maxEvents < (s.events ++ [row]).length
    · exact Or.inr (if_pos hfull)
    · refine Or.inl ⟨if_neg hfull, fun item hitem hwindow => ?_⟩
      exact mem_retain (List.mem_append_left _ hitem) (not_lt.mp hfull) hwindow
  · obtain ⟨hevents, -, hdropped, -⟩ := observe_of_not_admits hadmits
    exact Or.inl ⟨hdropped, fun item hitem _ => by rwa [hevents]⟩

/-- What is retained stays while it is in the window and no row is dropped for want of room. -/
theorem foldl_keeps {calls : List (Call T)} {item : Row T} (hitem : item ∈ s.events)
    (hclock : ∀ call ∈ calls, A.since call.now ≤ item.timestamp) :
    s.dropped ≤ (calls.foldl (fun s call => (s.observe A call.row call.now).1) s).dropped ∧
      ((calls.foldl (fun s call => (s.observe A call.row call.now).1) s).dropped = s.dropped →
        item ∈ (calls.foldl (fun s call => (s.observe A call.row call.now).1) s).events) := by
  induction calls using List.reverseRecOn with
  | nil => exact ⟨le_rfl, fun _ => hitem⟩
  | append_singleton calls call ih =>
    obtain ⟨hmore, hkept⟩ := ih fun c hc => hclock c (List.mem_append_left _ hc)
    rw [List.foldl_concat]
    rcases observe_keeps (A := A) _ call.row call.now with ⟨hsame, hitems⟩ | hdropped
    · rw [hsame]
      refine ⟨hmore, fun hnone => hitems item (hkept hnone) (hclock call (by simp))⟩
    · rw [hdropped]
      exact ⟨by omega, fun hnone => absurd hnone (by omega)⟩

/-- The newest row stays at least while it is in the window. -/
theorem mem_admitted (hwindow : A.since now ≤ row.timestamp) :
    row ∈ (s.admitted A row now).events := by
  have hrow : row ∈ Analytics.retain A s.events row now := by
    rw [Analytics.retain]
    refine mem_dropWhile (by simpa using hwindow) ?_
    split
    · rename_i hfull
      have hroom := A.maxEvents_ge
      rw [List.length_append, List.length_singleton] at hfull
      have hne : s.events ≠ [] := fun he => by simp [he] at hfull; omega
      rw [List.tail_append_of_ne_nil hne]
      exact List.mem_append_right _ (List.mem_singleton_self row)
    · exact List.mem_append_right _ (List.mem_singleton_self row)
  exact hrow

/-- CORRECT: in every run with a clock that does not go back, the replay index holds the digests of
    the retained rows; the pairs of a row are in order if the admitted rows arrive in order and it is
    not dated after its clock; and an admitted row that is presented again inside the window changes
    nothing, unless a row was dropped for want of room. -/
theorem observe_windows (A : Analyzer T) (calls : List (Call T)) (row : Row T) (now : T)
    (hclock : (calls.map Call.now ++ [now]).Pairwise (· ≤ ·)) :
    (Analytics.run A calls).digests = ((Analytics.run A calls).events.map Row.digest).toFinset ∧
      (((Analytics.run A calls).Admits A row now → Dated A calls row now) →
        InOrder A ((Analytics.run A calls).observe A row now).2.findings) ∧
      ∀ before first after, calls = before ++ first :: after →
        (Analytics.run A before).Admits A first.row first.now →
        (Analytics.run A calls).dropped = (Analytics.run A (before ++ [first])).dropped →
        A.since now ≤ first.row.timestamp →
          ((Analytics.run A calls).observe A first.row now).1 = Analytics.run A calls ∧
            ((Analytics.run A calls).observe A first.row now).2.findings = [] := by
  refine ⟨(indexed_run A calls).digests, inOrder_of_dated, ?_⟩
  rintro before first after rfl hadmits hdropped hwindow
  rw [List.map_append, List.map_cons, List.append_assoc, List.cons_append] at hclock
  obtain ⟨-, hlater, -⟩ := List.pairwise_append.mp hclock
  obtain ⟨hfirst, hafter⟩ := List.pairwise_cons.mp hlater
  have hnow : first.now ≤ now := hfirst now (by simp)
  have hstays : ∀ call ∈ after, A.since call.now ≤ first.row.timestamp := by
    intro call hcall
    have hle := (List.pairwise_append.mp hafter).2.2 call.now (List.mem_map_of_mem hcall) now
      (List.mem_singleton_self now)
    exact (A.since_mono hle).trans hwindow
  have hstart : Analytics.run A (before ++ [first]) =
      (Analytics.run A before).admitted A first.row first.now := by
    rw [Analytics.run, List.foldl_concat]
    exact (Analytics.observe_of_admits hadmits).1
  have hrun : Analytics.run A (before ++ first :: after) =
      after.foldl (fun s call => (s.observe A call.row call.now).1)
        (Analytics.run A (before ++ [first])) := by
    rw [Analytics.run, Analytics.run, List.foldl_append, List.foldl_append]
    rfl
  have hretained : first.row ∈ (Analytics.run A (before ++ first :: after)).events := by
    have hin : first.row ∈ (Analytics.run A (before ++ [first])).events := by
      rw [hstart]
      exact mem_admitted ((A.since_mono hnow).trans hwindow)
    have hkept := (foldl_keeps hin hstays).2
    rw [← hrun] at hkept
    exact hkept hdropped
  have hknown : first.row.digest ∈ (Analytics.run A (before ++ first :: after)).digests := by
    rw [(indexed_run A _).digests, List.mem_toFinset]
    exact List.mem_map_of_mem hretained
  have htimely : Analytics.timely A first.row now = true := by
    have hlate := hadmits.1
    rw [Analytics.timely, Bool.and_eq_true, decide_eq_true_eq, decide_eq_true_eq] at hlate ⊢
    exact ⟨hlate.1.trans (A.late_mono hnow), (A.early_le now).trans hwindow⟩
  rw [Analytics.observe, htimely, if_neg (by decide), if_pos hknown]
  exact ⟨rfl, Analytics.findings_assessment _ _ _⟩

/-- An access to the browser's token store by ann. -/
def browserAccess (timestamp now : ℕ) : Call ℕ :=
  ⟨plainAnalyzer.tokenize
    { evidence .browserTokenStoreAccess timestamp "ann" "" with processRef := "browser".toList }
    .unprovenanced, now⟩

/-- The times of the rows of each finding. -/
def timesFound (calls : List (Call ℕ)) (call : Call ℕ) : List (List ℕ) :=
  ((Analytics.run plainAnalyzer calls).observe plainAnalyzer call.row call.now).2.findings.map
    fun f => f.rows.map Row.timestamp

/-- An access to the token store, and the logon that it preceded. -/
def accessCalls : List (Call ℕ) :=
  [browserAccess 100 100, ⟨(given (evidence .logonSession 110 "ann" "")).row, 120⟩]

theorem observe_windows_replay :
    timesFound [browserAccess 100 100] ⟨(given (evidence .logonSession 110 "ann" "")).row, 120⟩ =
        [[100, 110]] ∧
      InOrder plainAnalyzer ((Analytics.run plainAnalyzer [browserAccess 100 100]).observe plainAnalyzer
        (given (evidence .logonSession 110 "ann" "")).row 120).2.findings ∧
      ((Analytics.run plainAnalyzer accessCalls).observe plainAnalyzer
        (browserAccess 100 100).row 900).2.findings = [] := by
  refine ⟨by decide +kernel, ?_, ?_⟩
  · refine (observe_windows plainAnalyzer [browserAccess 100 100] _ 120 ?_).2.1 fun _ => ?_
    · simp [browserAccess]
    · exact ⟨by decide +kernel, by decide +kernel⟩
  · refine ((observe_windows plainAnalyzer accessCalls (browserAccess 100 100).row 900 ?_).2.2 []
      (browserAccess 100 100) _ rfl ?_ ?_ ?_).2
    · simp [accessCalls, browserAccess]
    · exact ⟨by decide +kernel, by decide +kernel⟩
    · decide +kernel
    · decide +kernel

/-! ### Late rows -/

/-- An access dated after a logon precedes it, one of twenty minutes before is still paired behind
    a row with a later time, and so is one with a logon dated after its clock. -/
theorem late_access :
    timesFound [browserAccess 200 100] ⟨(given (evidence .logonSession 110 "ann" "")).row, 110⟩ =
        [[200, 110]] ∧
      timesFound [⟨(given (evidence .authenticationAttempt 2000 "ann" "")).row, 1800⟩,
        browserAccess 500 1800] ⟨(given (evidence .logonSession 1800 "ann" "")).row, 1800⟩ =
          [[500, 1800]] ∧
      timesFound [browserAccess 150 150] ⟨(given (evidence .logonSession 1200 "ann" "")).row, 1000⟩ =
        [[150, 1200]] ∧
      plainAnalyzer.since 1800 = 900 ∧ plainAnalyzer.since 1200 = 300 := by
  exact ⟨by decide +kernel, by decide +kernel, by decide +kernel, rfl, rfl⟩

end Angerona.Identity
