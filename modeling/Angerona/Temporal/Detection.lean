import Angerona.Lib.Subsequence
import Angerona.Temporal.Calls

/-!
    Which campaigns a run of `observe` reports.

    While every signal is accepted and none leaves the window, the scan of a pattern stops growing
    at its first completion, and the identity of that completion is remembered. So a pattern is
    reported once, and a later campaign of the same pattern is reported by no call. -/

namespace Angerona.Temporal
open Text PyJson Raising Transition Subsequence

/-! ### Runs -/

/-- An engine with its state file, and what its calls accepted and returned. -/
structure Watch where
  world : World
  log : List (Signal × List Finding)

def Watch.signals (s : Watch) : List Signal := s.log.map Prod.fst

/-- A call of `observe` that returns, with its signal accepted and none dropped. -/
def Watch.Step (C : Config) (s : Watch) (label : Signal × Double × Bool) (s' : Watch) : Prop :=
  ∃ a, s.world.observe C label.1 label.2.1 label.2.2 = (.ok a, s'.world) ∧
    s'.world.engine.signals = s.world.engine.signals ++ [label.1] ∧
    s'.log = s.log ++ [(label.1, a.findings)]

/-! ### Campaigns -/

/-- The last finding of a pattern. -/
def lastFinding (p : Pattern) (log : List (Signal × List Finding)) : Option Finding :=
  (log.flatMap Prod.snd).reverse.find? (·.patternId = p.patternId)

/-- The signals accepted after the last signal of the last finding of a pattern. -/
def since (p : Pattern) (log : List (Signal × List Finding)) : List Signal :=
  match lastFinding p log with
  | none => log.map Prod.fst
  | some f =>
    (log.map Prod.fst).rtakeWhile fun s => some s.evidenceDigest ≠ f.evidenceDigests.getLast?

/-- The signal is the last step of an occurrence in the signals since the last finding. -/
def Completes (p : Pattern) (log : List (Signal × List Finding)) (s : Signal) : Prop :=
  ∃ occurrence : List Signal, occurrence.Sublist (since p log) ∧
    (occurrence ++ [s]).map Signal.kind = p.steps

/-- Every call whose signal completes the pattern returned a finding for it. -/
def Covered (p : Pattern) (log : List (Signal × List Finding)) : Prop :=
  ∀ earlier s findings later, log = earlier ++ (s, findings) :: later → Completes p earlier s →
    ∃ f ∈ findings, f.patternId = p.patternId

/-! ### The scan -/

theorem scan_eq_pick : ∀ (ks : List Kind) (ss : List Signal), scan ks ss = pick Signal.kind ks ss
  | [], _ => by rw [scan, pick]
  | _ :: _, [] => by rw [scan, pick]
  | k :: ks, s :: ss => by
    rw [scan, pick, scan_eq_pick ks ss, scan_eq_pick (k :: ks) ss]

/-- The scan of a pattern is complete. -/
def Pattern.Complete (p : Pattern) (ss : List Signal) : Prop := Found Signal.kind p.steps ss

instance (p : Pattern) (ss : List Signal) : Decidable (p.Complete ss) :=
  inferInstanceAs (Decidable (Found _ _ _))

theorem complete_iff {p : Pattern} {ss : List Signal} :
    (scan p.steps ss).length = p.steps.length ↔ p.Complete ss := by
  rw [scan_eq_pick, Pattern.Complete, Found]

theorem scan_append {p : Pattern} {ss : List Signal} (h : p.Complete ss) (ts : List Signal) :
    scan p.steps (ss ++ ts) = scan p.steps ss := by
  rw [scan_eq_pick, scan_eq_pick, pick_append h]

/-! ### Patterns and their identities -/

theorem steps_ne_nil {p : Pattern} (hp : p ∈ patterns) : p.steps ≠ [] := by
  have h : ∀ q ∈ patterns, q.steps ≠ [] := by decide
  exact h p hp

theorem patternIds_nodup : (patterns.map Pattern.patternId).Nodup := by decide

theorem patternId_inj {p q : Pattern} (hp : p ∈ patterns) (hq : q ∈ patterns)
    (h : p.patternId = q.patternId) : p = q :=
  List.inj_on_of_nodup_map patternIds_nodup hp hq h

theorem not_complete_nil {p : Pattern} (hp : p ∈ patterns) : ¬p.Complete [] := by
  rw [Pattern.Complete, found_iff, List.map_nil, List.sublist_nil]
  exact steps_ne_nil hp

/-- The identity of a completion determines the pattern. -/
theorem matchId_inj {p q : Pattern} (hp : p ∈ patterns) (hq : q ∈ patterns) {ss ts : List Signal}
    (h : p.matchId ss = q.matchId ts) : p = q := by
  have hcolon : ∀ r ∈ patterns, ':' ∉ r.patternId := by decide
  have htake : ∀ r ∈ patterns, ∀ us, (r.matchId us).takeWhile (· ≠ ':') = r.patternId := by
    intro r hr us
    rw [Pattern.matchId, List.append_assoc, List.takeWhile_append_of_pos]
    · exact List.append_nil _
    · intro c hc
      exact decide_eq_true fun he => hcolon r hr (he ▸ hc)
  refine patternId_inj hp hq ?_
  rw [← htake p hp ss, ← htake q hq ts, h]

/-! ### The loop of `observe` -/

/-- A pattern is reported when its scan is complete and its identity is not among the ones kept. -/
def New (ss : List Signal) (kept : List Str) (p : Pattern) : Prop :=
  p.Complete ss ∧ p.matchId (scan p.steps ss) ∉ kept

instance (ss : List Signal) (kept : List Str) : DecidablePred (New ss kept) := fun _ =>
  inferInstanceAs (Decidable (_ ∧ _))

theorem push_below {α : Type} {cap : ℕ} {d : List α} {x : α} (h : d.length < cap) :
    History.push cap d x = d ++ [x] := by
  refine if_neg ?_
  rw [List.length_append, List.length_singleton]
  omega

theorem report_pos {ss : List Signal} {kept : List Str} {fs : List Finding} {p : Pattern}
    (h : New ss kept p) (hroom : kept.length < maxMatches) :
    report ss (kept, fs) p =
      (kept ++ [p.matchId (scan p.steps ss)], fs ++ [p.finding (scan p.steps ss)]) := by
  rw [report, if_neg (not_not.mpr (complete_iff.mpr h.1)), if_neg h.2, push_below hroom]

theorem report_neg {ss : List Signal} {kept : List Str} {fs : List Finding} {p : Pattern}
    (h : ¬New ss kept p) : report ss (kept, fs) p = (kept, fs) := by
  rw [report]
  by_cases hc : p.Complete ss
  · have hm : p.matchId (scan p.steps ss) ∈ kept := by
      by_contra hm
      exact h ⟨hc, hm⟩
    rw [if_neg (not_not.mpr (complete_iff.mpr hc)), if_pos hm]
  · rw [if_pos fun hl => hc (complete_iff.mp hl)]

/-- The loop reports each new pattern, in order. -/
theorem foldl_report {ss : List Signal} : ∀ {ps : List Pattern} {kept : List Str}
    {fs : List Finding}, (∀ p ∈ ps, p ∈ patterns) → ps.Nodup →
      kept.length + ps.length ≤ maxMatches →
      ps.foldl (report ss) (kept, fs) =
        (kept ++ (ps.filter (New ss kept)).map (fun p => p.matchId (scan p.steps ss)),
          fs ++ (ps.filter (New ss kept)).map (fun p => p.finding (scan p.steps ss)))
  | [], kept, fs, _, _, _ => by simp
  | p :: ps, kept, fs, hps, hn, hroom => by
    obtain ⟨hp, hps⟩ := List.forall_mem_cons.mp hps
    obtain ⟨hnot, hn⟩ := List.nodup_cons.mp hn
    rw [List.length_cons] at hroom
    rw [List.foldl_cons]
    by_cases h : New ss kept p
    · have hsame : ps.filter (New ss (kept ++ [p.matchId (scan p.steps ss)])) =
          ps.filter (New ss kept) := by
        refine List.filter_congr fun q hq => decide_eq_decide.mpr ?_
        refine and_congr_right fun _ => not_congr ?_
        rw [List.mem_append, List.mem_singleton]
        refine or_iff_left fun he => hnot ?_
        rwa [← matchId_inj (hps q hq) hp he]
      rw [report_pos h (by omega), foldl_report hps hn (by simp; omega), hsame,
        List.filter_cons_of_pos (by simpa using h), List.map_cons, List.map_cons,
        List.append_assoc, List.append_assoc]
      rfl
    · rw [report_neg h, foldl_report hps hn (by omega),
        List.filter_cons_of_neg (by simpa using h)]

/-! ### One call -/

theorem admit_kept {C : Config} {signal : Signal} {now : Double} {e : Engine}
    (hs : (e.admitEvent C signal now).1.signals = e.signals ++ [signal]) :
    ((e.admitEvent C signal now).1.matched, (e.admitEvent C signal now).2) =
      patterns.foldl (report (e.signals ++ [signal])) (e.matched, []) := by
  rw [← hs, admit_eq]

/-- A call that appends its signal compares every pattern with the longer window. -/
theorem observe_accepts {C : Config} {signal : Signal} {now : Double} {fails : Bool} {w w' : World}
    {a : Assessment} (h : w.observe C signal now fails = (.ok a, w'))
    (hs : w'.engine.signals = w.engine.signals ++ [signal]) :
    (∀ s ∈ w.engine.signals, s.evidenceDigest ≠ signal.evidenceDigest) ∧
      (w'.engine.matched, a.findings) =
        patterns.foldl (report (w.engine.signals ++ [signal])) (w.engine.matched, []) := by
  rcases observe_cases C signal now fails w with
    ⟨r, hr⟩ | ⟨e, changed, reason, hgap, hr⟩ | ⟨hadm, hr⟩
  · rw [hr] at h
    cases h
  · rw [hr] at h
    have hkept := (settle_frame C changed fails e w).1
    rw [← assess_snd [] reason, h, hs, hgap.signals] at hkept
    exact absurd (congrArg List.length hkept) (by simp)
  · rw [hr] at h
    have hkept := settle_frame C true fails (w.engine.admitEvent C signal now).1 w
    rw [← assess_snd (w.engine.admitEvent C signal now).2 noSequence, h] at hkept
    rw [hs] at hkept
    refine ⟨hadm.fresh, ?_⟩
    rw [hkept.2, assess_ok (congrArg Prod.fst h), admit_kept hkept.1.symm]

/-! ### What is remembered -/

/-- The findings of the patterns that the last signal completes for the first time. -/
def firstFindings (ss : List Signal) (s : Signal) : List Finding :=
  (patterns.filter fun p => p.Complete (ss ++ [s]) ∧ ¬p.Complete ss).map fun p =>
    p.finding (scan p.steps (ss ++ [s]))

/-- The identities kept are those of the patterns the accepted signals complete. -/
structure Kept (ss : List Signal) (matched : List Str) : Prop where
  sound : ∀ m ∈ matched, ∃ p ∈ patterns, p.Complete ss ∧ m = p.matchId (scan p.steps ss)
  complete : ∀ p ∈ patterns, p.Complete ss → p.matchId (scan p.steps ss) ∈ matched
  count : matched.length = patterns.countP fun p => p.Complete ss

theorem Kept.nil : Kept [] [] := by
  refine ⟨fun m hm => absurd hm List.not_mem_nil, ?_, ?_⟩
  · intro p hp hc
    exact absurd hc (not_complete_nil hp)
  · refine (List.countP_eq_zero.mpr fun p hp => ?_).symm
    simpa using not_complete_nil hp

variable {ss : List Signal} {matched : List Str} {s : Signal}

/-- The new patterns are those that the last signal completes for the first time. -/
theorem Kept.new_iff (h : Kept ss matched) {p : Pattern} (hp : p ∈ patterns) :
    New (ss ++ [s]) matched p ↔ p.Complete (ss ++ [s]) ∧ ¬p.Complete ss := by
  refine and_congr_right fun _ => not_congr ⟨fun hm => ?_, fun hc => ?_⟩
  · obtain ⟨q, hq, hc, he⟩ := h.sound _ hm
    rwa [matchId_inj hp hq he]
  · rw [scan_append hc]
    exact h.complete p hp hc

theorem countP_split {α : Type} {p q r : α → Bool} : ∀ {l : List α},
    (∀ a ∈ l, r a = (p a || q a) ∧ (p a && q a) = false) → l.countP r = l.countP p + l.countP q
  | [], _ => rfl
  | a :: l, h => by
    obtain ⟨⟨hr, hd⟩, hl⟩ := List.forall_mem_cons.mp h
    rw [List.countP_cons, List.countP_cons, List.countP_cons, countP_split hl, hr]
    cases hp : p a <;> cases hq : q a <;> simp [hp, hq] at hd ⊢ <;> omega

theorem Kept.append (h : Kept ss matched) :
    Kept (ss ++ [s]) (matched ++ (patterns.filter (New (ss ++ [s]) matched)).map fun p =>
      p.matchId (scan p.steps (ss ++ [s]))) := by
  constructor
  · intro m hm
    rcases List.mem_append.mp hm with hm | hm
    · obtain ⟨p, hp, hc, rfl⟩ := h.sound m hm
      exact ⟨p, hp, hc.append [s], by rw [scan_append hc]⟩
    · obtain ⟨p, hp, rfl⟩ := List.mem_map.mp hm
      obtain ⟨hp, hnew⟩ := List.mem_filter.mp hp
      exact ⟨p, hp, (of_decide_eq_true hnew).1, rfl⟩
  · intro p hp hc
    rw [List.mem_append]
    by_cases hold : p.Complete ss
    · rw [scan_append hold]
      exact .inl (h.complete p hp hold)
    · refine .inr (List.mem_map.mpr ⟨p, List.mem_filter.mpr ⟨hp, ?_⟩, rfl⟩)
      exact decide_eq_true ((h.new_iff hp).mpr ⟨hc, hold⟩)
  · rw [List.length_append, List.length_map, ← List.countP_eq_length_filter, h.count]
    refine (countP_split fun p hp => ?_).symm
    have hgrow : p.Complete ss → p.Complete (ss ++ [s]) := fun hc => hc.append [s]
    have hnew : decide (New (ss ++ [s]) matched p) =
        decide (p.Complete (ss ++ [s]) ∧ ¬p.Complete ss) := decide_eq_decide.mpr (h.new_iff hp)
    rw [hnew]
    by_cases hc : p.Complete ss
    · simp [hc, hgrow hc]
    · simp [hc]

/-- Each call returned the findings of the patterns its signal completed first. -/
inductive Told : List (Signal × List Finding) → Prop where
  | nil : Told []
  | snoc {log : List (Signal × List Finding)} {s : Signal} (h : Told log)
    (hs : ∀ t ∈ log.map Prod.fst, t.evidenceDigest ≠ s.evidenceDigest) :
    Told (log ++ [(s, firstFindings (log.map Prod.fst) s)])

structure Watch.Sound (s : Watch) : Prop where
  signals : s.world.engine.signals = s.signals
  kept : Kept s.signals s.world.engine.matched
  told : Told s.log

theorem Watch.Sound.step {C : Config} {s s' : Watch} {label : Signal × Double × Bool}
    (h : s.Sound) (hstep : s.Step C label s') : s'.Sound := by
  obtain ⟨a, hobserve, hsignals, hlog⟩ := hstep
  obtain ⟨hfresh, hreport⟩ := observe_accepts hobserve hsignals
  have hroom : s.world.engine.matched.length + patterns.length ≤ maxMatches := by
    have hle : _ ≤ patterns.length := List.countP_le_length (p := fun p => decide (p.Complete s.signals))
    rw [← h.kept.count] at hle
    have : patterns.length = 3 := rfl
    have : maxMatches = 128 := rfl
    omega
  rw [foldl_report (fun _ hp => hp) patternIds_nodup.of_map hroom, h.signals] at hreport
  obtain ⟨hmatched, hfindings⟩ := Prod.mk.inj hreport
  rw [List.nil_append] at hfindings
  have hgrown : s'.signals = s.signals ++ [label.1] := by
    rw [Watch.signals, hlog, List.map_append, List.map_singleton, Watch.signals]
  refine ⟨?_, ?_, ?_⟩
  · rw [hsignals, hgrown, h.signals]
  · rw [hgrown, hmatched]
    exact h.kept.append
  · have hnew : a.findings = firstFindings s.signals label.1 := by
      rw [hfindings, firstFindings]
      congr 1
      exact List.filter_congr fun p hp => decide_eq_decide.mpr (h.kept.new_iff hp)
    rw [hlog, hnew]
    refine h.told.snoc fun t ht => hfresh t ?_
    rw [h.signals]
    exact ht

theorem Watch.Sound.run {C : Config} {w : World} (hs : w.engine.signals = [])
    (hm : w.engine.matched = []) {labels : List (Signal × Double × Bool)} {s : Watch}
    (h : Run (Watch.Step C) ⟨w, []⟩ labels s) : s.Sound := by
  refine h.invariant (fun _ _ _ hI hstep => hI.step hstep) ⟨hs, ?_, .nil⟩
  rw [hm]
  exact Kept.nil

/-! ### What is reported -/

theorem Told.of_append {log later : List (Signal × List Finding)} (h : Told (log ++ later)) :
    Told log := by
  induction later using List.reverseRecOn with
  | nil => rwa [List.append_nil] at h
  | append_singleton later e ih =>
    rw [← List.append_assoc] at h
    generalize hl : log ++ later ++ [e] = l at h
    cases h with
    | nil => simp at hl
    | snoc hlog _ =>
      obtain ⟨hl, -⟩ := List.append_inj' hl rfl
      exact ih (hl ▸ hlog)

theorem Told.entry {log later : List (Signal × List Finding)} {s : Signal} {fs : List Finding}
    (h : Told (log ++ (s, fs) :: later)) :
    Told log ∧ fs = firstFindings (log.map Prod.fst) s := by
  rw [List.append_cons] at h
  have hlast := h.of_append
  generalize hl : log ++ [(s, fs)] = l at hlast
  cases hlast with
  | nil => simp at hl
  | snoc hlog _ =>
    obtain ⟨rfl, he⟩ := List.append_inj' hl rfl
    obtain ⟨rfl, rfl⟩ := Prod.mk.inj (List.cons.inj he).1
    exact ⟨hlog, rfl⟩

theorem Told.digests {log : List (Signal × List Finding)} (h : Told log) :
    ((log.map Prod.fst).map Signal.evidenceDigest).Nodup := by
  induction h with
  | nil => exact .nil
  | snoc _ hs ih =>
    rw [List.map_append, List.map_append, List.nodup_append]
    refine ⟨ih, List.nodup_singleton _, ?_⟩
    rintro d hd _ (_ | ⟨_, ⟨⟩⟩) rfl
    obtain ⟨t, ht, hd⟩ := List.mem_map.mp hd
    exact hs t ht hd

theorem mem_firstFindings {f : Finding} : f ∈ firstFindings ss s ↔
    ∃ p ∈ patterns, (p.Complete (ss ++ [s]) ∧ ¬p.Complete ss) ∧
      p.finding (scan p.steps (ss ++ [s])) = f := by
  simp only [firstFindings, List.mem_map, List.mem_filter, decide_eq_true_eq, and_assoc]

/-- A finding is the scan of its pattern over the accepted signals, and there is one for every
    pattern they complete. -/
theorem Told.findings {log : List (Signal × List Finding)} (h : Told log) {p : Pattern}
    (hp : p ∈ patterns) :
    (∀ f ∈ log.flatMap Prod.snd, f.patternId = p.patternId →
      p.Complete (log.map Prod.fst) ∧ f = p.finding (scan p.steps (log.map Prod.fst))) ∧
    (p.Complete (log.map Prod.fst) → ∃ f ∈ log.flatMap Prod.snd, f.patternId = p.patternId) := by
  induction h with
  | nil =>
    refine ⟨fun f hf => absurd hf List.not_mem_nil, fun hc => ?_⟩
    exact absurd hc (not_complete_nil hp)
  | @snoc log s _ _ ih =>
    rw [List.flatMap_append, List.map_append, List.flatMap_singleton, List.map_singleton]
    constructor
    · intro f hf hid
      rcases List.mem_append.mp hf with hf | hf
      · obtain ⟨hc, rfl⟩ := ih.1 f hf hid
        exact ⟨hc.append _, by rw [scan_append hc]⟩
      · obtain ⟨q, hq, ⟨hc, -⟩, rfl⟩ := mem_firstFindings.mp hf
        obtain rfl := patternId_inj hq hp hid
        exact ⟨hc, rfl⟩
    · intro hc
      by_cases hold : p.Complete (log.map Prod.fst)
      · obtain ⟨f, hf, hid⟩ := ih.2 hold
        exact ⟨f, List.mem_append_left _ hf, hid⟩
      · exact ⟨_, List.mem_append_right _ (mem_firstFindings.mpr ⟨p, hp, ⟨hc, hold⟩, rfl⟩), rfl⟩

/-- Before a pattern is complete all signals count towards it. -/
theorem Told.since_none {log : List (Signal × List Finding)} (h : Told log) {p : Pattern}
    (hp : p ∈ patterns) (hc : ¬p.Complete (log.map Prod.fst)) : since p log = log.map Prod.fst := by
  have hnone : lastFinding p log = none := by
    rw [lastFinding, List.find?_eq_none]
    intro f hf
    rw [decide_eq_true_eq]
    intro hid
    exact hc ((h.findings hp).1 f (List.mem_reverse.mp hf) hid).1
  rw [since, hnone]

/-- Afterwards those count that stand after its completion. -/
theorem Told.since_some {log : List (Signal × List Finding)} (h : Told log) {p : Pattern}
    (hp : p ∈ patterns) (hc : p.Complete (log.map Prod.fst)) :
    since p log = rest Signal.kind p.steps (log.map Prod.fst) := by
  obtain ⟨hall, hex⟩ := h.findings hp
  obtain ⟨f, hf⟩ : ∃ f, lastFinding p log = some f := by
    obtain ⟨f, hf, hid⟩ := hex hc
    rw [← Option.isSome_iff_exists, lastFinding, List.find?_isSome]
    exact ⟨f, List.mem_reverse.mpr hf, decide_eq_true hid⟩
  have hid : f.patternId = p.patternId := by simpa using List.find?_some hf
  have hmem : f ∈ log.flatMap Prod.snd := List.mem_reverse.mp (List.mem_of_find?_eq_some hf)
  obtain ⟨-, hfind⟩ := hall f hmem hid
  obtain ⟨pre, x, hsplit, hlast⟩ := exists_last hc (steps_ne_nil hp)
  have hdigest : f.evidenceDigests.getLast? = some x.evidenceDigest := by
    rw [hfind, Pattern.finding, List.getLast?_map, scan_eq_pick, hlast, Option.map_some]
  have hn := h.digests
  rw [since, hf]
  dsimp only
  rw [hdigest]
  generalize rest Signal.kind p.steps (log.map Prod.fst) = tail at hsplit ⊢
  rw [hsplit, List.map_append, List.map_cons] at hn
  have hlater : ∀ t ∈ tail, decide (some t.evidenceDigest ≠ some x.evidenceDigest) = true := by
    intro t ht
    refine decide_eq_true fun he => ?_
    have hx := (List.nodup_cons.mp (List.nodup_append.mp hn).2.1).1
    exact hx (List.mem_map.mpr ⟨t, ht, Option.some.inj he⟩)
  rw [hsplit, List.rtakeWhile, List.reverse_append, List.reverse_cons, List.append_assoc,
    List.takeWhile_append_of_pos (fun t ht => hlater t (List.mem_reverse.mp ht)),
    List.singleton_append, List.takeWhile_cons_of_neg (by simp), List.append_nil,
    List.reverse_reverse]

/-! ### Coverage -/

/-- A property that a list gains, it gains at one entry. -/
theorem exists_first {α : Type} {P : List α → Prop} (h0 : ¬P []) {l : List α} (h : P l) :
    ∃ earlier x later, l = earlier ++ x :: later ∧ ¬P earlier ∧ P (earlier ++ [x]) := by
  induction l using List.reverseRecOn with
  | nil => exact absurd h h0
  | append_singleton l x ih =>
    by_cases hl : P l
    · obtain ⟨earlier, y, later, rfl, hnot, hx⟩ := ih hl
      exact ⟨earlier, y, later ++ [x], by simp, hnot, hx⟩
    · exact ⟨l, x, [], rfl, hl, h⟩

/-- The signal that brings the steps around a second time completes the pattern after its report. -/
theorem Told.second {log : List (Signal × List Finding)} (h : Told log) {p : Pattern}
    (hp : p ∈ patterns) {s : Signal}
    (hnot : ¬(p.steps ++ p.steps).Sublist ((log.map Prod.fst).map Signal.kind))
    (hnow : (p.steps ++ p.steps).Sublist ((log.map Prod.fst).map Signal.kind ++ [s.kind])) :
    p.Complete (log.map Prod.fst) ∧ Completes p log s := by
  obtain ⟨init, hinit, hsub⟩ := sublist_concat_new hnow hnot
  obtain ⟨start, k, hstart⟩ := (List.eq_nil_or_concat' p.steps).resolve_left (steps_ne_nil hp)
  have hend : p.steps ++ start ++ [k] = init ++ [s.kind] := by
    rw [← hinit, List.append_assoc, ← hstart]
  obtain ⟨rfl, hk⟩ := List.append_inj' hend rfl
  obtain ⟨hc, hstart'⟩ := append_sublist_iff.mp hsub
  refine ⟨hc, ?_⟩
  obtain ⟨occurrence, hocc, rfl⟩ := List.sublist_map_iff.mp hstart'
  refine ⟨occurrence, ?_, ?_⟩
  · rw [h.since_some hp hc]
    exact hocc
  · rw [List.map_append, List.map_singleton, hstart, hk]

theorem Told.covered_iff {log : List (Signal × List Finding)} (htold : Told log) {p : Pattern}
    (hp : p ∈ patterns) :
    Covered p log ↔ ¬(p.steps ++ p.steps).Sublist ((log.map Prod.fst).map Signal.kind) := by
  constructor
  · intro hcovered htwice
    have hstart : ¬(p.steps ++ p.steps).Sublist
        ((([] : List (Signal × List Finding)).map Prod.fst).map Signal.kind) := by
      rw [List.map_nil, List.map_nil, List.sublist_nil, List.append_eq_nil_iff]
      exact fun hnil => steps_ne_nil hp hnil.1
    obtain ⟨earlier, ⟨t, fs⟩, later, rfl, hnot, hnow⟩ := exists_first
      (P := fun l => (p.steps ++ p.steps).Sublist ((l.map Prod.fst).map Signal.kind)) hstart htwice
    obtain ⟨hearlier, rfl⟩ := htold.entry
    rw [List.map_append, List.map_append] at hnow
    obtain ⟨hc, hcompletes⟩ := hearlier.second hp hnot hnow
    obtain ⟨f, hf, hid⟩ := hcovered earlier t _ later rfl hcompletes
    obtain ⟨q, hq, ⟨-, hfirst⟩, rfl⟩ := mem_firstFindings.mp hf
    obtain rfl := patternId_inj hq hp hid
    exact hfirst hc
  · rintro hnot earlier t fs later rfl ⟨occurrence, hocc, hkinds⟩
    obtain ⟨hearlier, rfl⟩ := htold.entry
    have hall : ((earlier.map Prod.fst).map Signal.kind ++ [t.kind]).Sublist
        (((earlier ++ (t, firstFindings (earlier.map Prod.fst) t) :: later).map Prod.fst).map
          Signal.kind) := by
      rw [List.map_append, List.map_append, List.map_cons, List.map_cons]
      exact (List.Sublist.refl _).append ((List.nil_sublist _).cons_cons _)
    rw [List.map_append, List.map_singleton] at hkinds
    by_cases hc : p.Complete (earlier.map Prod.fst)
    · -- the occurrence follows the steps the report was for
      rw [hearlier.since_some hp hc] at hocc
      have htwice := append_sublist_iff.mpr ⟨hc, hocc.map Signal.kind⟩
      refine absurd (List.Sublist.trans ?_ hall) hnot
      rw [← hkinds, ← List.append_assoc, hkinds]
      exact htwice.append (List.Sublist.refl _)
    · rw [hearlier.since_none hp hc] at hocc
      have hnow : p.Complete (earlier.map Prod.fst ++ [t]) := by
        rw [Pattern.Complete, found_iff, List.map_append, ← hkinds]
        exact (hocc.map Signal.kind).append (List.Sublist.refl _)
      exact ⟨_, mem_firstFindings.mpr ⟨p, hp, ⟨hnow, hc⟩, rfl⟩, rfl⟩

/-- CORRECT: in every run of accepted signals, every signal that completes a pattern since the last
    finding gets a finding for it exactly when the accepted kinds do not hold the steps of the
    pattern twice over. -/
theorem Watch.findings_iff {C : Config} {w : World} (hs : w.engine.signals = [])
    (hm : w.engine.matched = []) {labels : List (Signal × Double × Bool)} {s : Watch}
    (h : Run (Watch.Step C) ⟨w, []⟩ labels s) {p : Pattern} (hp : p ∈ patterns) :
    Covered p s.log ↔ ¬(p.steps ++ p.steps).Sublist (s.signals.map Signal.kind) :=
  (Watch.Sound.run hs hm h).told.covered_iff hp

/-! ### Two campaigns -/

/-- The watch after a call, when its signal is accepted and none dropped. -/
def Watch.call (C : Config) (s : Watch) (label : Signal × Double × Bool) : Option Watch :=
  match s.world.observe C label.1 label.2.1 label.2.2 with
  | (.ok a, w) =>
    if w.engine.signals = s.world.engine.signals ++ [label.1] then
      some ⟨w, s.log ++ [(label.1, a.findings)]⟩
    else none
  | (.error _, _) => none

theorem Watch.step_of_call {C : Config} {s s' : Watch} {label : Signal × Double × Bool}
    (h : s.call C label = some s') : s.Step C label s' := by
  rw [Watch.call] at h
  rcases hobserve : s.world.observe C label.1 label.2.1 label.2.2 with ⟨r | a, w⟩
  · rw [hobserve] at h
    cases h
  · rw [hobserve] at h
    dsimp only at h
    split at h
    · obtain rfl := Option.some.inj h
      exact ⟨a, hobserve, ‹_›, rfl⟩
    · cases h

/-- A run that ends with the given kinds accepted. -/
theorem Watch.run_of_kinds {C : Config} {s : Watch} (labels : List (Signal × Double × Bool))
    (kinds : List Kind)
    (h : (labels.foldlM (Watch.call C) s).map (fun t => t.signals.map Signal.kind) = some kinds) :
    ∃ t, Run (Watch.Step C) s labels t ∧ t.signals.map Signal.kind = kinds := by
  obtain ⟨t, ht, hkinds⟩ := Option.map_eq_some_iff.mp h
  exact ⟨t, (Run.of_exec ht).mono fun _ _ _ => Watch.step_of_call, hkinds⟩

/-- One observation for each kind, with different evidence, all at the time zero. -/
def observations (kinds : List Kind) : List (Signal × Double × Bool) :=
  kinds.zipIdx.map fun (kind, n) =>
    (⟨kind, .finite .zero, List.replicate n 'a' ++ zeros (64 - n),
      "source:v1:".toList ++ zeros 32, .brokerProvenanced, zeros 64⟩, .zero, false)

/-- Key drift, a session and a tunnel. -/
def tunnelSteps : List Kind := [.sshKeyChange, .sshSession, .sshTunnel]

theorem Watch.findings_iff_once : ∃ p ∈ patterns, ∃ s,
    Run (Watch.Step sample) ⟨World.start .zero, []⟩ (observations tunnelSteps) s ∧
      Covered p s.log := by
  obtain ⟨s, hrun, hkinds⟩ := Watch.run_of_kinds (C := sample) (s := ⟨World.start .zero, []⟩)
    (observations tunnelSteps) tunnelSteps (by decide +kernel)
  refine ⟨_, List.mem_cons_self, s, hrun, ?_⟩
  rw [Watch.findings_iff rfl rfl hrun List.mem_cons_self, hkinds]
  decide

/-- The second of two campaigns of one pattern, one after the other, is not reported. -/
theorem Watch.second_campaign_unreported : ∃ p ∈ patterns, ∃ s,
    Run (Watch.Step sample) ⟨World.start .zero, []⟩ (observations (tunnelSteps ++ tunnelSteps)) s ∧
      ¬Covered p s.log := by
  obtain ⟨s, hrun, hkinds⟩ := Watch.run_of_kinds (C := sample) (s := ⟨World.start .zero, []⟩)
    (observations (tunnelSteps ++ tunnelSteps)) (tunnelSteps ++ tunnelSteps) (by decide +kernel)
  refine ⟨_, List.mem_cons_self, s, hrun, ?_⟩
  rw [(Watch.Sound.run rfl rfl hrun).told.covered_iff List.mem_cons_self, not_not]
  rw [Watch.signals] at hkinds
  rw [hkinds]
  decide

end Angerona.Temporal
