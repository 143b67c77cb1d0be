import Angerona.Temporal.Detection

/-!
    What more evidence does to a finding.

    A history and a longer one, in which other signals stand between those of the first, are two
    runs of `observe`. The scan takes the earliest signals of the longer history, of whatever
    grade, and the severity of a finding is capped by the lowest grade among them. -/

namespace Angerona.Temporal
open Text PyJson Transition Subsequence

/-! ### Severities -/

def mediumSeverity : Str := "Medium".toList

/-- The order of the severities that `observe` gives. -/
def severityRank (severity : Str) : ℕ :=
  if severity = "Critical".toList then 3
  else if severity = "High".toList then 2
  else if severity = mediumSeverity then 1
  else 0

theorem rank_pattern {p : Pattern} (hp : p ∈ patterns) :
    severityRank mediumSeverity < severityRank p.severity ∧ p.severity ≠ mediumSeverity := by
  have h : ∀ q ∈ patterns,
      severityRank mediumSeverity < severityRank q.severity ∧ q.severity ≠ mediumSeverity := by
    decide
  exact h p hp

/-! ### The grades that count -/

/-- Every signal that brings the next step of the pattern together is broker-provenanced. -/
def Led (p : Pattern) (ss : List Signal) : Prop :=
  ∀ n < p.steps.length, ∀ earlier x later, ss = earlier ++ x :: later →
    Brings Signal.kind p.steps n earlier x → x.evidenceGrade = .brokerProvenanced

theorem led_iff {p : Pattern} {ss : List Signal} :
    gradeOf (scan p.steps ss) = .brokerProvenanced ↔ Led p ss := by
  rw [Led, ← forall_pick_iff (P := fun x : Signal => x.evidenceGrade = .brokerProvenanced),
    ← scan_eq_pick, gradeOf]
  split
  · rename_i hall
    simpa using hall
  · rename_i hall
    refine iff_of_false ?_ fun hled => hall ?_
    · split
      · exact Grade.noConfusion
      · exact Grade.noConfusion
    · simpa using hled

/-- The severity of a finding over the signals. -/
theorem severity_finding {p : Pattern} {ss : List Signal} :
    (p.finding (scan p.steps ss)).severity = if gradeOf (scan p.steps ss) = .brokerProvenanced then
      p.severity else mediumSeverity := rfl

/-! ### Two histories -/

/-- All findings of a pattern are one, and its severity is that of the scan. -/
theorem Told.severe_iff {log : List (Signal × List Finding)} (h : Told log) {p : Pattern}
    (hp : p ∈ patterns) (hc : p.Complete (log.map Prod.fst)) (severity : Str) :
    (∃ g ∈ log.flatMap Prod.snd, g.patternId = p.patternId ∧
        severityRank severity ≤ severityRank g.severity) ↔
      severityRank severity ≤ severityRank (p.finding (scan p.steps (log.map Prod.fst))).severity := by
  obtain ⟨hall, hex⟩ := h.findings hp
  constructor
  · rintro ⟨g, hg, hid, hle⟩
    rwa [(hall g hg hid).2] at hle
  · intro hle
    obtain ⟨g, hg, hid⟩ := hex hc
    refine ⟨g, hg, hid, ?_⟩
    rwa [(hall g hg hid).2]

theorem Told.more_covered {log log' : List (Signal × List Finding)} (h : Told log)
    (h' : Told log') (hsub : (log.map Prod.fst).Sublist (log'.map Prod.fst)) {p : Pattern}
    (hp : p ∈ patterns) {f : Finding} (hf : f ∈ log.flatMap Prod.snd)
    (hid : f.patternId = p.patternId) :
    (∃ g ∈ log'.flatMap Prod.snd, g.patternId = p.patternId) ∧
      ((∃ g ∈ log'.flatMap Prod.snd, g.patternId = p.patternId ∧
          severityRank f.severity ≤ severityRank g.severity) ↔
        f.severity = mediumSeverity ∨ Led p (log'.map Prod.fst)) := by
  obtain ⟨hc, rfl⟩ := (h.findings hp).1 f hf hid
  have hc' : p.Complete (log'.map Prod.fst) := by
    rw [Pattern.Complete, found_iff] at hc ⊢
    exact hc.trans (hsub.map Signal.kind)
  refine ⟨(h'.findings hp).2 hc', ?_⟩
  obtain ⟨hrank, hne⟩ := rank_pattern hp
  rw [h'.severe_iff hp hc', ← led_iff, severity_finding, severity_finding]
  by_cases hled : gradeOf (scan p.steps (log.map Prod.fst)) = .brokerProvenanced
  · rw [if_pos hled]
    by_cases hled' : gradeOf (scan p.steps (log'.map Prod.fst)) = .brokerProvenanced
    · rw [if_pos hled']
      exact iff_of_true (le_refl _) (.inr hled')
    · rw [if_neg hled']
      refine iff_of_false (by omega) ?_
      rintro (hmedium | hbroker)
      · exact hne hmedium
      · exact hled' hbroker
  · rw [if_neg hled]
    refine iff_of_true ?_ (.inl rfl)
    split
    · omega
    · exact le_refl _

variable {C : Config} {w w' : World} {labels labels' : List (Signal × Double × Bool)}
  {s s' : Watch}

/-- The findings of all calls of a run. -/
def Watch.findings (s : Watch) : List Finding := s.log.flatMap Prod.snd

/-- CORRECT: a finding of a history is there for every history with more signals. It is at least as
    severe exactly when it was of medium severity, or the signals that bring the steps together in
    the longer history are broker-provenanced. -/
theorem Watch.more_evidence (hs : w.engine.signals = []) (hm : w.engine.matched = [])
    (h : Run (Watch.Step C) ⟨w, []⟩ labels s) (hs' : w'.engine.signals = [])
    (hm' : w'.engine.matched = []) (h' : Run (Watch.Step C) ⟨w', []⟩ labels' s')
    (hsub : s.signals.Sublist s'.signals) {p : Pattern} (hp : p ∈ patterns) {f : Finding}
    (hf : f ∈ s.findings) (hid : f.patternId = p.patternId) :
    (∃ g ∈ s'.findings, g.patternId = p.patternId) ∧
      ((∃ g ∈ s'.findings, g.patternId = p.patternId ∧
          severityRank f.severity ≤ severityRank g.severity) ↔
        f.severity = mediumSeverity ∨ Led p s'.signals) :=
  (Watch.Sound.run hs hm h).told.more_covered (Watch.Sound.run hs' hm' h').told hsub hp hf hid

/-! ### Sample histories -/

/-- A run accepts the signals of its labels. -/
theorem Watch.signals_of_run {s t : Watch} (h : Run (Watch.Step C) s labels t) :
    t.signals = s.signals ++ labels.map Prod.fst := by
  induction h with
  | nil => rw [List.map_nil, List.append_nil]
  | snoc _ hstep ih =>
    obtain ⟨a, -, -, hlog⟩ := hstep
    rw [Watch.signals, hlog, List.map_append, List.map_append, ← List.append_assoc, ← ih]
    rfl

theorem Watch.run_of_accepted {s : Watch}
    (h : (labels.foldlM (Watch.call C) s).isSome = true) :
    ∃ t, Run (Watch.Step C) s labels t ∧ t.signals = s.signals ++ labels.map Prod.fst := by
  obtain ⟨t, ht⟩ := Option.isSome_iff_exists.mp h
  have hrun : Run (Watch.Step C) s labels t := (Run.of_exec ht).mono fun _ _ _ => Watch.step_of_call
  exact ⟨t, hrun, Watch.signals_of_run hrun⟩

/-- A finding of a complete pattern. -/
theorem Watch.exists_finding {p : Pattern} (hp : p ∈ patterns)
    (h : Run (Watch.Step C) ⟨World.start .zero, []⟩ labels s)
    (hc : p.Complete (labels.map Prod.fst)) : ∃ f ∈ s.findings, f.patternId = p.patternId := by
  refine ((Watch.Sound.run rfl rfl h).told.findings hp).2 ?_
  have hsignals := Watch.signals_of_run h
  rw [Watch.signals] at hsignals
  rwa [hsignals]

/-- A key drift of some grade, and key drift, a session and a tunnel that are provenanced. -/
def drifted (grade : Grade) : List (Signal × Double × Bool) :=
  ((observations (.sshKeyChange :: tunnelSteps)).zip
      (grade :: List.replicate 3 Grade.brokerProvenanced)).map fun o =>
    ({ o.1.1 with evidenceGrade := o.2 }, o.1.2)

/-- The three observations without the first drift, and with it. -/
theorem drifted_runs (grade : Grade) (hg : grade ∈ [Grade.brokerProvenanced, .unprovenanced]) :
    ∃ s s', Run (Watch.Step sample) ⟨World.start .zero, []⟩ (drifted grade).tail s ∧
      Run (Watch.Step sample) ⟨World.start .zero, []⟩ (drifted grade) s' ∧
      s.signals = (drifted grade).tail.map Prod.fst ∧
      s'.signals = (drifted grade).map Prod.fst := by
  have haccepted : ∀ g ∈ [Grade.brokerProvenanced, .unprovenanced],
      (((drifted g).tail.foldlM (Watch.call sample) ⟨World.start .zero, []⟩).isSome = true) ∧
        ((drifted g).foldlM (Watch.call sample) ⟨World.start .zero, []⟩).isSome = true := by
    decide +kernel
  obtain ⟨s, hs, hsignals⟩ := Watch.run_of_accepted (haccepted grade hg).1
  obtain ⟨s', hs', hsignals'⟩ := Watch.run_of_accepted (haccepted grade hg).2
  exact ⟨s, s', hs, hs', hsignals, hsignals'⟩

theorem Watch.more_evidence_drifted : ∃ p ∈ patterns, ∃ s s', ∃ f ∈ s.findings,
    Run (Watch.Step sample) ⟨World.start .zero, []⟩ (drifted .brokerProvenanced).tail s ∧
      Run (Watch.Step sample) ⟨World.start .zero, []⟩ (drifted .brokerProvenanced) s' ∧
      ((∃ g ∈ s'.findings, g.patternId = p.patternId ∧
          severityRank f.severity ≤ severityRank g.severity) ↔
        f.severity = mediumSeverity ∨ Led p s'.signals) := by
  obtain ⟨s, s', hs, hs', hsignals, hsignals'⟩ := drifted_runs .brokerProvenanced List.mem_cons_self
  have hsub : s.signals.Sublist s'.signals := by
    rw [hsignals, hsignals']
    exact (List.tail_sublist _).map Prod.fst
  obtain ⟨f, hf, hid⟩ := Watch.exists_finding List.mem_cons_self hs (by decide +kernel)
  exact ⟨_, List.mem_cons_self, s, s', f, hf, hs, hs',
    (Watch.more_evidence rfl rfl hs rfl rfl hs' hsub List.mem_cons_self hf hid).2⟩

/-- One unprovenanced drift before the others takes a finding from high to medium severity. -/
theorem Watch.early_drift_downgrades : ¬∀ (C : Config) (w w' : World)
    (labels labels' : List (Signal × Double × Bool)) (s s' : Watch),
    w.engine.signals = [] → w.engine.matched = [] → Run (Watch.Step C) ⟨w, []⟩ labels s →
      w'.engine.signals = [] → w'.engine.matched = [] → Run (Watch.Step C) ⟨w', []⟩ labels' s' →
      s.signals.Sublist s'.signals → ∀ p ∈ patterns, ∀ f ∈ s.findings, f.patternId = p.patternId →
        ∃ g ∈ s'.findings, g.patternId = p.patternId ∧
          severityRank f.severity ≤ severityRank g.severity := by
  intro hall
  obtain ⟨s, s', hs, hs', hsignals, hsignals'⟩ := drifted_runs .unprovenanced (by simp)
  have hsub : s.signals.Sublist s'.signals := by
    rw [hsignals, hsignals']
    exact (List.tail_sublist _).map Prod.fst
  obtain ⟨f, hf, hid⟩ := Watch.exists_finding List.mem_cons_self hs (by decide +kernel)
  have htold := (Watch.Sound.run rfl rfl hs).told
  have htold' := (Watch.Sound.run rfl rfl hs').told
  have hsevere := hall _ _ _ _ _ s s' rfl rfl hs rfl rfl hs' hsub _ List.mem_cons_self f hf hid
  rw [Watch.findings, (htold.more_covered htold' hsub List.mem_cons_self hf hid).2] at hsevere
  rcases hsevere with hmedium | hled
  · obtain ⟨-, rfl⟩ := (htold.findings List.mem_cons_self).1 f hf hid
    rw [Watch.signals] at hsignals
    rw [hsignals] at hmedium
    exact absurd hmedium (by decide +kernel)
  · rw [← led_iff] at hled
    rw [Watch.signals] at hsignals'
    rw [hsignals'] at hled
    exact absurd hled (by decide +kernel)

end Angerona.Temporal
