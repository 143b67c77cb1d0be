import Angerona.Temporal.Engine

/-!
    What the calls of the temporal tradecraft engine change.

    A call raises before it changes anything, or it changes the engine once and saves the change or
    not. The change is a gap that is marked, a recovery, an overflow, the passing of time, or a
    signal that is admitted. -/

namespace Angerona.Temporal
open Text PyJson Raising

variable {C : Config}

/-! ### Tokens -/

theorem isToken_token (C : Config) (ns text : Str) {start : Str}
    (h : isToken (start ++ ":v1:".toList ++ List.replicate 32 '0') = true) (hc : ':' ∉ start) :
    isToken (C.token ns text start) = true := by
  have hns : ∀ c ∈ start, (decide (c ≠ ':')) = true := fun c hc' =>
    decide_eq_true fun he => hc (he ▸ hc')
  have htake : ∀ ds : Str, (start ++ ":v1:".toList ++ ds).takeWhile (· ≠ ':') = start := by
    intro ds
    rw [List.append_assoc, List.takeWhile_append_of_pos hns]
    exact List.append_nil _
  have hdrop : ∀ ds : Str, (start ++ ":v1:".toList ++ ds).dropWhile (· ≠ ':') = ":v1:".toList ++ ds := by
    intro ds
    rw [List.append_assoc, List.dropWhile_append_of_pos hns]
    rfl
  rw [isToken, htake, hdrop] at h
  rw [Config.token, isToken, htake, hdrop]
  cases start with
  | nil => exact h
  | cons c cs =>
    simp only [Bool.decide_and, Bool.decide_eq_true, Bool.and_eq_true] at h ⊢
    exact ⟨h.1, h.2.1, h.2.2.1, h.2.2.2.1, C.tokenDigits_hex ns text⟩

theorem isToken_sensor (C : Config) (ns text : Str) :
    isToken (C.token ns text "sensor".toList) = true :=
  isToken_token C ns text (by decide) (by decide)

theorem isToken_source (C : Config) (ns text : Str) :
    isToken (C.token ns text "source".toList) = true :=
  isToken_token C ns text (by decide) (by decide)

theorem isToken_sensorToken (C : Config) (source : Str) :
    isToken (sensorToken C source) = true := by
  rw [sensorToken]
  split
  · assumption
  · exact isToken_sensor C _ _

/-! ### Changes -/

/-- A gap in the evidence that a call marks, if any. -/
inductive Gap (e : Engine) : Engine → Prop where
  | none : Gap e e
  | missing {reason : Str} (now : Double) (hne : reason ≠ []) (hlen : reason.length ≤ 96) :
    Gap e { e with
      missingSince := some (e.missingSince.getD now)
      missingReasons := noteReason reason e.missingReasons }
  | blind {token : Str} (reason : Str) (htoken : isToken token = true) (hlen : reason.length ≤ 96) :
    Gap e { e with
      blindSources := insert token e.blindSources
      missingReasons :=
        if reason = [] then e.missingReasons else noteReason reason e.missingReasons }

/-- The checks a signal passes before it is appended. -/
structure Admissible (C : Config) (e : Engine) (signal : Signal) (now : Double) : Prop where
  attested : attestSignal C signal = .ok signal.attestation
  current : stale now signal.observedAt = false
  fresh : ∀ s ∈ e.signals, s.evidenceDigest ≠ signal.evidenceDigest
  monotonic : ∀ s ∈ e.signals.getLast?, before signal.observedAt s.observedAt = false

/-- The signals a call observes. -/
def Call.Observes (C : Config) (call : Call) (signal : Signal) : Prop :=
  match call with
  | .observe s _ => s = signal
  | .observeEvent event verified grade now _ =>
    prepareEvent C now event verified grade = .ok (some signal)
  | _ => False

/-- What a call that observes the signals `observed` makes of the engine. -/
inductive Change (C : Config) (observed : Signal → Prop) (e : Engine) : Engine → Prop where
  | gap {e' : Engine} (h : Gap e e') : Change C observed e e'
  | recovered (token : Str) :
    Change C observed e { e with blindSources := e.blindSources.erase token }
  | overflow (n : ℕ) (now : Double) :
    Change C observed e { e with dropped := e.dropped + n, overflowAt := some now }
  | tick (now : Double) : Change C observed e (e.prune C now)
  | admitEvent {signal : Signal} {now : Double} (ho : observed signal)
    (h : Admissible C e signal now) : Change C observed e (e.admitEvent C signal now).1

/-- The engine changes, and the change is saved or not. -/
def World.settle (C : Config) (changed fails : Bool) (e : Engine) (w : World) :
    Except Rejected Unit × World :=
  if changed then { w with engine := e }.save C fails else (.ok (), { w with engine := e })

/-! ### Calls -/

theorem cleaned_length (reason : Str) : (cleaned reason).length ≤ 96 := by
  rw [cleaned, List.length_take]
  exact min_le_left _ _

theorem markMissing_cases (C : Config) (reason : Str) (now : Double) (fails : Bool) (w : World) :
    ∃ e changed, Gap w.engine e ∧
      w.markMissing C reason now fails =
        World.assess [] noSequence (w.settle C changed fails e) := by
  have hreason : ∀ r, r = (if cleaned reason = [] then "unspecified-evidence-gap".toList
      else cleaned reason) → r ≠ [] ∧ r.length ≤ 96 := by
    rintro r rfl
    by_cases h : cleaned reason = []
    · rw [if_pos h]
      decide
    · rw [if_neg h]
      exact ⟨h, cleaned_length reason⟩
  obtain ⟨hne, hlen⟩ := hreason _ rfl
  exact ⟨_, _, .missing now hne hlen, rfl⟩

theorem markBlind_cases (C : Config) (source reason : Str) (fails : Bool) (w : World) :
    ∃ e changed, Gap w.engine e ∧
      w.markBlind C source reason fails =
        World.assess [] noSequence (w.settle C changed fails e) :=
  ⟨_, _, .blind (cleaned reason) (isToken_sensorToken C source) (cleaned_length reason), rfl⟩

/-- `observe` raises, marks a gap at most, or admits the signal. -/
theorem observe_cases (C : Config) (signal : Signal) (now : Double) (fails : Bool) (w : World) :
    (∃ r, w.observe C signal now fails = (.error r, w)) ∨
      (∃ e changed reason, Gap w.engine e ∧
        w.observe C signal now fails = World.assess [] reason (w.settle C changed fails e)) ∨
      (Admissible C w.engine signal now ∧
        w.observe C signal now fails =
          World.assess (w.engine.admitEvent C signal now).2 noSequence
            (w.settle C true fails (w.engine.admitEvent C signal now).1)) := by
  rw [World.observe]
  cases hattest : attestSignal C signal with
  | error r => exact .inl ⟨r, rfl⟩
  | ok attestation =>
    dsimp only
    by_cases h₁ : signal.attestation ≠ attestation
    · obtain ⟨e, changed, hgap, h⟩ := markBlind_cases C signal.sourceToken
        "signal-authentication-failed".toList fails w
      rw [if_pos h₁]
      exact .inr (.inl ⟨e, changed, _, hgap, h⟩)
    rw [if_neg h₁]
    by_cases h₂ : stale now signal.observedAt = true
    · obtain ⟨e, changed, hgap, h⟩ := markMissing_cases C
        "stale-or-future-temporal-evidence".toList now fails w
      rw [if_pos h₂]
      exact .inr (.inl ⟨e, changed, _, hgap, h⟩)
    rw [if_neg h₂]
    by_cases h₃ : (w.engine.signals.any fun s => s.evidenceDigest = signal.evidenceDigest) = true
    · rw [if_pos h₃]
      exact .inr (.inl ⟨w.engine, false, _, .none, rfl⟩)
    rw [if_neg h₃]
    by_cases h₄ : (w.engine.signals.getLast?.any fun s =>
        before signal.observedAt s.observedAt) = true
    · obtain ⟨e, changed, hgap, h⟩ := markMissing_cases C
        "non-monotonic-temporal-evidence".toList now fails w
      rw [if_pos h₄]
      exact .inr (.inl ⟨e, changed, _, hgap, h⟩)
    rw [if_neg h₄]
    refine .inr (.inr ⟨⟨?_, ?_, ?_, ?_⟩, rfl⟩)
    · rw [hattest, not_not.mp h₁]
    · exact Bool.not_eq_true _ ▸ h₂
    · intro s hs he
      exact h₃ (List.any_eq_true.mpr ⟨s, hs, decide_eq_true he⟩)
    · intro s hs
      by_contra hb
      refine h₄ ?_
      rw [Option.mem_def.mp hs]
      exact Bool.not_eq_false _ ▸ hb

/-- A call raises without a change, or makes one change and saves it or not. -/
theorem exec_cases (C : Config) (fails : Bool) (w : World) (call : Call) :
    (∃ r, w.exec C fails call = (.error r, w)) ∨
      ∃ e changed fs reason, Change C (call.Observes C) w.engine e ∧
        w.exec C fails call = World.assess fs reason (w.settle C changed fails e) := by
  have hgap : ∀ {x}, (∃ e changed, Gap w.engine e ∧
      x = World.assess [] noSequence (w.settle C changed fails e)) →
      ∃ e changed fs reason, Change C (call.Observes C) w.engine e ∧
        x = World.assess fs reason (w.settle C changed fails e) := by
    rintro x ⟨e, changed, hgap, rfl⟩
    exact ⟨e, changed, _, _, .gap hgap, rfl⟩
  have hobserve : ∀ signal now, call.Observes C signal →
      (∃ r, w.observe C signal now fails = (.error r, w)) ∨
      ∃ e changed fs reason, Change C (call.Observes C) w.engine e ∧
        w.observe C signal now fails = World.assess fs reason (w.settle C changed fails e) := by
    intro signal now ho
    rcases observe_cases C signal now fails w with
      h | ⟨e, changed, reason, hgap, h⟩ | ⟨hadm, h⟩
    · exact .inl h
    · exact .inr ⟨e, changed, _, _, .gap hgap, h⟩
    · exact .inr ⟨_, true, _, _, .admitEvent ho hadm, h⟩
  cases call with
  | observe signal now => exact hobserve signal now rfl
  | observeEvent event verified grade now later =>
    rw [World.exec, World.observeEvent]
    rcases hprepare : prepareEvent C now event verified grade with r | _ | signal
    · dsimp only
      split
      · exact .inr (hgap (markBlind_cases C _ _ fails w))
      · exact .inr (hgap (markMissing_cases C _ later fails w))
    · exact .inr ⟨w.engine, false, _, _, .gap .none, rfl⟩
    · exact hobserve signal later hprepare
  | markMissing reason now => exact .inr (hgap (markMissing_cases C reason now fails w))
  | markBlind source reason => exact .inr (hgap (markBlind_cases C source reason fails w))
  | markRecovered source =>
    refine .inr ⟨_, decide (sensorToken C source ∈ w.engine.blindSources), [],
      "sensor recovery recorded; prior gaps remain explicit",
      .recovered (sensorToken C source), ?_⟩
    rw [World.exec, World.markRecovered, World.settle]
    simp only [decide_eq_true_eq]
  | markOverflow dropped now => exact .inr ⟨_, true, _, _, .overflow (max 1 dropped).toNat now, rfl⟩
  | tick now => exact .inr ⟨_, _, _, _, .tick now, rfl⟩

/-! ### What a save leaves -/

theorem save_frame (C : Config) (fails : Bool) (w : World) :
    (w.save C fails).2.engine.signals = w.engine.signals ∧
      (w.save C fails).2.engine.matched = w.engine.matched := by
  rw [World.save]
  split
  · exact ⟨rfl, rfl⟩
  · dsimp only
    split
    · exact ⟨rfl, rfl⟩
    · split
      · exact ⟨rfl, rfl⟩
      · exact ⟨rfl, rfl⟩

theorem settle_frame (C : Config) (changed fails : Bool) (e : Engine) (w : World) :
    (w.settle C changed fails e).2.engine.signals = e.signals ∧
      (w.settle C changed fails e).2.engine.matched = e.matched := by
  rw [World.settle]
  split
  · exact save_frame C fails _
  · exact ⟨rfl, rfl⟩

@[simp] theorem assess_snd (fs : List Finding) (reason : String) (x : Except Rejected Unit × World) :
    (World.assess fs reason x).2 = x.2 := by
  obtain ⟨r, w⟩ := x
  cases r with
  | error e => rfl
  | ok u => rfl

theorem assess_ok {fs : List Finding} {reason : String} {x : Except Rejected Unit × World}
    {a : Assessment} (h : (World.assess fs reason x).1 = .ok a) : a.findings = fs := by
  obtain ⟨r, w⟩ := x
  cases r with
  | error e => cases h
  | ok u =>
    obtain rfl := Except.ok.inj h
    rfl

/-! ### What a change leaves -/

/-- A time is before the window. -/
def expired (C : Config) (now t : Double) : Bool := before (.finite t) (cutoff C now)

/-- `_prune`, field by field. -/
theorem prune_eq (C : Config) (now : Double) (e : Engine) :
    e.prune C now =
      { e with
        signals := e.signals.dropWhile fun s => before s.observedAt (cutoff C now)
        overflowAt := e.overflowAt.filter fun t => !expired C now t
        missingSince := e.missingSince.filter fun t => !expired C now t
        missingReasons := if e.missingSince.any (expired C now) then [] else e.missingReasons } := by
  obtain ⟨signals, matched, revision, missingSince, reasons, blind, overflowAt, dropped, status,
    locked⟩ := e
  have hexp : ∀ t, before (.finite t) (cutoff C now) = expired C now t := fun _ => rfl
  rcases overflowAt with _ | u
  · rcases missingSince with _ | t
    · rfl
    · cases h : expired C now t <;> simp [Engine.prune, hexp, h, Option.filter]
  · rcases missingSince with _ | t
    · cases h : expired C now u <;> simp [Engine.prune, hexp, h, Option.filter]
    · cases h : expired C now u <;> cases h' : expired C now t <;>
        simp [Engine.prune, hexp, h, h', Option.filter]

theorem prune_matched (C : Config) (now : Double) (e : Engine) :
    (e.prune C now).matched = e.matched := by
  rw [prune_eq]

theorem append_matched (C : Config) (signal : Signal) (now : Double) (e : Engine) :
    (e.append C signal now).matched = e.matched := by
  rw [Engine.append]
  split <;> rfl

theorem admit_eq (C : Config) (signal : Signal) (now : Double) (e : Engine) :
    let pruned := (e.append C signal now).prune C now
    let reported := patterns.foldl (report pruned.signals) (e.matched, [])
    e.admitEvent C signal now = ({ pruned with matched := reported.1 }, reported.2) := by
  intro pruned reported
  rw [Engine.admitEvent]
  dsimp only
  rw [prune_matched, append_matched]

theorem Gap.signals {e e' : Engine} (h : Gap e e') : e'.signals = e.signals := by
  cases h <;> rfl

/-! ### A fixed configuration -/

/-- Digits that are all zero. -/
def zeros (n : ℕ) : Str := List.replicate n '0'

theorem isHex_zeros (n : ℕ) : isHex n (zeros n) = true := by
  simp [isHex, zeros, isHexDigit]

/-- An hour's window and constant digests. -/
def sample : Config where
  windowSeconds := 3600
  window_le := by decide
  signalLimit := 512
  repr := fun _ => "0.0".toList
  str := fun _ => []
  bytes := fun text => text.length (fun _ => "0.0".toList) 0
  attest := fun _ => zeros 64
  attest_hex := fun _ => isHex_zeros 64
  sign := fun _ => zeros 64
  sign_hex := fun _ => isHex_zeros 64
  digest := fun _ => zeros 64
  digest_hex := fun _ => isHex_zeros 64
  tokenDigits := fun _ _ => zeros 32
  tokenDigits_hex := fun _ _ => isHex_zeros 32

end Angerona.Temporal
