import Angerona.Lib.Transition
import Angerona.Temporal.Calls

/-!
    What a new engine makes of the state an engine saved.

    The calls keep every limit of the loader but one. They bound the signals, the matches and the
    reasons, and every token they record has the form of a token; but they record any number of
    blind sources, and the loader admits sixteen. -/

namespace Angerona.Temporal
open Text PyJson Raising Transition

variable {C : Config}

/-! ### What the loader asks -/

structure Signal.Sound (C : Config) (s : Signal) : Prop where
  finite : ∃ d, s.observedAt = .finite d
  digest : isHex 64 s.evidenceDigest = true
  source : isToken s.sourceToken = true
  tag : isHex 64 s.attestation = true
  attested : attestSignal C s = .ok s.attestation

/-- The limits of the loader, without the one on blind sources. -/
structure Engine.Sound (C : Config) (e : Engine) : Prop where
  count : e.signals.length ≤ C.signalLimit
  signals : ∀ s ∈ e.signals, s.Sound C
  ordered : e.signals.IsChain fun s t => before t.observedAt s.observedAt = false
  kept : e.matched.length ≤ maxMatches ∧ ∀ m ∈ e.matched, m.length ≤ 160
  reasons : e.missingReasons.length ≤ maxReasons ∧
    ∀ r ∈ e.missingReasons, r ≠ [] ∧ r.length ≤ 96
  blind : ∀ t ∈ e.blindSources, isToken t = true

/-! ### The calls keep it -/

theorem attestSignal_hex {s : Signal} {tag : Str} (h : attestSignal C s = .ok tag) :
    isHex 64 tag = true := by
  rw [attestSignal] at h
  split at h
  · obtain ⟨payload, -, rfl⟩ := map_ok.mp h
    exact C.attest_hex payload
  · cases h

theorem prepared_sound {now : Double} {event : Event} {verified : Bool} {grade : Option Grade}
    {signal : Signal} (h : prepareEvent C now event verified grade = .ok (some signal)) :
    signal.Sound C := by
  rw [prepareEvent] at h
  split at h
  · cases h
  split at h
  · rename_i stamp _
    obtain ⟨-, h⟩ := if_error_ok.mp h
    obtain ⟨-, h⟩ := if_error_ok.mp h
    split at h
    · cases h
    · obtain ⟨text, -, h⟩ := bind_ok.mp h
      obtain ⟨attestation, hattest, h⟩ := bind_ok.mp h
      obtain rfl := Option.some.inj (Except.ok.inj h)
      exact ⟨⟨stamp, rfl⟩, C.digest_hex text, isToken_source C _ _, attestSignal_hex hattest, hattest⟩
  · cases h

/-- A genuine signal that is observed was prepared from an event. -/
theorem observed_sound {w : World} {call : Call} {fails : Bool} (hg : Admitted C w (call, fails))
    {signal : Signal} (ho : call.Observes C signal)
    (ha : attestSignal C signal = .ok signal.attestation) : signal.Sound C := by
  cases call with
  | observe s now =>
    obtain rfl := ho
    obtain ⟨now, event, verified, grade, hprepare⟩ := hg ha
    exact prepared_sound hprepare
  | observeEvent event verified grade now later => exact prepared_sound ho
  | markMissing reason now => exact ho.elim
  | markBlind source reason => exact ho.elim
  | markRecovered source => exact ho.elim
  | markOverflow dropped now => exact ho.elim
  | tick now => exact ho.elim

theorem length_push {α : Type} {cap : ℕ} (d : List α) (x : α) (h : d.length ≤ cap) :
    (History.push cap d x).length ≤ cap := by
  rw [History.push]
  split
  · simpa using h
  · omega

theorem mem_push {α : Type} {cap : ℕ} {d : List α} {x y : α} (h : y ∈ History.push cap d x) :
    y ∈ d ∨ y = x := by
  rw [History.push] at h
  split at h
  · simpa using List.mem_of_mem_tail h
  · simpa using h

/-- A noted reason keeps the bounds on reasons. -/
theorem noteReason_bounds {reason : Str} {reasons : List Str} (hne : reason ≠ [])
    (hlen : reason.length ≤ 96)
    (h : reasons.length ≤ maxReasons ∧ ∀ r ∈ reasons, r ≠ [] ∧ r.length ≤ 96) :
    (noteReason reason reasons).length ≤ maxReasons ∧
      ∀ r ∈ noteReason reason reasons, r ≠ [] ∧ r.length ≤ 96 := by
  rw [noteReason]
  split
  · exact h
  · refine ⟨length_push _ _ h.1, fun r hr => ?_⟩
    rcases mem_push hr with hr | rfl
    · exact h.2 r hr
    · exact ⟨hne, hlen⟩

theorem Engine.Sound.gap {e e' : Engine} (h : e.Sound C) (hg : Gap e e') : e'.Sound C := by
  cases hg with
  | none => exact h
  | missing now hne hlen => exact { h with reasons := noteReason_bounds hne hlen h.reasons }
  | @blind token reason htoken hlen =>
    refine { h with reasons := ?_, blind := ?_ }
    · by_cases hr : reason = []
      · rw [if_pos hr]
        exact h.reasons
      · rw [if_neg hr]
        exact noteReason_bounds hr hlen h.reasons
    · intro t ht
      rcases Finset.mem_insert.mp ht with rfl | ht
      · exact htoken
      · exact h.blind t ht

theorem Engine.Sound.prune {e : Engine} (h : e.Sound C) (now : Double) : (e.prune C now).Sound C := by
  have hsuffix : (e.signals.dropWhile fun s => before s.observedAt (cutoff C now)) <:+ e.signals :=
    List.dropWhile_suffix _
  rw [prune_eq]
  refine { h with count := ?_, signals := ?_, ordered := ?_, reasons := ?_ }
  · exact hsuffix.length_le.trans h.count
  · exact fun s hs => h.signals s (hsuffix.subset hs)
  · exact h.ordered.suffix hsuffix
  · split
    · exact ⟨Nat.zero_le _, fun r hr => absurd hr List.not_mem_nil⟩
    · exact h.reasons

theorem Engine.Sound.append {e : Engine} (h : e.Sound C) {signal : Signal} {now : Double}
    (hs : signal.Sound C) (ha : Admissible C e signal now) : (e.append C signal now).Sound C := by
  have hmem : ∀ s ∈ e.signals ++ [signal], s.Sound C := by
    intro s hsm
    rcases List.mem_append.mp hsm with hsm | hsm
    · exact h.signals s hsm
    · obtain rfl := List.mem_singleton.mp hsm
      exact hs
  have hchain : (e.signals ++ [signal]).IsChain fun s t =>
      before t.observedAt s.observedAt = false := by
    refine h.ordered.append (List.isChain_singleton _) fun s hlast t ht => ?_
    rw [List.head?_singleton, Option.mem_some] at ht
    exact ht ▸ ha.monotonic s hlast
  rw [Engine.append]
  split
  · refine { h with count := ?_, signals := ?_, ordered := ?_ }
    · rw [List.length_tail, List.length_append, List.length_singleton]
      exact h.count
    · exact fun s hsm => hmem s (List.mem_of_mem_tail hsm)
    · exact hchain.suffix (List.tail_suffix _)
  · exact { h with count := Nat.not_lt.mp ‹_›, signals := hmem, ordered := hchain }

theorem scan_subset : ∀ {ks : List Kind} {ss : List Signal}, ∀ s ∈ scan ks ss, s ∈ ss
  | [], ss, s, h => by
    rw [scan] at h
    exact absurd h List.not_mem_nil
  | k :: ks, [], s, h => h
  | k :: ks, t :: ss, s, h => by
    rw [scan] at h
    split at h
    · rcases List.mem_cons.mp h with rfl | h
      · exact List.mem_cons_self
      · exact List.mem_cons_of_mem _ (scan_subset s h)
    · exact List.mem_cons_of_mem _ (scan_subset s h)

/-- The identity of a completion is short. -/
theorem matchId_length {p : Pattern} (hp : p ∈ patterns) {ss : List Signal}
    (hs : ∀ s ∈ ss, s.evidenceDigest.length = 64) : (p.matchId ss).length ≤ 160 := by
  have hid : ∀ q ∈ patterns, q.patternId.length ≤ 64 := by decide
  have hp := hid p hp
  rw [Pattern.matchId, List.length_append, List.length_append]
  cases hlast : ss.getLast? with
  | none => simp; omega
  | some s =>
    have := hs s (List.mem_of_getLast? hlast)
    simp [this]
    omega

theorem foldl_report_bounds {ss : List Signal} (hs : ∀ s ∈ ss, s.evidenceDigest.length = 64) :
    ∀ {ps : List Pattern} {acc : List Str × List Finding}, (∀ p ∈ ps, p ∈ patterns) →
      acc.1.length ≤ maxMatches ∧ (∀ m ∈ acc.1, m.length ≤ 160) →
      (ps.foldl (report ss) acc).1.length ≤ maxMatches ∧
        ∀ m ∈ (ps.foldl (report ss) acc).1, m.length ≤ 160
  | [], _, _, h => h
  | p :: ps, acc, hps, h => by
    obtain ⟨hp, hps⟩ := List.forall_mem_cons.mp hps
    rw [List.foldl_cons]
    refine foldl_report_bounds hs hps ?_
    rw [report]
    split
    · exact h
    split
    · exact h
    · refine ⟨length_push _ _ h.1, fun m hm => ?_⟩
      rcases mem_push hm with hm | rfl
      · exact h.2 m hm
      · exact matchId_length hp fun s hsm => hs s (scan_subset s hsm)

theorem Engine.Sound.admitEvent {e : Engine} (h : e.Sound C) {signal : Signal} {now : Double}
    (hs : signal.Sound C) (ha : Admissible C e signal now) :
    (e.admitEvent C signal now).1.Sound C := by
  have hp := (h.append hs ha).prune now
  rw [admit_eq]
  refine { hp with kept := foldl_report_bounds (fun s hsm => ?_) (fun _ hp => hp) h.kept }
  have hd := (hp.signals s hsm).digest
  rw [isHex, decide_eq_true_eq] at hd
  exact hd.1

theorem Engine.Sound.change {e e' : Engine} {observed : Signal → Prop} (h : e.Sound C)
    (ho : ∀ s, observed s → attestSignal C s = .ok s.attestation → s.Sound C)
    (hc : Change C observed e e') : e'.Sound C := by
  cases hc with
  | gap hg => exact h.gap hg
  | recovered token => exact { h with blind := fun t ht => h.blind t (Finset.mem_of_mem_erase ht) }
  | overflow n now => exact { h with }
  | tick now => exact h.prune now
  | admitEvent hos ha => exact h.admitEvent (ho _ hos ha.attested) ha

/-! ### Runs -/

/-- The state file holds what the engine saved. -/
structure Engine.Written (C : Config) (e : Engine) (text : Json) : Prop where
  sound : e.Sound C
  envelope : e.envelope C = .ok text
  size : C.bytes text ≤ maxStateBytes
  status : e.persistenceStatus = .authenticated
  unlocked : e.persistenceLocked = false

structure World.Sound (C : Config) (w : World) : Prop where
  engine : w.engine.Sound C
  saved : ∀ e, w.saved = some e → ∃ text, w.file = some text ∧ e.Written C text

theorem World.Sound.save {w : World} (h : w.Sound C) (fails : Bool) : (w.save C fails).2.Sound C := by
  have hbumped : ∀ n, Engine.Sound C { w.engine with revision := n } := fun n =>
    { h.engine with }
  rw [World.save]
  split
  · exact h
  rename_i hunlocked
  dsimp only
  split
  · exact ⟨hbumped _, h.saved⟩
  rename_i text henvelope
  split
  · refine ⟨{ h.engine with blind := ?_ }, h.saved⟩
    intro t ht
    rcases Finset.mem_insert.mp ht with rfl | ht
    · exact isToken_sensor C _ _
    · exact h.engine.blind t ht
  · rename_i hwritten
    rw [not_or, Nat.not_lt] at hwritten
    refine ⟨{ h.engine with }, fun e he => ?_⟩
    obtain rfl := Option.some.inj he
    exact ⟨text, rfl, { h.engine with }, henvelope, hwritten.2, rfl, Bool.not_eq_true _ ▸ hunlocked⟩

theorem World.Sound.settle {w : World} (h : w.Sound C) {e : Engine} (he : e.Sound C)
    (changed fails : Bool) : (w.settle C changed fails e).2.Sound C := by
  have hw : World.Sound C { w with engine := e } := ⟨he, h.saved⟩
  rw [World.settle]
  split
  · exact hw.save fails
  · exact hw

theorem World.Sound.step {w w' : World} {label : Call × Bool} (h : w.Sound C)
    (hstep : Guarded (Admitted C) (World.Step C) w label w') : w'.Sound C := by
  obtain ⟨call, fails⟩ := label
  obtain ⟨hg, rfl⟩ := hstep
  rcases exec_cases C fails w call with ⟨r, hr⟩ | ⟨e, changed, fs, reason, hchange, hr⟩
  · dsimp only
    rw [hr]
    exact h
  · dsimp only
    rw [hr, assess_snd]
    exact h.settle (h.engine.change (fun s ho => observed_sound hg ho) hchange) changed fails

theorem World.Sound.run {now : Double} {labels : List (Call × Bool)} {w : World}
    (h : Run (Guarded (Admitted C) (World.Step C)) (World.start now) labels w) : w.Sound C := by
  refine h.invariant (fun _ _ _ hI hstep => hI.step hstep) ⟨?_, fun e he => nomatch he⟩
  refine ⟨Nat.zero_le _, fun s hs => absurd hs List.not_mem_nil, List.isChain_nil,
    ⟨Nat.zero_le _, fun m hm => absurd hm List.not_mem_nil⟩, ⟨?_, ?_⟩, ?_⟩
  · exact Nat.le_of_ble_eq_true rfl
  · intro r hr
    obtain rfl := List.mem_singleton.mp hr
    decide
  · exact fun t ht => absurd ht (Finset.notMem_empty t)

/-! ### Loading -/

theorem canonical_ok {v : Value} {text : Json} :
    canonical C v = .ok text ↔ v.dumps C.repr true = .ok text := by
  rw [canonical]
  cases v.dumps C.repr true with
  | error e => simp
  | ok j => simp

theorem hasFields_of_perm {names : List String} {d : List (Key × Value)}
    {fields : List (Str × Value)} (hnames : fields.map Prod.fst = names.map String.toList)
    (h : (d.map Prod.fst).Perm (fields.map fun f => Key.str f.1)) : hasFields names d = true := by
  refine decide_eq_true (h.trans ?_)
  have hkeys : (fields.map fun f => Key.str f.1) = names.map fun n => Key.str n.toList := by
    rw [show (fields.map fun f => Key.str f.1) = (fields.map Prod.fst).map Key.str by
      rw [List.map_map]; rfl, hnames, List.map_map]
    rfl
  rw [hkeys]

theorem find_kind (k : Kind) : Kind.all.find? (fun k' => k'.text = k.text) = some k := by
  cases k <;> decide

theorem find_grade (g : Grade) : Grade.all.find? (fun g' => g'.text = g.text) = some g := by
  cases g <;> decide

theorem signalFields_nodup (s : Signal) : (s.asDict.map Prod.fst).Nodup := by
  change (["kind", "observed_at", "evidence_digest", "source_token", "evidence_grade",
    "attestation"].map String.toList).Nodup
  decide

/-- A row of the document is the signal it was written for. -/
theorem admitSignal_row {s : Signal} (hs : s.Sound C) {j : Json}
    (hj : (record s.asDict).dumps C.repr true = .ok j) : admitSignal C j.loads = some s := by
  have hscalar : ∀ f ∈ s.asDict, f.2.scalar = true := by
    simp [Signal.asDict, Signal.payload, Value.scalar]
  obtain ⟨d, hd, hkeys, hget⟩ := loads_scalars (signalFields_nodup s) hscalar hj
  obtain ⟨stamp, hstamp⟩ := hs.finite
  have hfields : hasFields ["kind", "observed_at", "evidence_digest", "source_token",
      "evidence_grade", "attestation"] d = true := hasFields_of_perm rfl hkeys
  simp only [Signal.asDict, Signal.payload, List.cons_append, List.nil_append,
    List.forall_mem_cons] at hget
  obtain ⟨hkind, hat, hdigest, hsource, hgrade, htag, -⟩ := hget
  obtain ⟨kind, observedAt, digest, source, grade, tag⟩ := s
  dsimp only at hkind hat hdigest hsource hgrade htag hstamp
  subst hstamp
  have hattested := hs.attested
  dsimp only at hattested
  rw [hd, admitSignal, if_neg (not_not.mpr hfields), hkind, hat, hgrade]
  simp only [number, find_kind, find_grade, hdigest, hsource, htag, textOf]
  rw [if_pos ⟨hs.digest, hs.source, hs.tag, by rw [hattested]; rfl⟩]

theorem admitSignals_rows {ss : List Signal} : ∀ {js : List Json} {prior : PyFloat},
    (∀ s ∈ ss, s.Sound C) →
    List.Forall₂ (fun s j => (record s.asDict).dumps C.repr true = .ok j) ss js →
    (ss.IsChain fun s t => before t.observedAt s.observedAt = false) →
    (∀ s ∈ ss.head?, before s.observedAt prior = false) →
    admitSignals C prior (js.map Json.loads) = some ss := by
  induction ss with
  | nil =>
    rintro js prior - (_ | _) - -
    rfl
  | cons s ss ih =>
    rintro _ prior hs (_ | ⟨hj, hjs⟩) hchain hprior
    obtain ⟨hs, hss⟩ := List.forall_mem_cons.mp hs
    rw [List.isChain_cons] at hchain
    rw [List.map_cons, admitSignals, admitSignal_row hs hj]
    have hnot := hprior s rfl
    simp only [Option.bind_eq_bind, Option.bind_some, hnot]
    rw [ih hss hjs hchain.2 hchain.1]
    rfl

theorem texts_map (xs : List Str) : texts (.list (xs.map .str)) = some xs := by
  rw [texts]
  induction xs with
  | nil => rfl
  | cons x xs ih =>
    rw [List.map_cons, List.mapM_cons, ih]
    rfl

theorem optionalTime_optional (t : Option Double) : optionalTime (optional t) = some t := by
  cases t <;> rfl

theorem documentFields_nodup (C : Config) (e : Engine) : ((e.document C).map Prod.fst).Nodup := by
  change (["schema", "revision", "window_seconds", "signals", "matches",
    "continuity"].map String.toList).Nodup
  decide

theorem continuityFields_nodup (e : Engine) : (e.continuity.map Prod.fst).Nodup := by
  change (["missing_since", "missing_reasons", "blind_sources", "overflow_at",
    "dropped"].map String.toList).Nodup
  decide

theorem optional_scalar (t : Option Double) : (optional t).scalar = true := by
  cases t <;> rfl

/-- The continuity part comes back as it was. -/
theorem loads_continuity {e : Engine} {j : Json}
    (hj : (record e.continuity).dumps C.repr true = .ok j) :
    ∃ d, j.loads = .dict d ∧
      hasFields ["missing_since", "missing_reasons", "blind_sources", "overflow_at", "dropped"] d = true ∧
      optionalTime (getItem "missing_since".toList d) = some e.missingSince ∧
      texts (getItem "missing_reasons".toList d) = some e.missingReasons ∧
      texts (getItem "blind_sources".toList d) = some e.blindSources.sort ∧
      optionalTime (getItem "overflow_at".toList d) = some e.overflowAt ∧
      natural (getItem "dropped".toList d) = some e.dropped := by
  obtain ⟨d, hd, hkeys, hget⟩ := loads_fields (continuityFields_nodup e) hj
  refine ⟨d, hd, hasFields_of_perm rfl hkeys, ?_⟩
  simp only [Engine.continuity, List.forall_mem_cons] at hget
  obtain ⟨⟨a, ha, hsince⟩, ⟨b, hb, hreasons⟩, ⟨c, hc, hblind⟩, ⟨f, hf, hoverflow⟩,
    ⟨g, hg, hdropped⟩, -⟩ := hget
  rw [hsince, hreasons, hblind, hoverflow, hdropped, loads_scalar (optional_scalar _) ha,
    loads_texts hb, loads_texts hc, loads_scalar (optional_scalar _) hf, loads_scalar rfl hg]
  refine ⟨optionalTime_optional _, texts_map _, texts_map _, optionalTime_optional _, ?_⟩
  rw [natural, if_pos (Int.natCast_nonneg _), Int.toNat_natCast]

/-- CORRECT for the document: it is admitted exactly when its blind sources are few enough. -/
theorem admitDocument_written {e : Engine} (h : e.Sound C)
    (hstatus : e.persistenceStatus = .authenticated) (hlocked : e.persistenceLocked = false)
    {j : Json} (hj : (record (e.document C)).dumps C.repr true = .ok j) :
    ∃ d, j.loads = .dict d ∧
      admitDocument C d = if e.blindSources.card ≤ maxReasons then some e else none := by
  obtain ⟨d, hd, hkeys, hget⟩ := loads_fields (documentFields_nodup C e) hj
  refine ⟨d, hd, ?_⟩
  have hfields : hasFields ["schema", "revision", "window_seconds", "signals", "matches",
      "continuity"] d = true := hasFields_of_perm rfl hkeys
  simp only [Engine.document, List.forall_mem_cons] at hget
  obtain ⟨⟨_, ha, hschema⟩, ⟨_, hb, hrevision⟩, ⟨_, hc, hwindow⟩, ⟨rows, hrows, hsignals⟩,
    ⟨_, hm, hmatches⟩, ⟨_, hcont, hcontinuity⟩, -⟩ := hget
  obtain ⟨js, hall, hloads⟩ := loads_list hrows
  obtain ⟨dc, hdc, hcfields, hsince, hreasons, hblind, hoverflow, hdropped⟩ :=
    loads_continuity hcont
  rw [List.forall₂_map_left_iff] at hall
  have hfirst : ∀ s ∈ e.signals.head?, before s.observedAt (.inf true) = false := fun s hs => by
    obtain ⟨stamp, hstamp⟩ := (h.signals s (List.mem_of_mem_head? hs)).finite
    rw [hstamp]
    rfl
  have hadmit := admitSignals_rows h.signals hall h.ordered hfirst
  have hnatural : ∀ n : ℕ, natural (.int n) = some n := fun n => by
    rw [natural, if_pos (Int.natCast_nonneg _), Int.toNat_natCast]
  rw [admitDocument, if_neg (not_not.mpr hfields), hschema, loads_scalar rfl ha, hrevision,
    loads_scalar rfl hb, hwindow, loads_scalar rfl hc, hsignals, hloads, hmatches, loads_texts hm,
    hcontinuity, hdc, texts_map, hnatural, hnatural]
  dsimp only
  have hcount : ¬(schema ≠ schema ∨ C.windowSeconds ≠ C.windowSeconds ∨
      C.signalLimit < (js.map Json.loads).length ∨ maxMatches < e.matched.length ∨
      ¬hasFields ["missing_since", "missing_reasons", "blind_sources", "overflow_at", "dropped"]
        dc = true) := by
    have hlen : js.length = e.signals.length := hall.length_eq.symm
    rintro (hne | hne | hlt | hlt | hne)
    · exact hne rfl
    · exact hne rfl
    · rw [List.length_map, hlen] at hlt
      exact absurd h.count (Nat.not_le.mpr hlt)
    · exact absurd h.kept.1 (Nat.not_le.mpr hlt)
    · exact hne hcfields
  rw [if_neg hcount, hadmit, hsince, hreasons, hblind, hoverflow, hdropped]
  dsimp only
  have hmatched : e.matched.any (fun m => 160 < m.length) = false := by
    refine List.any_eq_false.mpr fun m hm => ?_
    simpa using h.kept.2 m hm
  have hreason : e.missingReasons.any (fun r => r = [] ∨ 96 < r.length) = false := by
    refine List.any_eq_false.mpr fun r hr => ?_
    simpa using h.reasons.2 r hr
  have htoken : e.blindSources.sort.any (fun t => !isToken t) = false := by
    refine List.any_eq_false.mpr fun t ht => ?_
    simpa using h.blind t ((Finset.mem_sort _).mp ht)
  rw [hmatched, hreason, htoken, Finset.length_sort, Finset.sort_toFinset]
  by_cases hfew : e.blindSources.card ≤ maxReasons
  · rw [if_pos hfew, if_neg]
    · rw [← hstatus, ← hlocked]
    · rintro (hlt | hlt | hlt | hlt | hlt)
      · exact Bool.false_ne_true hlt
      · exact absurd h.reasons.1 (Nat.not_le.mpr hlt)
      · exact Bool.false_ne_true hlt
      · exact absurd hfew (Nat.not_le.mpr hlt)
      · exact Bool.false_ne_true hlt
  · rw [if_neg hfew, if_pos (.inr (.inr (.inr (.inl (Nat.not_le.mp hfew)))))]

/-- The engine that could not authenticate its state. -/
def Engine.untrusted (C : Config) : Engine := Engine.empty.lock C .untrusted

theorem aligned_signal (s : Signal) : (record s.asDict).aligned C.repr = true := by
  refine aligned_record (signalFields_nodup s) ?_
  simp [Signal.asDict, Signal.payload, Value.aligned]

theorem aligned_texts (xs : List Str) : (Value.list (xs.map .str)).aligned C.repr = true := by
  rw [Value.aligned, alignedList_iff]
  intro v hv
  obtain ⟨x, -, rfl⟩ := List.mem_map.mp hv
  rfl

theorem aligned_document (e : Engine) : (record (e.document C)).aligned C.repr = true := by
  refine aligned_record (documentFields_nodup C e) ?_
  simp only [Engine.document, List.forall_mem_cons]
  refine ⟨rfl, rfl, rfl, ?_, aligned_texts _, ?_, fun f hf => absurd hf List.not_mem_nil⟩
  · rw [Value.aligned, alignedList_iff]
    intro v hv
    obtain ⟨s, -, rfl⟩ := List.mem_map.mp hv
    exact aligned_signal s
  · refine aligned_record (continuityFields_nodup e) ?_
    simp only [Engine.continuity, List.forall_mem_cons]
    exact ⟨aligned_scalar (optional_scalar _), aligned_texts _, aligned_texts _,
      aligned_scalar (optional_scalar _), rfl, fun f hf => absurd hf List.not_mem_nil⟩

/-- What was written is admitted when its blind sources are few enough, and is else untrusted. -/
theorem load_written {e : Engine} {text : Json} (h : e.Written C text) (now : Double) :
    load C now text =
      if e.blindSources.card ≤ maxReasons then e.prune C now else Engine.untrusted C := by
  have henvelope := h.envelope
  obtain ⟨inner, hinner, henvelope⟩ := bind_ok.mp henvelope
  rw [canonical_ok] at hinner henvelope
  have hnames : (([("document".toList, record (e.document C)),
      ("hmac_sha256".toList, Value.str (C.sign inner))] : List (Str × Value)).map
        Prod.fst).Nodup := by
    change (["document", "hmac_sha256"].map String.toList).Nodup
    decide
  obtain ⟨d, hd, hkeys, hget⟩ := loads_fields hnames henvelope
  have hfields : hasFields ["document", "hmac_sha256"] d = true := hasFields_of_perm rfl hkeys
  simp only [List.forall_mem_cons] at hget
  obtain ⟨⟨c, hc, hdocument⟩, ⟨_, ht, htag⟩, -⟩ := hget
  obtain rfl := Except.ok.inj (hinner.symm.trans hc)
  obtain ⟨dd, hdd, hadmit⟩ := admitDocument_written h.sound h.status h.unlocked hinner
  have hagain := dumps_loads (aligned_document e) hinner hinner
  rw [hdd] at hagain
  rw [load, if_neg (Nat.not_lt.mpr h.size), hd]
  dsimp only
  rw [if_neg (not_not.mpr hfields), hdocument, hdd, htag, loads_scalar rfl ht]
  dsimp only
  rw [canonical_ok.mpr hagain]
  dsimp only
  rw [if_neg, hadmit]
  · by_cases hfew : e.blindSources.card ≤ maxReasons
    · rw [if_pos hfew, if_pos hfew]
    · rw [if_neg hfew, if_neg hfew]
      rfl
  · rintro (hhex | hne)
    · exact hhex (C.sign_hex inner)
    · exact hne rfl

/-- CORRECT: along every run of calls, the last successful save reloads as the engine that made it,
    up to the window, exactly when it recorded at most sixteen blind sources. -/
theorem World.reload_iff {start : Double} {labels : List (Call × Bool)} {w : World}
    (h : Run (Guarded (Admitted C) (World.Step C)) (World.start start) labels w) {e : Engine}
    (he : w.saved = some e) (now : Double) :
    (∃ text, w.file = some text ∧ load C now text = e.prune C now ∧
      (load C now text).persistenceStatus = .authenticated) ↔ e.blindSources.card ≤ maxReasons := by
  obtain ⟨text, hfile, hwritten⟩ := (World.Sound.run h).saved e he
  have hload := load_written hwritten now
  have hpruned : (e.prune C now).persistenceStatus = .authenticated := by
    rw [prune_eq]
    exact hwritten.status
  constructor
  · rintro ⟨text', hfile', hsame, hstatus⟩
    obtain rfl := Option.some.inj (hfile.symm.trans hfile')
    by_contra hmany
    rw [if_neg hmany] at hload
    rw [hload] at hstatus
    exact Status.noConfusion hstatus
  · intro hfew
    rw [if_pos hfew] at hload
    exact ⟨text, hfile, hload, by rw [hload, hpruned]⟩

/-! ### Seventeen blind sources -/

/-- The document of an engine whose blind sources are given in order. -/
def Engine.documentOf (C : Config) (e : Engine) (blind : List Str) : List (Str × Value) :=
  (e.document C).take 5 ++ [("continuity".toList,
    record (e.continuity.take 2 ++ [("blind_sources".toList, .list (blind.map .str))] ++
      e.continuity.drop 3))]

/-- Its text, when it is written. -/
def Engine.fileOf (C : Config) (e : Engine) (blind : List Str) : Option Json :=
  match canonical C (record (e.documentOf C blind)) with
  | .error _ => none
  | .ok text =>
    match canonical C (record [("document".toList, record (e.documentOf C blind)),
      ("hmac_sha256".toList, .str (C.sign text))]) with
    | .error _ => none
    | .ok file => if C.bytes file ≤ maxStateBytes then some file else none

theorem envelope_of_fileOf {e : Engine} {file : Json}
    (h : e.fileOf C e.blindSources.sort = some file) :
    e.envelope C = .ok file ∧ C.bytes file ≤ maxStateBytes := by
  have hdoc : e.documentOf C e.blindSources.sort = e.document C := rfl
  rw [Engine.fileOf, hdoc] at h
  rw [Engine.envelope]
  cases hinner : canonical C (record (e.document C)) with
  | error r =>
    rw [hinner] at h
    cases h
  | ok text =>
    rw [hinner] at h
    dsimp only at h
    split at h
    · cases h
    · rename_i file' houter
      obtain ⟨hsize, he⟩ := Option.ite_none_right_eq_some.mp h
      obtain rfl := Option.some.inj he
      exact ⟨houter, hsize⟩

/-- The tokens of different sensors, in order. -/
def sensor (n : ℕ) : Str := "sensor:v1:".toList ++ List.replicate n 'a' ++ zeros (32 - n)

def sensors (n : ℕ) : List Str := (List.range n).map sensor

/-- The engine to which the first sensors were reported blind. -/
def blinded (n : ℕ) : Engine :=
  { Engine.fresh .zero with
    revision := n
    blindSources := (sensors n).toFinset
    persistenceStatus := if n = 0 then .missing else .authenticated }

theorem sensors_sorted : (sensors 17).Pairwise (· < ·) := by decide +kernel

theorem sensors_prefix {n : ℕ} (h : n ≤ 17) : sensors n <+: sensors 17 := by
  have hrange : List.range n <+: List.range 17 := by
    rw [List.prefix_iff_eq_take, List.length_range, List.take_range, min_eq_left h]
  exact hrange.map _

theorem sort_sensors {n : ℕ} (h : n ≤ 17) : (sensors n).toFinset.sort = sensors n := by
  have hsorted := sensors_sorted.sublist ( sensors_prefix h).sublist
  exact (List.toFinset_sort _ (hsorted.imp ne_of_lt)).mpr (hsorted.imp le_of_lt)

theorem card_sensors {n : ℕ} (h : n ≤ 17) : (sensors n).toFinset.card = n := by
  rw [← Finset.length_sort (· ≤ ·), sort_sensors h, sensors, List.length_map, List.length_range]

theorem toFinset_sensors (n : ℕ) :
    (sensors (n + 1)).toFinset = insert (sensor n) (sensors n).toFinset := by
  rw [sensors, List.range_succ, List.map_append, List.toFinset_append, Finset.union_comm]
  rfl

theorem sensor_fresh {n : ℕ} (h : n < 17) : sensor n ∉ (sensors n).toFinset := by
  intro hmem
  have hcard := card_sensors (Nat.succ_le_of_lt h)
  rw [toFinset_sensors, Finset.insert_eq_of_mem hmem, card_sensors h.le] at hcard
  omega

theorem sensors_written : ∀ n < 17,
    ((blinded (n + 1)).fileOf sample (sensors (n + 1))).isSome = true := by decide +kernel

theorem sensors_token : ∀ n < 17, isToken (sensor n) = true := by decide +kernel

theorem save_written {w : World} (hl : w.engine.persistenceLocked = false) {text : Json}
    (ht : Engine.envelope C { w.engine with revision := w.engine.revision + 1 } = .ok text)
    (hsize : C.bytes text ≤ maxStateBytes) :
    (w.save C false).2 =
      let e : Engine :=
        { w.engine with revision := w.engine.revision + 1, persistenceStatus := .authenticated }
      ⟨e, some text, some e⟩ := by
  rw [World.save, if_neg (by simp [hl])]
  dsimp only
  rw [ht]
  dsimp only
  rw [if_neg (by simpa using hsize)]

/-- Reporting the next sensor blind saves the engine with it. -/
theorem blinded_step {n : ℕ} (h : n < 17) (file : Option Json) (saved : Option Engine) :
    ∃ file', World.Step sample ⟨blinded n, file, saved⟩ (.markBlind (sensor n) [], false)
      ⟨blinded (n + 1), some file', some (blinded (n + 1))⟩ := by
  obtain ⟨file', hfile⟩ := Option.isSome_iff_exists.mp (sensors_written n h)
  rw [← sort_sensors (Nat.succ_le_of_lt h)] at hfile
  obtain ⟨henvelope, hsize⟩ := envelope_of_fileOf (e := blinded (n + 1)) hfile
  refine ⟨file', ?_⟩
  have htoken : sensorToken sample (sensor n) = sensor n := if_pos (sensors_token n h)
  have hnew : (blinded n).blindSources ≠ insert (sensor n) (blinded n).blindSources := fun he =>
    sensor_fresh h (Finset.insert_eq_self.mp he.symm)
  have hgrown : (blinded (n + 1)).blindSources = insert (sensor n) (blinded n).blindSources :=
    toFinset_sensors n
  rw [World.Step]
  dsimp only
  rw [World.exec, World.markBlind, assess_snd, htoken, if_pos (show cleaned [] = [] from rfl)]
  rw [if_pos (by rw [decide_eq_true_eq]; exact fun he => hnew (congrArg Prod.fst he)), ← hgrown]
  exact save_written rfl henvelope hsize

/-- The reports of the first sensors, one after the other. -/
def reports (n : ℕ) : List (Call × Bool) :=
  (List.range n).map fun k => (.markBlind (sensor k) [], false)

theorem blinded_run : ∀ {n : ℕ}, n ≤ 17 → ∃ file saved,
    Run (Guarded (Admitted sample) (World.Step sample)) (World.start .zero) (reports n)
      ⟨blinded n, file, saved⟩ ∧ (0 < n → saved = some (blinded n))
  | 0, _ => ⟨none, none, .nil, fun h => absurd h (lt_irrefl 0)⟩
  | n + 1, h => by
    obtain ⟨file, saved, hrun, -⟩ := blinded_run (Nat.le_of_succ_le h)
    obtain ⟨file', hstep⟩ := blinded_step (Nat.lt_of_succ_le h) file saved
    refine ⟨some file', some (blinded (n + 1)), ?_, fun _ => rfl⟩
    rw [reports, List.range_succ, List.map_append]
    exact hrun.snoc ⟨trivial, hstep⟩

theorem World.reload_iff_one : ∃ w e,
    Run (Guarded (Admitted sample) (World.Step sample)) (World.start .zero) (reports 1) w ∧
      w.saved = some e ∧
      ∃ text, w.file = some text ∧ load sample .zero text = e.prune sample .zero ∧
        (load sample .zero text).persistenceStatus = .authenticated := by
  obtain ⟨file, saved, hrun, hsaved⟩ := blinded_run (n := 1) (by decide)
  obtain rfl := hsaved Nat.one_pos
  refine ⟨_, _, hrun, rfl, (World.reload_iff hrun rfl .zero).mpr ?_⟩
  exact (card_sensors (by decide)).le.trans (by decide)

/-- After seventeen sensors are reported blind, the state that was saved is untrusted. -/
theorem World.seventeen_untrusted : ∃ w text,
    Run (Guarded (Admitted sample) (World.Step sample)) (World.start .zero) (reports 17) w ∧
      w.file = some text ∧ (load sample .zero text).persistenceStatus = .untrusted := by
  obtain ⟨file, saved, hrun, hsaved⟩ := blinded_run (n := 17) (by decide)
  obtain rfl := hsaved (by decide)
  obtain ⟨text, hfile, hwritten⟩ := (World.Sound.run hrun).saved _ rfl
  refine ⟨_, text, hrun, hfile, ?_⟩
  rw [load_written hwritten, if_neg]
  · rfl
  · rw [Nat.not_le]
    exact lt_of_lt_of_eq (by decide) (card_sensors le_rfl).symm

end Angerona.Temporal
