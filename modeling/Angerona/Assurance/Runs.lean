import Mathlib
import Angerona.Lib.Transition
import Angerona.Assurance.Broker

/-!
    Runs of the broker: who calls it, what changes around it, and what holds in every state.

    A world is the broker with what it finds around it, and a record of what was registered, signed
    and accepted. `newest` is the last answer that a producer got for a challenge, as long as its
    lifecycle generation has not changed since. -/

namespace Angerona.Assurance

variable {T : Type} [LinearOrder T]

inductive Event (T : Type) where
  | enrollConsumer (consumer : Obj)
  | enrollProducer (producer : Obj) (code moduleName capabilityId : Str)
  | registerChallenge (consumer : Option Obj) (challenge : Challenge T)
  | activeFor (producer : Obj) (kind : Str)
  | issue (producer : Obj) (probe observation target : Str) (observedAt : Option (Option T))
  | verify (consumer : Option Obj) (receipt : Option (Form T))
  | setRegistry (name : Str) (entry : Option Obj)
  | setGeneration (o : Obj) (generation : ℤ)
  | dies (o : Obj)
  | tick (t : T)

structure World (T : Type) where
  broker : Broker T
  scene : Scene T
  /-- The challenges that were registered. -/
  registered : List (Challenge T)
  signed : List (Receipt T)
  /-- The challenges that an accepted receipt has taken away. -/
  accepted : List (Challenge T)
  newest : Obj → Str → Option (Receipt T)

def World.start (scene : Scene T) : World T := ⟨Broker.fresh, scene, [], [], [], fun _ _ => none⟩

namespace Host

variable (H : Host T)

/-- What `verify_and_consume` answers: `none` when it raises. -/
def verdict (w : World T) (consumer : Option Obj) (receipt : Option (Form T)) : Option Bool :=
  (H.verifyAndConsume w.scene w.broker consumer receipt).2

/-- The challenge that a receipt names, if it is active. -/
def named (b : Broker T) (receipt : Option (Form T)) : Option (Challenge T) :=
  receipt.bind fun f => ((f.get .probeId).textOr H.toNumbers).bind b.active.get?

/-- The world after an event. -/
def after (w : World T) : Event T → World T
  | .enrollConsumer consumer =>
    { w with broker := (H.enrollConsumer w.scene w.broker consumer).getD w.broker }
  | .enrollProducer producer code moduleName capabilityId =>
    { w with
      broker := (H.enrollProducer w.broker producer code moduleName capabilityId).getD w.broker }
  | .registerChallenge consumer challenge =>
    let (broker, added) := H.registerChallenge w.scene w.broker consumer challenge
    { w with
      broker := broker
      registered := if added then w.registered ++ [challenge] else w.registered }
  | .activeFor producer kind => { w with broker := (H.activeFor w.scene w.broker producer kind).1 }
  | .issue producer probe observation target observedAt =>
    let (broker, answer) := H.issue w.scene w.broker producer probe observation target observedAt
    match answer with
    | some (some r) =>
      { w with
        broker := broker
        signed := w.signed ++ [r]
        newest := fun o p => if o = producer ∧ p = probe then some r else w.newest o p }
    | _ => { w with broker := broker }
  | .verify consumer receipt =>
    { w with
      broker := (H.verifyAndConsume w.scene w.broker consumer receipt).1
      accepted := if H.verdict w consumer receipt = some true
        then w.accepted ++ (H.named w.broker receipt).toList else w.accepted }
  | .setRegistry name entry =>
    { w with scene := { w.scene with registry := Function.update w.scene.registry name entry } }
  | .setGeneration o generation =>
    { w with
      scene := { w.scene with generation := Function.update w.scene.generation o generation }
      newest := fun o' p =>
        if o' = o ∧ generation ≠ w.scene.generation o then none else w.newest o' p }
  | .dies o => { w with scene := { w.scene with alive := Function.update w.scene.alive o false } }
  | .tick t => { w with scene := { w.scene with clock := t } }

/-- No one but the broker makes authenticators: one that is valid under the key of an enrollment is
    that of fields that were signed under this key. -/
def Unforged (w : World T) (f : Form T) : Prop :=
  ∀ i e core canon, w.broker.producers.get? i = some e → f.core = some core →
    canonical core = some canon →
      f.producerMac.textOr H.toNumbers = some (H.mac e.sourceEpoch canon) →
        ∃ r ∈ w.signed, r.enrollment.sourceEpoch = e.sourceEpoch ∧ canonical r.core = some canon

/-- The clock does not go back, no probe id is registered twice, and authenticators are not forged. -/
def Ordinary (w : World T) : Event T → Prop
  | .tick t => w.scene.clock ≤ t
  | .registerChallenge _ c => ∀ d ∈ w.registered, d.probeId ≠ c.probeId
  | .verify _ (some f) => H.Unforged w f
  | _ => True

end Host

/-! ### The invariant -/

/-- The enrollments stay, each under its own source epoch; what is active, issued or accepted was
    registered or signed. -/
structure World.Inv (H : Host T) (w : World T) : Prop where
  producers : ∀ {i e}, w.broker.producers.get? i = some e → i = H.ident e.producer
  sources : ∀ {i e}, w.broker.producers.get? i = some e →
    ∃ n < w.broker.drawn, e.sourceEpoch = H.epoch n
  distinct : ∀ {i j e e'}, w.broker.producers.get? i = some e →
    w.broker.producers.get? j = some e' → e.sourceEpoch = e'.sourceEpoch → e = e'
  byCode : ∀ {code e}, w.broker.byCode.get? code = some e →
    w.broker.producers.get? (H.ident e.producer) = some e ∧ e.code = code
  registered : (w.registered.map Challenge.probeId).Nodup
  active : ∀ {p c}, w.broker.active.get? p = some c →
    c.probeId = p ∧ c ∈ w.registered ∧ c ∉ w.accepted
  accepted : (w.accepted.map Challenge.probeId).Nodup
  accepted_registered : ∀ c ∈ w.accepted, c ∈ w.registered
  signed : ∀ r ∈ w.signed,
    w.broker.producers.get? (H.ident r.enrollment.producer) = some r.enrollment ∧
      r.challenge ∈ w.registered ∧ (canonical r.core).isSome ∧
      (∃ names, r.enrollment.observations.lookup r.challenge.probeKind = some names ∧
        r.observation ∈ names) ∧
      H.early r.challenge.issuedAt ≤ r.observedAt ∧ r.observedAt ≤ H.late r.challenge.expiresAt
  issued : ∀ {k r}, w.broker.issued.get? k = some r →
    r ∈ w.signed ∧ k = (r.enrollment.code, r.challenge.probeId)

/-- The same enrollments, and no challenge or issued receipt that was not there. -/
structure Broker.Shrinks (b b' : Broker T) : Prop where
  producers : b'.producers = b.producers
  byCode : b'.byCode = b.byCode
  drawn : b'.drawn = b.drawn
  active : ∀ {p c}, b'.active.get? p = some c → b.active.get? p = some c
  issued : ∀ {k r}, b'.issued.get? k = some r → b.issued.get? k = some r

namespace Broker.Shrinks

variable {b b' b'' : Broker T}

omit [LinearOrder T] in
theorem refl (b : Broker T) : b.Shrinks b := ⟨rfl, rfl, rfl, id, id⟩

omit [LinearOrder T] in
/-- Keeping some of the challenges and some of what was issued. -/
theorem keep (b : Broker T) (p : Str × Challenge T → Bool) (q : (Str × Str) × Receipt T → Bool) :
    b.Shrinks { b with active := b.active.keep p, issued := b.issued.keep q } := by
  refine ⟨rfl, rfl, rfl, fun h => ?_, fun h => ?_⟩
  · rw [Dict.get?_keep, Option.filter_eq_some_iff] at h
    exact h.1
  · rw [Dict.get?_keep, Option.filter_eq_some_iff] at h
    exact h.1

end Broker.Shrinks

namespace Host

variable {H : Host T} {b : Broker T} {scene : Scene T}

theorem shrinks_expire (now : T) (b : Broker T) : b.Shrinks (expire now b) := .keep b _ _

omit [LinearOrder T] in
theorem shrinks_consume (code probe : Str) (b : Broker T) : b.Shrinks (consume code probe b) := by
  refine ⟨rfl, rfl, rfl, fun h => ?_, fun h => ?_⟩
  · rw [consume, Dict.get?_erase] at h
    split at h
    · cases h
    · exact h
  · rw [consume, Dict.get?_erase] at h
    split at h
    · cases h
    · exact h

/-- A challenge that stands is not expired, and one that is not expired stands. -/
theorem get?_expire_active {now : T} {p : Str} {c : Challenge T} :
    (expire now b).active.get? p = some c ↔ b.active.get? p = some c ∧ now ≤ c.expiresAt := by
  rw [expire, Dict.get?_keep, Option.filter_eq_some_iff]
  refine and_congr_right fun h => ?_
  simp [h]

theorem get?_expire_issued {now : T} {p code : Str} {c : Challenge T}
    (h : b.active.get? p = some c) (hlive : now ≤ c.expiresAt) :
    (expire now b).issued.get? (code, p) = b.issued.get? (code, p) := by
  rw [expire, Dict.get?_keep]
  have htrue : ∀ r : Receipt T, (!(b.active.get? p).any fun c => decide (c.expiresAt < now)) = true := by
    intro _
    simp [h, hlive]
  cases b.issued.get? (code, p) with
  | none => rfl
  | some r => simp [Option.filter, h, hlive]

/-! ### What each call does -/

theorem shrinks_enrollConsumer (consumer : Obj) :
    b.Shrinks ((H.enrollConsumer scene b consumer).getD b) := by
  rw [enrollConsumer]
  split
  · exact .refl b
  · split
    · exact .refl b
    · exact ⟨rfl, rfl, rfl, id, id⟩

/-- An enrollment changes nothing, or is the first under the `id` of its producer. -/
theorem enrollProducer_cases (producer : Obj) (code moduleName capabilityId : Str) :
    (H.enrollProducer b producer code moduleName capabilityId).getD b = b ∨
      ∃ e : Enrollment, e.producer = producer ∧ e.sourceEpoch = H.epoch b.drawn ∧
        b.producers.get? (H.ident producer) = none ∧
        (H.enrollProducer b producer code moduleName capabilityId).getD b =
          { b with
            producers := b.producers.set (H.ident producer) e
            byCode := b.byCode.set e.code e
            drawn := b.drawn + 1 } := by
  rw [enrollProducer]
  split
  · exact Or.inl rfl
  · split
    · exact Or.inl rfl
    · split
      · exact Or.inl rfl
      · rename_i hnone
        refine Or.inr ⟨_, rfl, rfl, ?_, rfl⟩
        simpa using hnone

/-- A challenge that is added was named by no active one. -/
theorem registerChallenge_cases (scene : Scene T) (consumer : Option Obj) (c : Challenge T) :
    ((H.registerChallenge scene b consumer c).2 = false ∧
        b.Shrinks (H.registerChallenge scene b consumer c).1) ∨
      ((H.registerChallenge scene b consumer c).2 = true ∧ ∃ b', b.Shrinks b' ∧
        Broker.Shrinks { b' with active := b'.active.set c.probeId c }
          (H.registerChallenge scene b consumer c).1) := by
  rw [registerChallenge]
  split
  · exact Or.inl ⟨rfl, .refl b⟩
  · split
    · exact Or.inl ⟨rfl, .refl b⟩
    · dsimp only
      split
      · exact Or.inl ⟨rfl, shrinks_expire _ b⟩
      · exact Or.inr ⟨rfl, _, shrinks_expire _ b, .keep _ _ _⟩

theorem shrinks_activeFor (producer : Obj) (kind : Str) :
    b.Shrinks (H.activeFor scene b producer kind).1 := by
  rw [activeFor]
  split
  · exact .refl b
  · split
    · exact .refl b
    · exact shrinks_expire _ b

/-- The producer, the challenge and the time that a receipt is issued for. -/
structure Answers (H : Host T) (scene : Scene T) (b : Broker T) (producer : Obj)
    (probe observation : Str) (observedAt : Option (Option T)) (e : Enrollment) (c : Challenge T)
    (stamp : T) : Prop where
  enrolled : b.producers.get? (H.ident producer) = some e
  own : e.producer = producer
  active : b.active.get? probe = some c
  made : observedAt.getD (some scene.clock) = some stamp
  observation : ∃ names, e.observations.lookup c.probeKind = some names ∧ observation ∈ names
  early : H.early c.issuedAt ≤ stamp
  late : stamp ≤ H.late c.expiresAt

/-- A receipt is one that was issued before, or a new one. -/
theorem issue_cases (producer : Obj) (probe observation target : Str) (observedAt : Option (Option T))
    {b' : Broker T} {answer : Option (Option (Receipt T))}
    (h : H.issue scene b producer probe observation target observedAt = (b', answer)) :
    (b' = b ∧ ∀ r, answer ≠ some (some r)) ∨
      ∃ e c stamp r, Answers H scene b producer probe observation observedAt e c stamp ∧
        answer = some (some r) ∧
        ((b.issued.get? (e.code, c.probeId) = some r ∧ b' = b) ∨
          (b.issued.get? (e.code, c.probeId) = none ∧
            r = ⟨e, c, observation, scene.generation producer, stamp⟩ ∧
            (canonical r.core).isSome ∧ b' = store b (e.code, c.probeId) r)) := by
  rw [issue] at h
  split at h
  · rename_i e c stamp henrolled hactive hstamp
    split at h
    · cases h
      exact Or.inl ⟨rfl, fun r hr => by cases hr⟩
    · rename_i hanswers
      simp only [answers, Bool.not_eq_true', Bool.not_eq_false, Bool.and_eq_true,
        decide_eq_true_eq, Option.any_eq_true] at hanswers
      obtain ⟨⟨⟨⟨⟨hderef, -⟩, names, hnames, hobservation⟩, -⟩, hearly⟩, hlate⟩ := hanswers
      have hproducer : e.producer = producer := by
        rw [Scene.deref] at hderef
        split at hderef
        · exact Option.some.inj hderef
        · cases hderef
      have hanswers : Answers H scene b producer probe observation observedAt e c stamp :=
        ⟨henrolled, hproducer, hactive, hstamp, ⟨names, hnames, List.contains_iff_mem.mp hobservation⟩,
          hearly, hlate⟩
      split at h
      · rename_i cached hcached
        cases h
        exact Or.inr ⟨e, c, stamp, cached, hanswers, rfl, Or.inl ⟨hcached, rfl⟩⟩
      · rename_i hnone
        dsimp only at h
        split at h
        · cases h
          exact Or.inl ⟨rfl, fun r hr => by cases hr⟩
        · rename_i hcanonical
          cases h
          exact Or.inr ⟨e, c, stamp, _, hanswers, rfl, Or.inr ⟨hnone, rfl,
            by simpa [Option.isSome_iff_ne_none] using hcanonical, rfl⟩⟩
  · cases h
    exact Or.inl ⟨rfl, fun r hr => by cases hr⟩

omit [LinearOrder T] in
theorem shrinks_store (b : Broker T) (key : Str × Str) (r : Receipt T) :
    Broker.Shrinks { b with issued := b.issued.set key r } (store b key r) := by
  refine ⟨rfl, rfl, rfl, id, fun h => ?_⟩
  rw [store, Dict.get?_keep, Option.filter_eq_some_iff] at h
  exact h.1

/-- What a receipt has passed that is accepted. -/
structure Passed (H : Host T) (scene : Scene T) (b : Broker T) (consumer : Option Obj) (f : Form T)
    (code probe : Str) (e : Enrollment) (c : Challenge T) : Prop where
  codeText : (f.get .responderCode).textOr H.toNumbers = some code
  probeText : (f.get .probeId).textOr H.toNumbers = some probe
  caller : b.consumer ≠ none ∧ b.consumer.bind scene.deref = consumer
  byCode : b.byCode.get? code = some e
  active : b.active.get? probe = some c
  live : scene.clock ≤ c.expiresAt
  registry : registryMatches scene e = true
  checked : H.checked e c (scene.generation e.producer) scene.clock f = some true

/-- The code or the probe id of a receipt has no text, or one of the checks raises. -/
def Raises (H : Host T) (now : T) (f : Form T) : Prop :=
  (f.get .responderCode).textOr H.toNumbers = none ∨ (f.get .probeId).textOr H.toNumbers = none ∨
    ∃ e c generation, H.checked e c generation now f = none

/-- A receipt takes its challenge away when it has passed; else at most the expired challenges go. -/
theorem verifyAndConsume_cases (scene : Scene T) (consumer : Option Obj) (receipt : Option (Form T)) :
    ((H.verifyAndConsume scene b consumer receipt).2 ≠ some true ∧
        ((H.verifyAndConsume scene b consumer receipt).2 = none →
          ∃ f, receipt = some f ∧ Raises H scene.clock f) ∧
        ((H.verifyAndConsume scene b consumer receipt).1 = b ∨
          (H.verifyAndConsume scene b consumer receipt).1 = expire scene.clock b)) ∨
      ∃ f code probe e c, receipt = some f ∧ Passed H scene b consumer f code probe e c ∧
        H.verifyAndConsume scene b consumer receipt =
          (consume code probe (expire scene.clock b), if H.notified f then some true else none) := by
  cases receipt with
  | none => exact Or.inl ⟨by simp [verifyAndConsume], by simp [verifyAndConsume], Or.inl rfl⟩
  | some f =>
    rw [verifyAndConsume]
    split
    · rename_i code probe hcode hprobe
      split
      · exact Or.inl ⟨by simp, by simp, Or.inl rfl⟩
      · rename_i hconsumer
        dsimp only
        split
        · rename_i e c he hc
          split
          · exact Or.inl ⟨by simp, by simp, Or.inr rfl⟩
          · rename_i hregistry
            split
            · rename_i hchecked
              obtain ⟨hactive, hlive⟩ := get?_expire_active.mp hc
              refine Or.inr ⟨f, code, probe, e, c, rfl, ?_, rfl⟩
              exact ⟨hcode, hprobe, by simpa [not_or] using hconsumer, he, hactive, hlive,
                by simpa using hregistry, hchecked⟩
            · rename_i hanswer
              exact Or.inl ⟨hanswer, fun hnone => ⟨f, rfl, Or.inr (Or.inr ⟨e, c, _, hnone⟩)⟩, Or.inr rfl⟩
        · exact Or.inl ⟨by simp, by simp, Or.inr rfl⟩
    · rename_i hnone
      refine Or.inl ⟨by simp, fun _ => ⟨f, rfl, ?_⟩, Or.inl rfl⟩
      by_cases hcode : (f.get .responderCode).textOr H.toNumbers = none
      · exact Or.inl hcode
      · refine Or.inr (Or.inl (Option.eq_none_iff_forall_ne_some.mpr fun probe hprobe => ?_))
        obtain ⟨code, hcode⟩ := Option.ne_none_iff_exists'.mp hcode
        exact hnone code probe hcode hprobe

end Host

/-! ### The invariant is kept -/

namespace World.Inv

variable {H : Host T} {w w' : World T}

/-- Two registered challenges of one probe id are one. -/
theorem eq_of_probeId (h : w.Inv H) {c d : Challenge T} (hc : c ∈ w.registered)
    (hd : d ∈ w.registered) (hid : c.probeId = d.probeId) : c = d :=
  List.inj_on_of_nodup_map h.registered hc hd hid

theorem shrink (h : w.Inv H) (hs : w.broker.Shrinks w'.broker)
    (hregistered : w'.registered = w.registered) (hsigned : w'.signed = w.signed)
    (haccepted : w'.accepted = w.accepted) : w'.Inv H where
  producers he := h.producers (hs.producers ▸ he)
  sources he := hs.drawn ▸ h.sources (hs.producers ▸ he)
  distinct he he' := h.distinct (hs.producers ▸ he) (hs.producers ▸ he')
  byCode he := hs.producers ▸ h.byCode (hs.byCode ▸ he)
  registered := hregistered ▸ h.registered
  active hc := by
    rw [hregistered, haccepted]
    exact h.active (hs.active hc)
  accepted := haccepted ▸ h.accepted
  accepted_registered := by
    rw [hregistered, haccepted]
    exact h.accepted_registered
  signed := by
    rw [hregistered, hsigned, hs.producers]
    exact h.signed
  issued hr := by
    rw [hsigned]
    exact h.issued (hs.issued hr)

/-- A producer enrolls whose `id` had no enrollment. -/
theorem enroll (h : w.Inv H) {e : Enrollment} (hsource : e.sourceEpoch = H.epoch w.broker.drawn)
    (hnone : w.broker.producers.get? (H.ident e.producer) = none) :
    World.Inv H { w with broker :=
      { w.broker with
        producers := w.broker.producers.set (H.ident e.producer) e
        byCode := w.broker.byCode.set e.code e
        drawn := w.broker.drawn + 1 } } := by
  have hold : ∀ {i : ℕ} {e' : Enrollment}, w.broker.producers.get? i = some e' →
      e'.sourceEpoch ≠ e.sourceEpoch := by
    intro i e' he' heq
    obtain ⟨n, hn, hepoch⟩ := h.sources he'
    rw [hepoch, hsource] at heq
    exact hn.ne (H.epoch_injective heq)
  have hkeep : ∀ {e' : Enrollment}, w.broker.producers.get? (H.ident e'.producer) = some e' →
      (w.broker.producers.set (H.ident e.producer) e).get? (H.ident e'.producer) = some e' := by
    intro e' he'
    rw [Dict.get?_set, if_neg, he']
    intro heq
    rw [heq, hnone] at he'
    cases he'
  refine ⟨fun {i e'} he' => ?_, fun {i e'} he' => ?_, fun {i j e₁ e₂} h₁ h₂ heq => ?_,
    fun {code e'} he' => ?_, h.registered, h.active, h.accepted, h.accepted_registered,
    fun r hr => ?_, h.issued⟩
  · rw [Dict.get?_set] at he'
    split at he'
    · rename_i hi
      obtain rfl := Option.some.inj he'
      exact hi
    · exact h.producers he'
  · rw [Dict.get?_set] at he'
    split at he'
    · obtain rfl := Option.some.inj he'
      exact ⟨w.broker.drawn, Nat.lt_succ_self _, hsource⟩
    · obtain ⟨n, hn, hepoch⟩ := h.sources he'
      exact ⟨n, hn.trans (Nat.lt_succ_self _), hepoch⟩
  · rw [Dict.get?_set] at h₁ h₂
    split at h₁
    · obtain rfl := Option.some.inj h₁
      split at h₂
      · exact Option.some.inj h₂
      · exact absurd heq.symm (hold h₂)
    · split at h₂
      · obtain rfl := Option.some.inj h₂
        exact absurd heq (hold h₁)
      · exact h.distinct h₁ h₂ heq
  · rw [Dict.get?_set] at he'
    split at he'
    · rename_i hcode
      obtain rfl := Option.some.inj he'
      exact ⟨by rw [Dict.get?_set, if_pos rfl], hcode.symm⟩
    · obtain ⟨hproducer, hcode⟩ := h.byCode he'
      exact ⟨hkeep hproducer, hcode⟩
  · obtain ⟨hproducer, hrest⟩ := h.signed r hr
    exact ⟨hkeep hproducer, hrest⟩

/-- A challenge is registered under a probe id that no registered one has. -/
theorem register (h : w.Inv H) {c : Challenge T} (hfresh : ∀ d ∈ w.registered, d.probeId ≠ c.probeId) :
    World.Inv H { w with
      broker := { w.broker with active := w.broker.active.set c.probeId c }
      registered := w.registered ++ [c] } := by
  refine ⟨h.producers, h.sources, h.distinct, h.byCode, ?_, fun {p d} hd => ?_, h.accepted,
    fun d hd => List.mem_append_left _ (h.accepted_registered d hd), fun r hr => ?_, h.issued⟩
  · rw [List.map_append, List.nodup_append]
    refine ⟨h.registered, List.nodup_singleton _, fun p hp q hq => ?_⟩
    obtain ⟨d, hd, rfl⟩ := List.mem_map.mp hp
    rw [List.map_singleton, List.mem_singleton] at hq
    rw [hq]
    exact hfresh d hd
  · rw [Dict.get?_set] at hd
    split at hd
    · rename_i hp
      obtain rfl := Option.some.inj hd
      exact ⟨hp.symm, List.mem_append_right _ (List.mem_singleton_self _),
        fun hacc => hfresh _ (h.accepted_registered _ hacc) rfl⟩
    · obtain ⟨hp, hreg, hacc⟩ := h.active hd
      exact ⟨hp, List.mem_append_left _ hreg, hacc⟩
  · obtain ⟨hproducer, hreg, hrest⟩ := h.signed r hr
    exact ⟨hproducer, List.mem_append_left _ hreg, hrest⟩

/-- What is signed again was signed. -/
theorem resign (h : w.Inv H) {r : Receipt T} (hr : r ∈ w.signed)
    (newest : Obj → Str → Option (Receipt T)) :
    World.Inv H { w with signed := w.signed ++ [r], newest := newest } := by
  have hmem : ∀ r' ∈ w.signed ++ [r], r' ∈ w.signed := by
    intro r' hr'
    rcases List.mem_append.mp hr' with h' | h'
    · exact h'
    · rw [List.mem_singleton.mp h']
      exact hr
  exact ⟨h.producers, h.sources, h.distinct, h.byCode, h.registered, h.active, h.accepted,
    h.accepted_registered, fun r' hr' => h.signed r' (hmem r' hr'), fun {k r'} hk =>
      ⟨List.mem_append_left _ (h.issued hk).1, (h.issued hk).2⟩⟩

/-- A new receipt is signed for an active challenge. -/
theorem sign (h : w.Inv H) {producer : Obj} {probe observation : Str} {observedAt : Option (Option T)}
    {e : Enrollment} {c : Challenge T} {stamp : T} {generation : ℤ}
    (hanswers : Host.Answers H w.scene w.broker producer probe observation observedAt e c stamp)
    (hcanonical : (canonical (Receipt.core ⟨e, c, observation, generation, stamp⟩)).isSome)
    (newest : Obj → Str → Option (Receipt T)) :
    World.Inv H { w with
      broker := { w.broker with
        issued := w.broker.issued.set (e.code, c.probeId) ⟨e, c, observation, generation, stamp⟩ }
      signed := w.signed ++ [⟨e, c, observation, generation, stamp⟩]
      newest := newest } := by
  refine ⟨h.producers, h.sources, h.distinct, h.byCode, h.registered, h.active, h.accepted,
    h.accepted_registered, fun r hr => ?_, fun {k r} hk => ?_⟩
  · rcases List.mem_append.mp hr with hr | hr
    · exact h.signed r hr
    · obtain rfl := List.mem_singleton.mp hr
      refine ⟨?_, (h.active hanswers.active).2.1, hcanonical, hanswers.observation, hanswers.early,
        hanswers.late⟩
      rw [hanswers.own]
      exact hanswers.enrolled
  · rw [Dict.get?_set] at hk
    split at hk
    · rename_i heq
      obtain rfl := Option.some.inj hk
      exact ⟨List.mem_append_right _ (List.mem_singleton_self _), heq⟩
    · exact ⟨List.mem_append_left _ (h.issued hk).1, (h.issued hk).2⟩

/-- An active challenge is taken away by an accepted receipt. -/
theorem accept (h : w.Inv H) {code probe : Str} {c : Challenge T}
    (hc : w.broker.active.get? probe = some c) :
    World.Inv H { w with
      broker := Host.consume code probe w.broker, accepted := w.accepted ++ [c] } := by
  have hs := Host.shrinks_consume code probe w.broker
  obtain ⟨hprobe, hreg, hnew⟩ := h.active hc
  refine ⟨h.producers, h.sources, h.distinct, h.byCode, h.registered, fun {p d} hd => ?_, ?_, ?_,
    h.signed, fun hk => h.issued (hs.issued hk)⟩
  · obtain ⟨hp, hdreg, hdacc⟩ := h.active (hs.active hd)
    refine ⟨hp, hdreg, fun hmem => ?_⟩
    rcases List.mem_append.mp hmem with hmem | hmem
    · exact hdacc hmem
    · rw [Host.consume, Dict.get?_erase, if_pos] at hd
      · cases hd
      · rw [← hp, List.mem_singleton.mp hmem, hprobe]
  · rw [List.map_append, List.nodup_append]
    refine ⟨h.accepted, List.nodup_singleton _, fun p hp q hq heq => ?_⟩
    obtain ⟨d, hd, rfl⟩ := List.mem_map.mp hp
    rw [List.map_singleton, List.mem_singleton] at hq
    have hsame := h.eq_of_probeId (h.accepted_registered d hd) hreg (heq.trans hq)
    exact hnew (hsame ▸ hd)
  · intro d hd
    rcases List.mem_append.mp hd with hd | hd
    · exact h.accepted_registered d hd
    · rw [List.mem_singleton.mp hd]
      exact hreg

theorem start (scene : Scene T) : (World.start scene).Inv H := by
  refine ⟨fun he => ?_, fun he => ?_, fun he => ?_, fun he => ?_, List.nodup_nil, fun hc => ?_,
    List.nodup_nil, fun c hc => ?_, fun r hr => ?_, fun hk => ?_⟩
  all_goals first
    | cases he
    | cases hc
    | cases hr
    | cases hk

/-- Every event keeps the invariant. -/
theorem after (h : w.Inv H) (event : Event T) (hordinary : H.Ordinary w event) :
    (H.after w event).Inv H := by
  cases event with
  | enrollConsumer consumer => exact h.shrink (Host.shrinks_enrollConsumer consumer) rfl rfl rfl
  | enrollProducer producer code moduleName capabilityId =>
    rw [Host.after]
    rcases Host.enrollProducer_cases (H := H) (b := w.broker) producer code moduleName capabilityId with
      hsame | ⟨e, rfl, hsource, hnone, hnew⟩
    · rw [hsame]
      exact h
    · rw [hnew]
      exact h.enroll hsource hnone
  | registerChallenge consumer c =>
    rw [Host.after]
    rcases Host.registerChallenge_cases (H := H) (b := w.broker) w.scene consumer c with
      ⟨hfalse, hs⟩ | ⟨htrue, b', hs, hadded⟩
    · dsimp only
      rw [hfalse, if_neg Bool.false_ne_true]
      exact h.shrink hs rfl rfl rfl
    · dsimp only
      rw [htrue, if_pos rfl]
      have hshrunk : World.Inv H { w with broker := b' } := h.shrink hs rfl rfl rfl
      exact (hshrunk.register hordinary).shrink hadded rfl rfl rfl
  | activeFor producer kind => exact h.shrink (Host.shrinks_activeFor producer kind) rfl rfl rfl
  | issue producer probe observation target observedAt =>
    rw [Host.after]
    rcases hissue : H.issue w.scene w.broker producer probe observation target observedAt with
      ⟨b', answer⟩
    rcases Host.issue_cases producer probe observation target observedAt hissue with
      ⟨rfl, hnone⟩ | ⟨e, c, stamp, r, hanswers, rfl, ⟨hcached, rfl⟩ | ⟨-, rfl, hcanonical, rfl⟩⟩
    · rcases answer with _ | _ | r
      · exact h
      · exact h
      · exact absurd rfl (hnone r)
    · exact h.resign (h.issued hcached).1 _
    · exact (h.sign hanswers hcanonical w.newest).shrink (Host.shrinks_store _ _ _) rfl rfl rfl
  | verify consumer receipt =>
    rw [Host.after, Host.verdict]
    rcases Host.verifyAndConsume_cases (H := H) (b := w.broker) w.scene consumer receipt with
      ⟨hrefused, -, hsame | hexpired⟩ | ⟨f, code, probe, e, c, rfl, hpassed, hverify⟩
    · rw [hsame, if_neg hrefused]
      exact h
    · rw [hexpired, if_neg hrefused]
      exact h.shrink (Host.shrinks_expire _ _) rfl rfl rfl
    · have hnamed : H.named w.broker (some f) = some c := by
        simp [Host.named, hpassed.probeText, hpassed.active]
      have hexpired : World.Inv H { w with broker := Host.expire w.scene.clock w.broker } :=
        h.shrink (Host.shrinks_expire _ _) rfl rfl rfl
      rw [hverify, hnamed]
      by_cases hnotified : H.notified f = true
      · rw [if_pos hnotified, if_pos rfl]
        exact hexpired.accept (Host.get?_expire_active.mpr ⟨hpassed.active, hpassed.live⟩)
      · rw [if_neg hnotified, if_neg (by simp)]
        exact hexpired.shrink (Host.shrinks_consume code probe _) rfl rfl rfl
  | setRegistry name entry => exact h.shrink (.refl _) rfl rfl rfl
  | setGeneration o generation => exact h.shrink (.refl _) rfl rfl rfl
  | dies o => exact h.shrink (.refl _) rfl rfl rfl
  | tick t => exact h.shrink (.refl _) rfl rfl rfl

end World.Inv

end Angerona.Assurance
