import Mathlib
import Angerona.Assurance.Runs

/-!
    What is accepted: once, genuine, and every honest answer.

    In every run a challenge is accepted once and a refused call leaves what is not expired, whatever is
    presented. What is accepted is genuine when the receipt is a plain dictionary of built-in values;
    otherwise the fields that are compared need not be those that are authenticated. The call raises on
    values that have no text, no hash or no JSON text.

    An honest answer is accepted when the receipt that was issued before, if there is one, is of the
    same enrollment and the same lifecycle generation, when the observation is not stamped ahead of the
    clock, and when the registered producer is the one that was enrolled last for its code. -/

namespace Angerona.Assurance
open Transition

variable {T : Type} [LinearOrder T]

namespace Host

variable (H : Host T)

/-- A plain dictionary of built-in values. -/
def Candid (f : Form T) : Prop :=
  ∃ values, f = .plain values f.producerMac ∧ ∀ k, (values k).builtin = true

/-- A plain dictionary of built-in values whose code, probe id and authenticator have a text, whose
    observation can be looked up in a set, and whose fields can be written as JSON. -/
structure Plain (f : Form T) : Prop where
  candid : Candid f
  code : ((f.get .responderCode).textOr H.toNumbers).isSome
  probe : ((f.get .probeId).textOr H.toNumbers).isSome
  mac : (f.producerMac.textOr H.toNumbers).isSome
  observation : ∀ names, ((f.get .observation).among names).isSome
  canonical : (canonical f.get).isSome

/-- The producer that is registered for a code is the one that was enrolled last for it. -/
def Current (w : World T) (code : Str) : Prop :=
  ∀ o e, w.broker.producers.get? (H.ident o) = some e → e.producer = o → e.code = code →
    w.scene.registry e.moduleName = some o → w.broker.byCode.get? code = some e

/-- The receipt that was issued before for this challenge, if there is one, was issued under this
    enrollment and in this lifecycle generation, and the observation is not ahead of the clock. -/
structure IssuesFresh (w : World T) (producer : Obj) (probe : Str) (observedAt : Option (Option T)) :
    Prop where
  cached : ∀ e c r, w.broker.producers.get? (H.ident producer) = some e →
    w.broker.active.get? probe = some c → w.broker.issued.get? (e.code, c.probeId) = some r →
      r.enrollment = e ∧ r.generation = w.scene.generation producer
  stamp : ∀ t, observedAt = some (some t) → t ≤ H.late w.scene.clock

/-- The condition on a step. -/
def Sound (w : World T) : Event T → Prop
  | .issue producer probe _ _ observedAt => H.IssuesFresh w producer probe observedAt
  | _ => True

/-- The accepted receipt is one that the registered producer of its code was given, for this
    challenge, in its present lifecycle generation. -/
structure Genuine (w : World T) (f : Form T) (r : Receipt T) : Prop where
  signed : r ∈ w.signed
  values : f = .plain r.core f.producerMac
  mac : f.producerMac.textOr H.toNumbers = some (r.mac H)
  registered : w.scene.registry r.enrollment.moduleName = some r.enrollment.producer
  alive : w.scene.alive r.enrollment.producer = true
  byCode : w.broker.byCode.get? r.enrollment.code = some r.enrollment
  generation : r.generation = w.scene.generation r.enrollment.producer
  active : w.broker.active.get? r.challenge.probeId = some r.challenge
  live : w.scene.clock ≤ r.challenge.expiresAt
  unused : r.challenge ∉ w.accepted

/-- Every challenge that is not expired stays, with what was issued for it. -/
structure Kept (now : T) (b b' : Broker T) : Prop where
  consumer : b'.consumer = b.consumer
  producers : b'.producers = b.producers
  byCode : b'.byCode = b.byCode
  active : ∀ {p c}, b.active.get? p = some c → now ≤ c.expiresAt → b'.active.get? p = some c
  issued : ∀ {p c}, b.active.get? p = some c → now ≤ c.expiresAt → ∀ code,
    b'.issued.get? (code, p) = b.issued.get? (code, p)

/-- The newest answer of a live registered producer, for an active challenge that is not expired. -/
structure Honest (w : World T) (consumer producer : Obj) (r : Receipt T) : Prop where
  newest : ∃ p c, w.newest producer p = some r ∧ w.broker.active.get? p = some c ∧
    w.scene.clock ≤ c.expiresAt
  enrolled : w.broker.consumer = some consumer
  enrolled_alive : w.scene.alive consumer = true
  registered : w.scene.registry r.enrollment.moduleName = some producer
  alive : w.scene.alive producer = true

/-- What is promised of every presented receipt; that the call returns and that what it accepts is
    genuine, of those that meet a condition. -/
structure Safe (returning candid : Form T → Prop) (w : World T) : Prop where
  once : (w.accepted.map Challenge.probeId).Nodup
  kept : ∀ consumer receipt, H.verdict w consumer receipt = some false →
    Kept w.scene.clock w.broker (H.after w (.verify consumer receipt)).broker
  returns : ∀ consumer receipt, H.Ordinary w (.verify consumer receipt) →
    (∀ f, receipt = some f → returning f) → H.verdict w consumer receipt ≠ none
  genuine : ∀ consumer f, H.Ordinary w (.verify consumer (some f)) → candid f →
    H.verdict w consumer (some f) = some true → ∃ r, H.Genuine w f r

/-- Every honest answer that meets a condition is accepted. -/
def Accepts (cond : Receipt T → Prop) (w : World T) : Prop :=
  ∀ consumer producer r, Honest w consumer producer r → cond r →
    H.verdict w (some consumer) (some (r.form H)) = some true

variable {H} {w : World T} {b : Broker T} {scene : Scene T}

/-! ### What is accepted is genuine -/

omit [LinearOrder T] in
theorem canonical_json {core : CoreField → Val T} {canon : CoreField → Json T}
    (h : canonical core = some canon) (k : CoreField) : (core k).json = some (canon k) := by
  rw [canonical] at h
  split at h
  · rename_i hall
    obtain ⟨j, hj⟩ := Option.isSome_iff_exists.mp (List.all_eq_true.mp hall k k.mem_all)
    rw [← Option.some.inj h]
    dsimp only
    rw [hj, Option.getD_some]
  · cases h

omit [LinearOrder T] in
theorem canonical_core {r : Receipt T} (h : (canonical r.core).isSome) :
    canonical r.core = some fun k => (r.core k).json.getD .null := by
  rw [canonical] at h ⊢
  split
  · rfl
  · rename_i hall
    rw [if_neg hall] at h
    cases h

omit [LinearOrder T] in
theorem scalar_core (r : Receipt T) (k : CoreField) : (r.core k).Scalar := by
  cases k <;> simp [Receipt.core, Val.Scalar]

theorem fieldsMatch_true {e : Enrollment} {c : Challenge T} {generation : ℤ} {get : CoreField → Val T}
    (h : H.fieldsMatch e c generation get = some true) :
    (get .lifecycleGeneration).isInt H.toNumbers generation = some true := by
  rw [fieldsMatch] at h
  obtain ⟨version, -, h⟩ := Option.bind_eq_some_iff.mp h
  split at h
  · cases h
  · obtain ⟨texts, -, h⟩ := Option.bind_eq_some_iff.mp h
    split at h
    · cases h
    · split at h
      · cases h
      · obtain ⟨observed, -, h⟩ := Option.bind_eq_some_iff.mp h
        split at h
        · cases h
        · exact h

theorem checked_true {e : Enrollment} {c : Challenge T} {generation : ℤ} {now : T} {f : Form T}
    (h : H.checked e c generation now f = some true) :
    (f.get .lifecycleGeneration).isInt H.toNumbers generation = some true ∧
      ∃ core canon, f.core = some core ∧ canonical core = some canon ∧
        f.producerMac.textOr H.toNumbers = some (H.mac e.sourceEpoch canon) := by
  rw [checked] at h
  obtain ⟨fields, hfields, h⟩ := Option.bind_eq_some_iff.mp h
  split at h
  · cases h
  · rename_i hmatch
    obtain rfl : fields = true := by simpa using hmatch
    refine ⟨fieldsMatch_true hfields, ?_⟩
    obtain ⟨observed, -, h⟩ := Option.bind_eq_some_iff.mp h
    split at h
    · cases h
    · rw [authentic] at h
      obtain ⟨core, hcore, h⟩ := Option.bind_eq_some_iff.mp h
      obtain ⟨supplied, hsupplied, h⟩ := Option.bind_eq_some_iff.mp h
      split at h
      · cases h
      · obtain ⟨canon, hcanon, h⟩ := Option.bind_eq_some_iff.mp h
        exact ⟨core, canon, hcore, hcanon, by rw [hsupplied, of_decide_eq_true (Option.some.inj h)]⟩

theorem genuine_of_passed (hinv : w.Inv H) {consumer : Option Obj} {f : Form T} {code probe : Str}
    {e : Enrollment} {c : Challenge T} (hunforged : H.Unforged w f) (hcandid : Candid f)
    (h : Passed H w.scene w.broker consumer f code probe e c) : ∃ r, H.Genuine w f r := by
  obtain ⟨hgeneration, core, canon, hfcore, hcanon, hmac⟩ := checked_true h.checked
  obtain ⟨values, hplain, hbuiltin⟩ := hcandid
  obtain ⟨henrolled, hcode⟩ := hinv.byCode h.byCode
  obtain ⟨r, hr, hsource, hrcore⟩ := hunforged _ e core canon henrolled hfcore hcanon hmac
  obtain ⟨hrenrolled, hregistered, hcanonical, -⟩ := hinv.signed r hr
  obtain rfl : r.enrollment = e := hinv.distinct hrenrolled henrolled hsource
  obtain rfl : core = values := by
    rw [hplain] at hfcore
    exact (Option.some.inj hfcore).symm
  -- what is authenticated are the fields that were signed, and what is compared are the same values
  obtain rfl : core = r.core := funext fun k =>
    (scalar_core r k).eq_of_json (hbuiltin k) (canonical_json hrcore k) (canonical_json hcanon k)
  have hget : f.get = r.core := by rw [hplain]; rfl
  have hprobe : r.challenge.probeId = probe := by
    have htext := h.probeText
    rw [hget] at htext
    exact Option.some.inj ((Val.textOr_str H.toNumbers _).symm.trans htext)
  obtain ⟨hcprobe, hcreg, hcnew⟩ := hinv.active h.active
  obtain rfl : r.challenge = c := hinv.eq_of_probeId hregistered hcreg (hprobe.trans hcprobe.symm)
  obtain ⟨halive, hregistry⟩ := Bool.and_eq_true_iff.mp h.registry
  refine ⟨r, hr, hplain, ?_, of_decide_eq_true hregistry, halive, ?_, ?_, ?_, h.live, hcnew⟩
  · rw [hmac, Receipt.mac, ← Option.some.inj (hcanon.symm.trans (canonical_core hcanonical))]
  · rw [hcode]
    exact h.byCode
  · rw [hget] at hgeneration
    exact of_decide_eq_true (Option.some.inj hgeneration)
  · rw [hprobe]
    exact h.active

/-! ### It does not raise -/

omit [LinearOrder T] in
theorem isSome_bind {α β : Type} {x : Option α} {g : α → Option β} (hx : x.isSome)
    (hg : ∀ a, (g a).isSome) : (x.bind g).isSome := by
  obtain ⟨a, rfl⟩ := Option.isSome_iff_exists.mp hx
  exact hg a

omit [LinearOrder T] in
theorem isSome_allM {α : Type} {p : α → Option Bool} (h : ∀ a, (p a).isSome) : ∀ l : List α,
    (l.allM p).isSome
  | [] => rfl
  | a :: l => by
    refine isSome_bind (h a) fun answer => ?_
    cases answer with
    | false => rfl
    | true => exact isSome_allM h l

/-- The fields of a plain dictionary of built-in values can be compared when JSON writes them. -/
theorem comparable {f : Form T} (h : H.Plain f) (k : CoreField) :
    (∀ s, ((f.get k).isText s).isSome) ∧ (∀ n, ((f.get k).isInt H.toNumbers n).isSome) ∧
      ((f.get k).toFloat H.toNumbers).isSome := by
  obtain ⟨values, hplain, hbuiltin⟩ := h.candid
  obtain ⟨canon, hcanon⟩ := Option.isSome_iff_exists.mp h.canonical
  refine Val.isSome_of_json H.toNumbers ?_ ?_
  · rw [hplain]
    exact hbuiltin k
  · rw [canonical_json hcanon k]
    rfl

theorem checked_isSome {e : Enrollment} {c : Challenge T} {generation : ℤ} {now : T} {f : Form T}
    (h : H.Plain f) : (H.checked e c generation now f).isSome := by
  obtain ⟨values, hplain, -⟩ := h.candid
  have hfields : (H.fieldsMatch e c generation f.get).isSome := by
    rw [fieldsMatch]
    refine isSome_bind ((comparable h _).2.1 _) fun version => ?_
    split
    · rfl
    · refine isSome_bind (isSome_allM (fun p => (comparable h _).1 _) _) fun texts => ?_
      split
      · rfl
      · split
        · rfl
        · refine isSome_bind (h.observation _) fun observed => ?_
          split
          · rfl
          · exact (comparable h _).2.1 _
  rw [checked]
  refine isSome_bind hfields fun fields => ?_
  split
  · rfl
  · have hobserved : f.observedAt = f.get .observedAt := by rw [hplain]; rfl
    refine isSome_bind (hobserved ▸ (comparable h .observedAt).2.2) fun observed => ?_
    split
    · rfl
    · have hcore : f.core = some f.get := by rw [hplain]; rfl
      obtain ⟨supplied, hsupplied⟩ := Option.isSome_iff_exists.mp h.mac
      obtain ⟨canon, hcanon⟩ := Option.isSome_iff_exists.mp h.canonical
      rw [authentic, hcore, hsupplied]
      simp only [Option.bind_eq_bind, Option.bind_some, hcanon]
      split
      · rfl
      · rfl

/-- A receipt that passes is one that the broker has signed, so the notification can be made. -/
theorem verdict_ne_none (hinv : w.Inv H) (consumer : Option Obj) {f : Form T} (hunforged : H.Unforged w f)
    (h : H.Plain f) : H.verdict w consumer (some f) ≠ none := by
  rcases verifyAndConsume_cases (H := H) (b := w.broker) w.scene consumer (some f) with
    ⟨-, hraises, -⟩ | ⟨f', code, probe, e, c, hf, hpassed, hverify⟩
  · intro hnone
    obtain ⟨f', hf, hcode | hprobe | ⟨e, c, generation, hchecked⟩⟩ := hraises hnone
    all_goals obtain rfl := Option.some.inj hf
    · exact Option.isSome_iff_ne_none.mp h.code hcode
    · exact Option.isSome_iff_ne_none.mp h.probe hprobe
    · exact Option.isSome_iff_ne_none.mp (checked_isSome h) hchecked
  · obtain rfl := Option.some.inj hf
    obtain ⟨r, hgenuine⟩ := genuine_of_passed hinv hunforged h.candid hpassed
    have hnotified : H.notified f = true := by rw [hgenuine.values]; rfl
    rw [verdict, hverify, if_pos hnotified]
    exact Option.some_ne_none _

/-! ### A refused call -/

theorem Kept.refl (now : T) (b : Broker T) : Kept now b b :=
  ⟨rfl, rfl, rfl, fun h _ => h, fun _ _ _ => rfl⟩

theorem kept_expire (now : T) (b : Broker T) : Kept now b (expire now b) :=
  ⟨rfl, rfl, rfl, fun h hlive => get?_expire_active.mpr ⟨h, hlive⟩,
    fun h hlive _ => get?_expire_issued h hlive⟩

theorem kept_refused {consumer : Option Obj} {receipt : Option (Form T)}
    (h : H.verdict w consumer receipt = some false) :
    Kept w.scene.clock w.broker (H.after w (.verify consumer receipt)).broker := by
  rw [verdict] at h
  rw [Host.after]
  rcases verifyAndConsume_cases (H := H) (b := w.broker) w.scene consumer receipt with
    ⟨-, -, hsame | hexpired⟩ | ⟨f, code, probe, e, c, rfl, -, hverify⟩
  · rw [hsame]
    exact .refl _ _
  · rw [hexpired]
    exact kept_expire _ _
  · rw [hverify] at h
    dsimp only at h
    split at h
    · cases h
    · cases h

/-! ### An honest answer -/

theorem checked_form {r : Receipt T} {now : T} (hcanonical : (canonical r.core).isSome)
    (hobservation : ∃ names, r.enrollment.observations.lookup r.challenge.probeKind = some names ∧
      r.observation ∈ names)
    (hearly : H.early r.challenge.issuedAt ≤ r.observedAt)
    (hlate : r.observedAt ≤ H.late r.challenge.expiresAt) (hahead : r.observedAt ≤ H.late now) :
    H.checked r.enrollment r.challenge r.generation now (r.form H) = some true := by
  obtain ⟨names, hnames, hmem⟩ := hobservation
  have htexts : (expectedTexts r.enrollment r.challenge).allM (fun p => (r.core p.1).isText p.2) =
      some true := by
    simp [expectedTexts, Receipt.core, Val.isText, List.allM]
  have hfields : H.fieldsMatch r.enrollment r.challenge r.generation (r.form H).get = some true := by
    rw [fieldsMatch, Receipt.form, Form.plain]
    dsimp only
    rw [htexts, hnames]
    simp [Receipt.core, Val.isInt, Val.among, hmem]
  have hobserved : (r.form H).observedAt.toFloat H.toNumbers = some (some r.observedAt) := rfl
  have htimely : H.timely r.challenge now (some r.observedAt) = true := by
    simp [timely, hearly, hlate, hahead]
  have hauthentic : H.authentic r.enrollment.sourceEpoch (r.form H) = some true := by
    rw [authentic, Receipt.form, Form.plain]
    dsimp only
    rw [Val.textOr_str]
    simp only [Option.bind_eq_bind, Option.bind_some, canonical_core hcanonical]
    simp [Receipt.mac, H.mac_hex]
  rw [checked, hfields, hobserved]
  simp only [Option.bind_eq_bind, Option.bind_some, Bool.not_true, Bool.false_eq_true, if_false, htimely]
  exact hauthentic

end Host

/-- What the condition gives: no receipt is ahead of the clock, and the newest answers are those of
    the present lifecycle generations. -/
structure World.Fresh (H : Host T) (w : World T) : Prop where
  ahead : ∀ r ∈ w.signed, r.observedAt ≤ H.late w.scene.clock
  newest : ∀ {o p r}, w.newest o p = some r → r ∈ w.signed ∧ r.enrollment.producer = o ∧
    r.challenge.probeId = p ∧ r.generation = w.scene.generation o

namespace World.Fresh

variable {H : Host T} {w w' : World T}

theorem same (h : w.Fresh H) (hsigned : w'.signed = w.signed) (hclock : w.scene.clock ≤ w'.scene.clock)
    (hgeneration : w'.scene.generation = w.scene.generation) (hnewest : w'.newest = w.newest) :
    w'.Fresh H where
  ahead r hr := (h.ahead r (hsigned ▸ hr)).trans (H.late_mono hclock)
  newest hr := by
    rw [hsigned, hgeneration]
    exact h.newest (hnewest ▸ hr)

/-- A receipt that is given to a producer in its present generation. -/
theorem answer (h : w.Fresh H) {producer : Obj} {probe : Str} {r : Receipt T} {b : Broker T}
    (hahead : r.observedAt ≤ H.late w.scene.clock) (hown : r.enrollment.producer = producer)
    (hprobe : r.challenge.probeId = probe) (hgeneration : r.generation = w.scene.generation producer) :
    World.Fresh H { w with
      broker := b
      signed := w.signed ++ [r]
      newest := fun o p => if o = producer ∧ p = probe then some r else w.newest o p } where
  ahead r' hr' := by
    rcases List.mem_append.mp hr' with hr' | hr'
    · exact h.ahead r' hr'
    · rw [List.mem_singleton.mp hr']
      exact hahead
  newest {o p r'} hr' := by
    dsimp only at hr'
    split at hr'
    · rename_i hop
      obtain rfl := Option.some.inj hr'
      rw [hop.1, hop.2]
      exact ⟨List.mem_append_right _ (List.mem_singleton_self _), hown, hprobe, hgeneration⟩
    · obtain ⟨hsigned, hrest⟩ := h.newest hr'
      exact ⟨List.mem_append_left _ hsigned, hrest⟩

theorem after (h : w.Fresh H) (hinv : w.Inv H) (event : Event T) (hordinary : H.Ordinary w event)
    (hsound : H.Sound w event) : (H.after w event).Fresh H := by
  cases event with
  | enrollConsumer consumer => exact h.same rfl le_rfl rfl rfl
  | enrollProducer producer code moduleName capabilityId => exact h.same rfl le_rfl rfl rfl
  | registerChallenge consumer c => exact h.same rfl le_rfl rfl rfl
  | activeFor producer kind => exact h.same rfl le_rfl rfl rfl
  | issue producer probe observation target observedAt =>
    rw [Host.after]
    rcases hissue : H.issue w.scene w.broker producer probe observation target observedAt with
      ⟨b', answer⟩
    rcases Host.issue_cases producer probe observation target observedAt hissue with
      ⟨rfl, hnone⟩ | ⟨e, c, stamp, r, hanswers, rfl, ⟨hcached, rfl⟩ | ⟨-, rfl, hcanonical, rfl⟩⟩
    · rcases answer with _ | _ | r
      · exact h
      · exact h
      · exact absurd rfl (hnone r)
    · -- the receipt that was issued before
      obtain ⟨hsigned, hkey⟩ := hinv.issued hcached
      obtain ⟨henrollment, hgeneration⟩ :=
        hsound.cached e c r hanswers.enrolled hanswers.active hcached
      have hprobe : c.probeId = probe := (hinv.active hanswers.active).1
      exact h.answer (h.ahead r hsigned) (by rw [henrollment]; exact hanswers.own)
        ((Prod.ext_iff.mp hkey).2.symm.trans hprobe) hgeneration
    · refine h.answer ?_ hanswers.own (hinv.active hanswers.active).1 rfl
      have hmade := hanswers.made
      cases observedAt with
      | none =>
        obtain rfl := Option.some.inj hmade
        exact H.le_late _
      | some t =>
        rw [Option.getD_some] at hmade
        exact hsound.stamp stamp (by rw [hmade])
  | verify consumer receipt => exact h.same rfl le_rfl rfl rfl
  | setRegistry name entry => exact h.same rfl le_rfl rfl rfl
  | setGeneration o generation =>
    refine ⟨h.ahead, fun {o' p r} hr => ?_⟩
    rw [Host.after] at hr ⊢
    dsimp only at hr ⊢
    split at hr
    · cases hr
    · rename_i hne
      obtain ⟨hsigned, hown, hprobe, hgeneration⟩ := h.newest hr
      refine ⟨hsigned, hown, hprobe, ?_⟩
      by_cases ho : o' = o
      · subst ho
        rw [Function.update_self, hgeneration]
        exact (not_not.mp fun hg => hne ⟨rfl, hg⟩).symm
      · rw [Function.update_of_ne ho]
        exact hgeneration
  | dies o => exact h.same rfl le_rfl rfl rfl
  | tick t => exact h.same rfl hordinary rfl rfl

end World.Fresh

namespace Host

variable {H : Host T} {w : World T}

theorem verdict_honest (hinv : w.Inv H) (hfresh : w.Fresh H) {consumer producer : Obj} {r : Receipt T}
    (h : Honest w consumer producer r) (hcurrent : H.Current w r.enrollment.code) :
    H.verdict w (some consumer) (some (r.form H)) = some true := by
  obtain ⟨p, c, hnewest, hactive, hlive⟩ := h.newest
  obtain ⟨hsigned, rfl, hprobe, hgeneration⟩ := hfresh.newest hnewest
  obtain ⟨henrolled, hregistered, hcanonical, hobservation, hearly, hlate⟩ := hinv.signed r hsigned
  obtain ⟨hcprobe, hcreg, -⟩ := hinv.active hactive
  obtain rfl : r.challenge = c := hinv.eq_of_probeId hregistered hcreg (hprobe.trans hcprobe.symm)
  have hcode : ((r.form H).get .responderCode).textOr H.toNumbers = some r.enrollment.code :=
    Val.textOr_str _ _
  have hid : ((r.form H).get .probeId).textOr H.toNumbers = some p := by
    rw [← hprobe]
    exact Val.textOr_str _ _
  have hcaller : ¬(w.broker.consumer = none ∨ w.broker.consumer.bind w.scene.deref ≠ some consumer) := by
    rw [h.enrolled]
    simp [Scene.deref, h.enrolled_alive]
  have hbyCode : (expire w.scene.clock w.broker).byCode.get? r.enrollment.code = some r.enrollment :=
    hcurrent _ _ henrolled rfl rfl h.registered
  have hstands : (expire w.scene.clock w.broker).active.get? p = some r.challenge :=
    get?_expire_active.mpr ⟨hactive, hlive⟩
  have hmatches : registryMatches w.scene r.enrollment = true := by
    simp [registryMatches, h.alive, h.registered]
  rw [verdict, verifyAndConsume, hcode, hid]
  dsimp only
  rw [if_neg hcaller, hbyCode, hstands]
  dsimp only
  rw [hmatches, ← hgeneration,
    checked_form hcanonical hobservation hearly hlate (hfresh.ahead r hsigned)]
  rfl

end Host

/-- CORRECT: in every run a challenge is accepted once and a refused call leaves every challenge that is
    not expired; a plain receipt does not make the call raise, and what is accepted of a candid one is
    genuine. If the steps of the run meet the condition, every honest answer is accepted while the
    registered producer of its code is the one that was enrolled last. -/
theorem receipts_honoured (H : Host T) (scene : Scene T) {events : List (Event T)} {w : World T}
    (hrun : Run (Guarded H.Ordinary fun w a w' => H.after w a = w') (World.start scene) events w) :
    H.Safe H.Plain Host.Candid w ∧
      (Run (Guarded (fun w a => H.Ordinary w a ∧ H.Sound w a) fun w a w' => H.after w a = w')
          (World.start scene) events w →
        H.Accepts (fun r => H.Current w r.enrollment.code) w) := by
  have hinv : w.Inv H := hrun.invariant (fun _ a _ h hs => hs.2 ▸ h.after a hs.1) (World.Inv.start scene)
  refine ⟨⟨hinv.accepted, fun consumer receipt => Host.kept_refused, fun consumer receipt hordinary h => ?_,
    fun consumer f hordinary hcandid htrue => ?_⟩, fun hsound => ?_⟩
  · cases receipt with
    | none => exact Option.some_ne_none _
    | some f => exact Host.verdict_ne_none hinv consumer hordinary (h f rfl)
  · rw [Host.verdict] at htrue
    rcases Host.verifyAndConsume_cases (H := H) (b := w.broker) w.scene consumer (some f) with
      ⟨hrefused, -⟩ | ⟨f', code, probe, e, c, hf, hpassed, -⟩
    · exact absurd htrue hrefused
    · obtain rfl := Option.some.inj hf
      exact Host.genuine_of_passed hinv hordinary hcandid hpassed
  · have hboth : w.Inv H ∧ w.Fresh H := by
      refine hsound.invariant (I := fun w => w.Inv H ∧ w.Fresh H) ?_ ⟨World.Inv.start scene, ?_⟩
      · rintro w a w' ⟨hinv, hfresh⟩ ⟨⟨hordinary, hsound⟩, rfl⟩
        exact ⟨hinv.after a hordinary, hfresh.after hinv a hordinary hsound⟩
      · exact ⟨fun r hr => absurd hr List.not_mem_nil, fun hr => by cases hr⟩
    exact fun consumer producer r hhonest => Host.verdict_honest hinv hboth.2 hhonest

/-! ### Receipts of an earlier generation, and values that make the call raise -/

def hexDigit (d : ℕ) : ℕ := if d < 10 then 48 + d else 87 + d

/-- The 64 hexadecimal digits of a number. -/
def hexDigits (n : ℕ) : Str := (List.range 64).map fun i => hexDigit (n / 16 ^ i % 16)

theorem isHex64_hexDigits (n : ℕ) : isHex64 (hexDigits n) = true := by
  rw [isHex64, Bool.and_eq_true, decide_eq_true_eq, List.all_eq_true]
  refine ⟨by simp [hexDigits], fun c hc => ?_⟩
  obtain ⟨i, -, rfl⟩ := List.mem_map.mp hc
  have hlt : n / 16 ^ i % 16 < 16 := Nat.mod_lt _ (by decide)
  generalize n / 16 ^ i % 16 = d at hlt ⊢
  have hdigit : (48 ≤ hexDigit d ∧ hexDigit d ≤ 57) ∨ 97 ≤ hexDigit d ∧ hexDigit d ≤ 102 := by
    rw [hexDigit]
    split <;> omega
  simpa using hdigit

/-- A number for a text. -/
def textCode (s : Str) : ℕ := s.foldl (fun n c => n * 1114112 + c + 1) 0

def jsonCode : Json ℤ → ℕ
  | .null => 0
  | .bool b => 1 + 6 * b.toNat
  | .int n => 2 + 6 * Encodable.encode n
  | .float t => 3 + 6 * Encodable.encode t
  | .str s => 4 + 6 * textCode s
  | .tree text => 5 + 6 * textCode text

/-- A consumer and a file integrity monitor, on a clock that shows whole seconds. -/
def smallHost : Host ℤ where
  ofInt n := some n
  parse _ := none
  isWhole _ := false
  floatText t := intText (t.getD 0) ++ lit ".0"
  floatIsInt t n := t = n
  early t := t - 1
  late t := t + 2
  past t := t - 2
  late_mono _ _ h := Int.add_le_add_right h 2
  le_late t := by omega
  ident o := o
  code o := if o = 0 then lit "CHAOS" else lit "FIM"
  name o := if o = 0 then lit "CHAOS" else lit "File Integrity Monitor"
  epoch n := List.replicate (n + 1) 97
  epoch_injective m n h := by simpa using congrArg List.length h
  mac source core :=
    hexDigits (CoreField.all.foldl (fun n k => n * 1000003 + jsonCode (core k)) (textCode source))
  mac_hex _ _ := isHex64_hexDigits _

def smallScene : Scene ℤ := ⟨100, fun _ => none, fun _ => 0, fun _ => true⟩

def oneChallenge : Challenge ℤ :=
  ⟨List.replicate 32 97, lit "fim", List.replicate 64 98, List.replicate 64 99, lit "C:/x", 100, 160⟩

/-- The monitor is asked for what it observes. -/
def issueOnce : Event ℤ :=
  .issue 1 oneChallenge.probeId (lit "file_content_observed") oneChallenge.targetDigest none

def afterAll (events : List (Event ℤ)) : World ℤ := events.foldl smallHost.after (World.start smallScene)

/-- The events until the monitor has its first receipt. -/
def answeredEvents : List (Event ℤ) :=
  [.enrollConsumer 0,
    .enrollProducer 1 (lit "FIM") (lit "File Integrity Monitor") (lit "angerona.builtin.file_integrity"),
    .setRegistry (lit "File Integrity Monitor") (some 1), .registerChallenge (some 0) oneChallenge,
    issueOnce]

/-- The monitor restarts and asks again. -/
def restartedEvents : List (Event ℤ) := answeredEvents ++ [.setGeneration 1 1, issueOnce]

/-- The run until the first receipt: nothing is registered before the challenge, and nothing issued. -/
theorem run_answered (guard : World ℤ → Event ℤ → Prop)
    (hguard : ∀ w, ∀ a ∈ answeredEvents,
      (a = .registerChallenge (some 0) oneChallenge → w.registered = []) →
        w.broker.issued = Dict.empty → guard w a) :
    Run (Guarded guard fun w a w' => smallHost.after w a = w') (World.start smallScene) answeredEvents
      (afterAll answeredEvents) := by
  have hstep : ∀ n (hn : n < 5), guard (afterAll (answeredEvents.take n)) (answeredEvents.get ⟨n, hn⟩) := by
    intro n hn
    refine hguard _ _ (List.get_mem _ _) ?_ ?_
    · intro hregister
      have hfour : n < 4 := by
        rcases Nat.lt_succ_iff_lt_or_eq.mp hn with h | rfl
        · exact h
        · cases hregister
      interval_cases n <;> rfl
    · interval_cases n <;> rfl
  exact ((((Run.nil.snoc ⟨hstep 0 (by decide), rfl⟩).snoc ⟨hstep 1 (by decide), rfl⟩).snoc
    ⟨hstep 2 (by decide), rfl⟩).snoc ⟨hstep 3 (by decide), rfl⟩).snoc ⟨hstep 4 (by decide), rfl⟩

theorem run_restarted : Run (Guarded smallHost.Ordinary fun w a w' => smallHost.after w a = w')
    (World.start smallScene) restartedEvents (afterAll restartedEvents) := by
  have hanswered := run_answered smallHost.Ordinary fun w a ha hregistered _ => by
    simp only [answeredEvents, List.mem_cons, List.not_mem_nil, or_false] at ha
    rcases ha with rfl | rfl | rfl | rfl | rfl
    · trivial
    · trivial
    · trivial
    · rw [Host.Ordinary, hregistered rfl]
      exact fun d hd => absurd hd List.not_mem_nil
    · trivial
  have hrestarted : Run (Guarded smallHost.Ordinary fun w a w' => smallHost.after w a = w')
      (World.start smallScene) (answeredEvents ++ [.setGeneration 1 1])
      (smallHost.after (afterAll answeredEvents) (.setGeneration 1 1)) :=
    hanswered.snoc ⟨trivial, rfl⟩
  exact hrestarted.snoc ⟨trivial, rfl⟩

/-- The receipt that the monitor gets at first, and again after its restart. -/
def firstReceipt : Receipt ℤ :=
  ⟨⟨1, lit "FIM", lit "File Integrity Monitor", lit "angerona.builtin.file_integrity",
      [(lit "fim", [lit "file_content_observed"])], [97]⟩,
    oneChallenge, lit "file_content_observed", 0, 100⟩

theorem newest_restarted : (afterAll restartedEvents).newest 1 oneChallenge.probeId = some firstReceipt := by
  decide +kernel

/-- A receipt as it was issued, but with a list for its observation and no authenticator. -/
def listForm : Form ℤ :=
  .plain (fun k => match k with
    | .observation => .container true false (some (lit "[]")) (some (lit "[]"))
    | k => firstReceipt.core k) .none

def otherChallenge : Challenge ℤ := { oneChallenge with probeId := List.replicate 32 98 }

/-- Another challenge is registered that the monitor has not answered. -/
def askedEvents : List (Event ℤ) := answeredEvents ++ [.registerChallenge (some 0) otherChallenge]

/-- A dictionary whose `get` gives the fields for the other challenge, and `[]` what was signed. -/
def crossForm : Form ℤ :=
  { firstReceipt.form smallHost with get := Receipt.core { firstReceipt with challenge := otherChallenge } }

/-- A receipt without an authenticator is not forged. -/
theorem unforged_of_none {H : Host ℤ} {w : World ℤ} {f : Form ℤ} (hmac : f.producerMac = .none) :
    H.Unforged w f := by
  intro i e core canon _ _ _ htext
  rw [hmac] at htext
  have hhex := H.mac_hex e.sourceEpoch canon
  rw [← Option.some.inj htext] at hhex
  exact absurd hhex (by decide)

/-- The monitor is the only producer of the run. -/
theorem enrollment_of_mem {events : List (Event ℤ)}
    (hitems : (afterAll events).broker.producers.items = [(1, firstReceipt.enrollment)]) {i : ℕ}
    {e : Enrollment} (he : (afterAll events).broker.producers.get? i = some e) :
    e = firstReceipt.enrollment := by
  have hmem := Dict.mem_items.mpr he
  rw [hitems, List.mem_singleton] at hmem
  exact (Prod.ext_iff.mp hmem).2

theorem unforged_crossForm : smallHost.Unforged (afterAll askedEvents) crossForm := by
  intro i e core canon he hcore hcanon _
  obtain rfl := enrollment_of_mem (by decide +kernel) he
  refine ⟨firstReceipt, by decide +kernel, rfl, ?_⟩
  rw [← hcanon, ← Option.some.inj hcore]

/-- After a restart the broker gives the receipt of the earlier generation again, and refuses it; it
    raises on a receipt whose observation is a list; and it takes the receipt of one challenge for the
    answer to another when the fields that are compared are not those that were signed. -/
theorem restart_refused :
    ¬(∀ (events : List (Event ℤ)) (w : World ℤ),
      Run (Guarded smallHost.Ordinary fun w a w' => smallHost.after w a = w')
        (World.start smallScene) events w →
          smallHost.Safe (fun _ => True) (fun _ => True) w ∧ smallHost.Accepts (fun _ => True) w) ∧
    smallHost.verdict (afterAll restartedEvents) (some 0) (some (firstReceipt.form smallHost)) =
      some false ∧
    smallHost.verdict (afterAll restartedEvents) (some 0) (some listForm) = none ∧
    smallHost.Ordinary (afterAll askedEvents) (.verify (some 0) (some crossForm)) ∧
    smallHost.verdict (afterAll askedEvents) (some 0) (some crossForm) = some true ∧
    smallHost.named (afterAll askedEvents).broker (some crossForm) = some otherChallenge ∧
    ¬∃ r, smallHost.Genuine (afterAll askedEvents) crossForm r := by
  have hrefused : smallHost.verdict (afterAll restartedEvents) (some 0)
      (some (firstReceipt.form smallHost)) = some false := by
    decide +kernel
  refine ⟨fun h => ?_, hrefused, by decide +kernel, unforged_crossForm, by decide +kernel,
    by decide +kernel, fun h => ?_⟩
  · have haccepted := (h _ _ run_restarted).2 0 1 firstReceipt
      ⟨⟨oneChallenge.probeId, oneChallenge, newest_restarted, by decide +kernel, by decide +kernel⟩,
        by decide +kernel, rfl, by decide +kernel, rfl⟩ trivial
    rw [hrefused] at haccepted
    cases haccepted
  · obtain ⟨r, hgenuine⟩ := h
    have hget : crossForm.get = r.core := congrArg Form.get hgenuine.values
    have hcore : firstReceipt.core = r.core := Option.some.inj (congrArg Form.core hgenuine.values)
    have hsame : crossForm.get .probeId = firstReceipt.core .probeId := by rw [hget, hcore]
    have htext : otherChallenge.probeId = oneChallenge.probeId := by
      injection hsame
    exact absurd htext (by decide)

/-- The monitor has its receipt, a list is presented for one, and a second passes. -/
def presentedEvents : List (Event ℤ) :=
  answeredEvents ++ [.verify (some 0) (some listForm), .tick 101]

theorem run_presented {guard : World ℤ → Event ℤ → Prop}
    (hrun : Run (Guarded guard fun w a w' => smallHost.after w a = w') (World.start smallScene)
      answeredEvents (afterAll answeredEvents))
    (hlist : guard (afterAll answeredEvents) (.verify (some 0) (some listForm)))
    (htick : guard (smallHost.after (afterAll answeredEvents) (.verify (some 0) (some listForm)))
      (.tick 101)) :
    Run (Guarded guard fun w a w' => smallHost.after w a = w') (World.start smallScene)
      presentedEvents (afterAll presentedEvents) :=
  (hrun.snoc ⟨hlist, rfl⟩).snoc ⟨htick, rfl⟩

/-- A run to which the theorem applies: the list makes the call raise, and the honest answer is accepted
    after it, but not again. -/
theorem receipts_honoured_first :
    smallHost.verdict (afterAll answeredEvents) (some 0) (some listForm) = none ∧
      smallHost.verdict (afterAll presentedEvents) (some 0) (some (firstReceipt.form smallHost)) =
        some true ∧
      smallHost.verdict (smallHost.after (afterAll presentedEvents)
        (.verify (some 0) (some (firstReceipt.form smallHost)))) (some 0)
          (some (firstReceipt.form smallHost)) = some false := by
  have hclock : (smallHost.after (afterAll answeredEvents)
      (.verify (some 0) (some listForm))).scene.clock ≤ 101 := by decide +kernel
  have hsound : Run (Guarded (fun w a => smallHost.Ordinary w a ∧ smallHost.Sound w a) fun w a w' =>
      smallHost.after w a = w') (World.start smallScene) presentedEvents (afterAll presentedEvents) := by
    refine run_presented (run_answered _ fun w a ha hregistered hissued => ?_) ⟨unforged_of_none rfl, trivial⟩
      ⟨hclock, trivial⟩
    simp only [answeredEvents, List.mem_cons, List.not_mem_nil, or_false] at ha
    rcases ha with rfl | rfl | rfl | rfl | rfl
    · exact ⟨trivial, trivial⟩
    · exact ⟨trivial, trivial⟩
    · exact ⟨trivial, trivial⟩
    · refine ⟨?_, trivial⟩
      rw [Host.Ordinary, hregistered rfl]
      exact fun d hd => absurd hd List.not_mem_nil
    · refine ⟨trivial, fun e c r _ _ hcached => ?_, fun t ht => by cases ht⟩
      rw [hissued] at hcached
      cases hcached
  have hordinary : Run (Guarded smallHost.Ordinary fun w a w' => smallHost.after w a = w')
      (World.start smallScene) presentedEvents (afterAll presentedEvents) :=
    hsound.mono fun _ _ _ hs => ⟨hs.1.1, hs.2⟩
  refine ⟨by decide +kernel, ?_, by decide +kernel⟩
  refine (receipts_honoured smallHost smallScene hordinary).2 hsound 0 1 firstReceipt
    ⟨⟨oneChallenge.probeId, oneChallenge, by decide +kernel, by decide +kernel, by decide +kernel⟩,
      by decide +kernel, rfl, by decide +kernel, rfl⟩ ?_
  intro o e he _ hfim _
  obtain rfl := enrollment_of_mem (by decide +kernel) he
  rw [← hfim]
  decide +kernel

end Angerona.Assurance
