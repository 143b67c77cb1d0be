import Angerona.Ransomware.Documents

/-!
    What a load of the content-state store finds, and what it makes of it.

    `Shape d now`: the files `d` are what a crash between two durable steps can leave, and `now` is
    what the next load makes of them. A load that is cut leaves files with the same `now`. -/

namespace Angerona.Ransomware
open Text PyJson Crash

variable {K : Type}

/-! ### Positions of the history -/

/-- A committed set of receipts. -/
structure Snapshot where
  sequence : ℤ
  scanEpoch : ℤ
  records : List Row
  deriving DecidableEq

/-- The empty state of a first enrollment. -/
def Snapshot.zero : Snapshot := ⟨0, 0, []⟩

section Documents

variable (A : Signer K) (k e : K)

def Snapshot.doc (s : Snapshot) : StateDoc :=
  .signed A k (.current s.sequence s.scanEpoch s.records)

def Snapshot.position (s : Snapshot) : Position := ⟨s.sequence, s.scanEpoch, (s.doc A k).hmac⟩

def Snapshot.witness (s : Snapshot) : Witness := .signed A e (s.position A k)

/-- What the store can hold: valid records, and documents within their bounds. -/
structure Snapshot.Stored (s : Snapshot) : Prop where
  nonneg : 0 ≤ s.sequence
  ahead : s.sequence ≤ s.scanEpoch
  recorded : Recorded s.records
  bytes : (s.doc A k).bytes ≤ maxStateBytes
  witnessed : (s.witness A k e).bytes ≤ maxWitnessBytes

/-- `t` is one commit after `s`. -/
def Snapshot.Follows (s t : Snapshot) : Prop :=
  t.sequence = s.sequence + 1 ∧ t.scanEpoch = s.scanEpoch + 1

def Snapshot.transition (s t : Snapshot) : TransitionDoc :=
  .signed A e (s.position A k) (t.position A k)

/-- The transition of a first enrollment. -/
def genesis : TransitionDoc := .signed A e .origin (Snapshot.zero.position A k)

end Documents

/-- A `v1` state. -/
structure Legacy where
  sequence : ℤ
  records : List Row

def Legacy.doc (A : Signer K) (k : K) (v : Legacy) : StateDoc :=
  .signed A k ⟨.legacy, v.sequence, none, v.records⟩

/-- What its migration makes of it. -/
def Legacy.snapshot (v : Legacy) : Snapshot :=
  ⟨v.sequence, v.sequence, ((v.records.map fun r => (r.key, r)).insertionSort textLe).map Prod.snd⟩

/-- A `v1` state that its writer has left. -/
structure Legacy.Stored (A : Signer K) (k : K) (v : Legacy) : Prop where
  nonneg : 0 ≤ v.sequence
  nodup : (v.records.map Row.key).Nodup
  valid : ∀ r ∈ v.records, r.valid = true
  count : v.records.length ≤ maxRecords
  bytes : (v.doc A k).bytes ≤ maxStateBytes

/-- The files that a crash can leave, and what the next load makes of them. -/
inductive Shape (A : Signer K) : Disk K → Snapshot → Prop where
  /-- Before the first transition: some of the keys, and the marker before them. -/
  | bare {k e : Option K} {marker : Option Str} (h : marker = none → k = none ∧ e = none) :
    Shape A ⟨k, none, e, none, none, marker⟩ .zero
  /-- The first enrollment, with its transition. -/
  | announced {k e : K} {marker : Option Str} :
    Shape A ⟨some k, none, some e, none, some (genesis A k e), marker⟩ .zero
  | enrolled {k e : K} {w : Option Position} {marker : Option Str}
      (hw : w = none ∨ w = some (Snapshot.zero.position A k)) :
    Shape A ⟨some k, some (Snapshot.zero.doc A k), some e, w.map (.signed A e),
      some (genesis A k e), marker⟩ .zero
  | settled {k e : K} {s : Snapshot} {marker : Option Str} (h : s.Stored A k e) :
    Shape A ⟨some k, some (s.doc A k), some e, some (s.witness A k e), none, marker⟩ s
  /-- A transition is written, and the state is still the old one. -/
  | pending {k e : K} {s t : Snapshot} {marker : Option Str} (hs : s.Stored A k e)
      (ht : t.Stored A k e) (hst : s.Follows t)
      (hbytes : (s.transition A k e t).bytes ≤ maxTransitionBytes) :
    Shape A ⟨some k, some (s.doc A k), some e, some (s.witness A k e),
      some (s.transition A k e t), marker⟩ s
  /-- The state is replaced, and the witness perhaps. -/
  | replaced {k e : K} {s t : Snapshot} {w : Position} {marker : Option Str}
      (hs : s.Stored A k e) (ht : t.Stored A k e) (hst : s.Follows t)
      (hbytes : (s.transition A k e t).bytes ≤ maxTransitionBytes)
      (hw : w = s.position A k ∨ w = t.position A k) :
    Shape A ⟨some k, some (t.doc A k), some e, some (.signed A e w), some (s.transition A k e t),
      marker⟩ t
  | legacy {k : K} {v : Legacy} (h : v.Stored A k) :
    Shape A ⟨some k, some (v.doc A k), none, none, none, none⟩ v.snapshot

/-- A position whose witness can be read. -/
structure Position.Sound (A : Signer K) (e : K) (p : Position) : Prop where
  nonneg : 0 ≤ p.sequence
  ahead : p.sequence ≤ p.scanEpoch
  head : isHexDigest p.head = true
  bytes : (Witness.signed A e p).bytes ≤ maxWitnessBytes

theorem Snapshot.Stored.sound {A : Signer K} {k e : K} {s : Snapshot} (h : s.Stored A k e) :
    (s.position A k).Sound A e :=
  ⟨h.nonneg, h.ahead, (A.stateMac k _).2, h.witnessed⟩

/-! ### The steps of the programs -/

/-- The memory without its cached keys. -/
def Memory.bare (m : Memory K) : Memory K :=
  { m with changeKeyCache := none, enrollmentKeyCache := none }

/-- The files are `d`, the memory is `m` but for cached keys, and those are the keys of the files;
    `l` is what is left before the crash. -/
structure At (d : Disk K) (m : Memory K) (l : Option ℕ) (s : Machine (Disk K) (Memory K)) : Prop where
  disk : s.disk = d
  left : s.left = l
  memory : s.memory.bare = m
  changeKey : ∀ k, s.memory.changeKeyCache = some k → d.changeKey = some k
  enrollmentKey : ∀ k, s.memory.enrollmentKeyCache = some k → d.enrollmentKey = some k

section Steps

variable {A : Signer K} {h : Host K} {I : Disk K → Prop} {d : Disk K} {m : Memory K}
  {l : Option ℕ} {s : Machine (Disk K) (Memory K)} {k e : K}

/-- A durable step that spares the keys. -/
theorem At.write (hs : At d m l s) (f : Disk K → Disk K) (hk : (f d).changeKey = d.changeKey)
    (he : (f d).enrollmentKey = d.enrollmentKey) : At (f d) m (l.map (· - 1)) (s.write f) :=
  ⟨congrArg f hs.disk, congrArg (Option.map (· - 1)) hs.left, hs.memory, fun k h => hk.trans (hs.changeKey k h),
    fun k h => he.trans (hs.enrollmentKey k h)⟩

/-- A change of the memory that has nothing to do with the cached keys. -/
theorem At.remember (hs : At d m l s) (g : Memory K → Memory K) (hbare : (g s.memory).bare = g s.memory.bare)
    (hchange : (g s.memory).changeKeyCache = s.memory.changeKeyCache)
    (henroll : (g s.memory).enrollmentKeyCache = s.memory.enrollmentKeyCache) :
    At d (g m) l { s with memory := g s.memory } :=
  ⟨hs.disk, hs.left, hbare.trans (congrArg g hs.memory), fun k hk => hs.changeKey k (hchange.symm.trans hk),
    fun k hk => hs.enrollmentKey k (henroll.symm.trans hk)⟩

theorem survives_write {f : Disk K → Disk K} {Q : Unit → Machine (Disk K) (Memory K) → Prop}
    (hs : At d m l s) (hI : l = some 0 → I d) (hk : (f d).changeKey = d.changeKey)
    (he : (f d).enrollmentKey = d.enrollmentKey)
    (hQ : ∀ t, At (f d) m (l.map (· - 1)) t → Q () t) :
    Survives I (durable f : Store K Unit) Q s :=
  survives_durable (fun hl => hs.disk ▸ hI (hs.left.symm.trans hl)) fun _ => hQ _ (hs.write f hk he)

/-- A key is cached, read from its file, or created. -/
theorem survives_cachedKey {cache : Memory K → Option K} {store : K → Memory K → Memory K}
    {file : Disk K → Option K} {create : K → Disk K → Disk K} {fresh : K}
    {Q : K → Machine (Disk K) (Memory K) → Prop} (hcached : ∀ k, cache s.memory = some k → Q k s)
    (hread : ∀ k, file s.disk = some k → Q k { s with memory := store k s.memory })
    (hcreate : file s.disk = none →
      (s.left = some 0 → I s.disk) ∧ (s.left ≠ some 0 →
        Q fresh { s.write (create fresh) with memory := store fresh s.memory })) :
    Survives I (cachedKey cache store file create fresh) Q s := by
  refine survives_memory ?_
  cases hc : cache s.memory with
  | some k => exact survives_pure (hcached k hc)
  | none =>
    refine survives_disk ?_
    cases hf : file s.disk with
    | some k =>
      exact (survives_remember (Q := fun _ => Survives I (pure k) Q) (survives_pure (hread k hf))).bind
    | none =>
      obtain ⟨hI, hQ⟩ := hcreate hf
      refine (survives_durable hI fun hl => ?_).bind
      exact (survives_remember (Q := fun _ => Survives I (pure fresh) Q)
        (survives_pure (hQ hl))).bind

theorem survives_changeKey {Q : K → Machine (Disk K) (Memory K) → Prop} (hs : At d m l s)
    (hI : d.changeKey = none → l = some 0 → I d)
    (hQ : ∀ k l' t,
      d.changeKey = none ∧ l ≠ some 0 ∧ l' = l.map (· - 1) ∨ d.changeKey = some k ∧ l' = l → At { d with changeKey := some k } m l' t → Q k t) : Survives I (changeKey h) Q s := by
  obtain ⟨rfl, rfl, rfl, hchange, henroll⟩ := hs
  have hsame : ∀ k, s.disk.changeKey = some k → { s.disk with changeKey := some k } = s.disk :=
    fun k hk => by rw [← hk]
  refine survives_cachedKey (fun k hk => ?_) (fun k hk => ?_) fun hf => ⟨hI hf, fun hl => ?_⟩
  · exact hQ k _ s (.inr ⟨hchange k hk, rfl⟩) ⟨(hsame k (hchange k hk)).symm, rfl, rfl,
      fun _ => hk.symm.trans, henroll⟩
  · exact hQ k _ _ (.inr ⟨hk, rfl⟩) ⟨(hsame k hk).symm, rfl, rfl, fun _ => id, henroll⟩
  · exact hQ _ _ _ (.inl ⟨hf, hl, rfl⟩) ⟨rfl, rfl, rfl, fun _ => id, henroll⟩

theorem survives_enrollmentKey {Q : K → Machine (Disk K) (Memory K) → Prop} (hs : At d m l s)
    (hI : d.enrollmentKey = none → l = some 0 → I d)
    (hQ : ∀ e l' t,
      (d.enrollmentKey = none ∧ e = h.enrollmentKey) ∧ l ≠ some 0 ∧ l' = l.map (· - 1) ∨
      d.enrollmentKey = some e ∧ l' = l →
        At { d with enrollmentKey := some e } m l' t → Q e t) :
    Survives I (enrollmentKey h) Q s := by
  obtain ⟨rfl, rfl, rfl, hchange, henroll⟩ := hs
  have hsame : ∀ e, s.disk.enrollmentKey = some e →
      { s.disk with enrollmentKey := some e } = s.disk := fun e he => by rw [← he]
  refine survives_cachedKey (fun e he => ?_) (fun e he => ?_) fun hf => ⟨hI hf, fun hl => ?_⟩
  · exact hQ e _ s (.inr ⟨henroll e he, rfl⟩) ⟨(hsame e (henroll e he)).symm, rfl, rfl, hchange,
      fun _ => he.symm.trans⟩
  · exact hQ e _ _ (.inr ⟨he, rfl⟩) ⟨(hsame e he).symm, rfl, rfl, hchange, fun _ => id⟩
  · exact hQ _ _ _ (.inl ⟨⟨hf, rfl⟩, hl, rfl⟩) ⟨rfl, rfl, rfl, hchange, fun _ => id⟩

/-- The keys of files that are there. -/
theorem survives_changeKey_read {Q : K → Machine (Disk K) (Memory K) → Prop} (hs : At d m l s)
    (hk : d.changeKey = some k) (hQ : ∀ t, At d m l t → Q k t) : Survives I (changeKey h) Q s := by
  refine survives_changeKey hs (fun hn => ?_) fun k' l' t hk' ht => ?_
  · rw [hk] at hn
    cases hn
  · obtain ⟨rfl, rfl⟩ : k = k' ∧ l' = l := by simpa [hk] using hk'
    rw [← hk] at ht
    exact hQ t ht

theorem survives_enrollmentKey_read {Q : K → Machine (Disk K) (Memory K) → Prop} (hs : At d m l s)
    (he : d.enrollmentKey = some e) (hQ : ∀ t, At d m l t → Q e t) :
    Survives I (enrollmentKey h) Q s := by
  refine survives_enrollmentKey hs (fun hn => ?_) fun e' l' t he' ht => ?_
  · rw [he] at hn
    cases hn
  · obtain ⟨rfl, rfl⟩ : e = e' ∧ l' = l := by simpa [he] using he'
    rw [← he] at ht
    exact hQ t ht

theorem survives_stateDocument {sequence scanEpoch : ℤ} {records : Receipts}
    {Q : StateDoc → Machine (Disk K) (Memory K) → Prop} (hs : At d m l s) (hk : d.changeKey = some k)
    (hsize : records.size ≤ maxRecords)
    (hbytes : (StateDoc.signed A k (.current sequence scanEpoch (ordered records))).bytes ≤
      maxStateBytes)
    (hQ : ∀ t, At d m l t → Q (.signed A k (.current sequence scanEpoch (ordered records))) t) :
    Survives I (stateDocument A h sequence scanEpoch records) Q s := by
  refine survives_require hsize ?_
  refine (survives_changeKey_read hs hk fun t ht => ?_).bind
  exact survives_require hbytes (survives_pure (hQ t ht))

theorem survives_writeState {sequence scanEpoch : ℤ} {records : Receipts} {doc : StateDoc}
    {Q : Str → Machine (Disk K) (Memory K) → Prop} (hs : At d m l s) (hI : l = some 0 → I d)
    (hk : d.changeKey = some k) (hsize : records.size ≤ maxRecords)
    (hdoc : StateDoc.signed A k (.current sequence scanEpoch (ordered records)) = doc)
    (hbytes : doc.bytes ≤ maxStateBytes)
    (hQ : ∀ t, At { d with state := some doc } m (l.map (· - 1)) t → Q doc.hmac t) :
    Survives I (writeState A h sequence scanEpoch records) Q s := by
  subst hdoc
  refine (survives_stateDocument hs hk hsize hbytes fun t ht => ?_).bind
  refine (survives_write ht hI rfl rfl fun u hu => ?_).bind
  exact survives_pure (hQ u hu)

theorem survives_writeWitness {p : Position} {Q : Unit → Machine (Disk K) (Memory K) → Prop}
    (hs : At d m l s) (hI : l = some 0 → I d) (he : d.enrollmentKey = some e)
    (hQ : ∀ t, At { d with witness := some (.signed A e p) } m (l.map (· - 1)) t → Q () t) :
    Survives I (writeWitness A h p) Q s := by
  refine (survives_enrollmentKey_read hs he fun t ht => ?_).bind
  exact survives_write ht hI rfl rfl hQ

theorem survives_readWitness {p : Position} {Q : Position → Machine (Disk K) (Memory K) → Prop}
    (hs : At d m l s) (he : d.enrollmentKey = some e) (hw : d.witness = some (.signed A e p))
    (hp : p.Sound A e) (hQ : ∀ t, At d m l t → Q p t) : Survives I (readWitness A h) Q s := by
  refine survives_disk (survives_obtain (hs.disk ▸ hw) ?_)
  refine survives_require ⟨Witness.bytes_pos _, hp.bytes⟩ ?_
  refine (survives_enrollmentKey_read hs he fun t ht => ?_).bind
  exact survives_require ⟨hp.nonneg, hp.ahead, hp.head, rfl⟩ (survives_pure (hQ t ht))

theorem survives_readTransition {old new : Position}
    {Q : Option TransitionCore → Machine (Disk K) (Memory K) → Prop} (hs : At d m l s)
    (he : d.enrollmentKey = some e) (ht : d.transition = some (.signed A e old new))
    (hform : (TransitionDoc.signed A e old new).wellFormed = true)
    (hbytes : (TransitionDoc.signed A e old new).bytes ≤ maxTransitionBytes)
    (hQ : ∀ t, At d m l t → Q (some (TransitionDoc.signed A e old new).toTransitionCore) t) :
    Survives I (readTransition A h) Q s := by
  refine survives_disk ?_
  rw [hs.disk, ht]
  refine survives_require ⟨TransitionDoc.bytes_pos _, hbytes⟩ ?_
  refine (survives_enrollmentKey_read hs he fun t ht => ?_).bind
  exact survives_require ⟨rfl, hform, rfl⟩ (survives_pure (hQ t ht))

theorem survives_readTransition_none {Q : Option TransitionCore → Machine (Disk K) (Memory K) → Prop}
    (hs : At d m l s) (ht : d.transition = none) (hQ : Q none s) :
    Survives I (readTransition A h) Q s := by
  refine survives_disk ?_
  rw [hs.disk, ht]
  exact survives_pure hQ

theorem survives_removeTransition {Q : Unit → Machine (Disk K) (Memory K) → Prop} (hs : At d m l s)
    (hI : l = some 0 → I d) (ht : d.transition.isSome = true)
    (hQ : ∀ t, At { d with transition := none } m (l.map (· - 1)) t → Q () t) :
    Survives I (removeTransition : Store K Unit) Q s := by
  refine survives_disk (survives_require (hs.disk ▸ ht) ?_)
  exact survives_write hs hI rfl rfl hQ

/-- A state that is signed with the key of the files is read as it was written. -/
theorem survives_readState {doc : StateDoc} {core : StateCore} {records : Receipts}
    {Q : Loaded → Machine (Disk K) (Memory K) → Prop} (hs : At d m l s) (hk : d.changeKey = some k)
    (hstate : d.state = some doc) (hdoc : doc = .signed A k core)
    (hbytes : doc.bytes ≤ maxStateBytes) (hcount : core.records.length ≤ maxRecords)
    (hnonneg : 0 ≤ core.sequence) (hahead : core.sequence ≤ core.scanEpoch.getD core.sequence)
    (hschema : core.scanEpoch.isSome = decide (core.schema = .current))
    (hrecords : receiptsOf core.records = .ok records)
    (hQ : ∀ t, At d m l t → Q ⟨core.schema,
      ⟨core.sequence, core.scanEpoch.getD core.sequence, doc.hmac⟩, records⟩ t) :
    Survives I (readState A h) Q s := by
  subst hdoc
  have hepoch : (if core.schema = .current then some (core.scanEpoch.getD core.sequence) else none) =
      core.scanEpoch := by
    obtain ⟨schema, sequence, _ | epoch, rows⟩ := core
    · rw [if_neg (of_decide_eq_false hschema.symm)]
    · rw [if_pos (of_decide_eq_true hschema.symm)]
      rfl
  refine survives_disk (survives_require ?_ (survives_obtain (hs.disk ▸ hstate) ?_))
  · rw [hs.disk, hk, hstate]
    exact ⟨rfl, rfl⟩
  refine survives_require ⟨StateDoc.bytes_pos _, hbytes⟩ ?_
  refine survives_require ⟨hcount, hnonneg, hahead⟩ (survives_compute hrecords ?_)
  refine (survives_changeKey_read hs hk fun t ht => ?_).bind
  refine survives_require ⟨hepoch, ?_⟩ (survives_pure (hQ t ht))
  change (A.stateMac k ⟨core.schema, core.sequence, if core.schema = .current then
    some (core.scanEpoch.getD core.sequence) else none, core.records⟩).val = (A.stateMac k core).val
  rw [hepoch]

/-! ### Pending transitions -/

theorem survives_readWitness? {w : Option Position}
    {Q : Option Position → Machine (Disk K) (Memory K) → Prop} (hs : At d m l s)
    (he : d.enrollmentKey = some e) (hw : d.witness = w.map (.signed A e))
    (hp : ∀ p ∈ w, p.Sound A e) (hQ : ∀ t, At d m l t → Q w t) :
    Survives I (readWitness? A h) Q s := by
  refine survives_disk ?_
  rw [hs.disk, hw]
  cases w with
  | none => exact survives_pure (hQ s hs)
  | some p => exact Survives.map (survives_readWitness hs he hw (hp p rfl) hQ)

/-- The state is the one that the transition announces: the witness is written, if it is not there,
    and the transition removed. -/
theorem survives_resume_new {old p : Position} {state : Option StateDoc} {w : Option Position}
    {marker : Option Str} {tr : TransitionDoc} {Q : Unit → Machine (Disk K) (Memory K) → Prop}
    (hs : At ⟨some k, state, some e, w.map (.signed A e), some tr, marker⟩ m l s)
    (htr : tr.toTransitionCore = ⟨(A.installId e).val, old, p⟩) (hp : p.Sound A e)
    (hw : w = none ∨ w = some p ∨ w = some old ∧ old.Sound A e)
    (hI : I ⟨some k, state, some e, w.map (.signed A e), some tr, marker⟩)
    (hI' : I ⟨some k, state, some e, some (.signed A e p), some tr, marker⟩)
    (hQ : ∀ l t, At ⟨some k, state, some e, some (.signed A e p), none, marker⟩ m l t → Q () t) :
    Survives I (resume A h tr.toTransitionCore p) Q s := by
  rw [htr]
  have hsound : ∀ q ∈ w, q.Sound A e := by
    intro q hq
    rcases hw with rfl | rfl | ⟨rfl, hold⟩
    · cases hq
    · exact Option.some.inj hq ▸ hp
    · exact Option.some.inj hq ▸ hold
  have hmatch : w = none ∨ w = some p ∨ 0 ≤ old.sequence ∧ w = some old :=
    hw.imp_right fun hw => hw.imp_right fun hw => ⟨hw.2.nonneg, hw.1⟩
  refine survives_require (.inl rfl) ?_
  refine (survives_readWitness? hs rfl rfl hsound fun t ht => ?_).bind
  have hremove : ∀ l u, At ⟨some k, state, some e, some (.signed A e p), some tr, marker⟩ m l u →
      Survives I (removeTransition : Store K Unit) Q u := fun _ u hu =>
    survives_removeTransition hu (fun _ => hI') rfl (hQ _)
  rw [if_pos rfl]
  refine Survives.bind (survives_require hmatch ?_)
  by_cases hwp : w = some p
  · subst hwp
    rw [if_pos rfl]
    exact survives_pure (hremove _ t ht)
  · rw [if_neg hwp]
    exact survives_writeWitness ht (fun _ => hI) rfl (hremove _)

/-- The state is the one before the transition, which is removed. -/
theorem survives_resume_old {p new : Position} {state : Option StateDoc} {marker : Option Str}
    {tr : TransitionDoc} {Q : Unit → Machine (Disk K) (Memory K) → Prop}
    (hs : At ⟨some k, state, some e, some (.signed A e p), some tr, marker⟩ m l s)
    (htr : tr.toTransitionCore = ⟨(A.installId e).val, p, new⟩) (hp : p.Sound A e) (hne : p ≠ new)
    (hI : I ⟨some k, state, some e, some (.signed A e p), some tr, marker⟩)
    (hQ : ∀ l t, At ⟨some k, state, some e, some (.signed A e p), none, marker⟩ m l t → Q () t) :
    Survives I (resume A h tr.toTransitionCore p) Q s := by
  rw [htr]
  have hsound : ∀ q ∈ some p, q.Sound A e := fun q hq => Option.some.inj hq ▸ hp
  refine survives_require (.inr ⟨hp.nonneg, rfl⟩) ?_
  refine (survives_readWitness? hs rfl rfl hsound fun t ht => ?_).bind
  rw [if_neg hne]
  exact Survives.bind (survives_required rfl
    (survives_removeTransition ht (fun _ => hI) rfl (hQ _)))

/-! ### The first enrollment -/

theorem genesis_wellFormed (A : Signer K) (k e : K) : (genesis A k e).wellFormed = true := by
  have hhead : isHexDigest (Snapshot.zero.doc A k).hmac = true := (A.stateMac k _).2
  simp [TransitionCore.wellFormed, genesis, TransitionDoc.signed, Position.origin,
    Snapshot.position, Snapshot.zero, isHexDigest_zeroHead] at hhead ⊢
  exact hhead

theorem genesis_isGenesis (A : Signer K) (k e : K) : (genesis A k e).isGenesis = true := by
  simp [TransitionCore.isGenesis, genesis, TransitionDoc.signed, Snapshot.position, Snapshot.zero]

theorem transition_wellFormed {a b : Snapshot} (ha : a.Stored A k e)
    (hab : a.Follows b) : (a.transition A k e b).wellFormed = true := by
  have hheads : isHexDigest (a.doc A k).hmac = true ∧ isHexDigest (b.doc A k).hmac = true :=
    ⟨(A.stateMac k _).2, (A.stateMac k _).2⟩
  have hnonneg := ha.nonneg
  have hahead := ha.ahead
  obtain ⟨hsequence, hepoch⟩ := hab
  simp only [TransitionCore.wellFormed, Snapshot.transition, TransitionDoc.signed,
    Snapshot.position, hheads, hsequence, hepoch]
  simp
  omega

theorem genesis_bytes (A : Signer K) (k e : K) : (genesis A k e).bytes ≤ maxTransitionBytes :=
  genesis_bytes_le A e (A.stateMac k _).2

theorem zero_stored (A : Signer K) (k e : K) : Snapshot.zero.Stored A k e :=
  ⟨le_rfl, le_rfl, ⟨List.Pairwise.nil, fun _ h => absurd h List.not_mem_nil, Nat.zero_le _⟩,
    empty_bytes_le A k, (witness_bytes_le A e .origin _).trans (genesis_bytes A k e)⟩

/-- The document of the empty state, when it is first made. -/
theorem survives_emptyDocument {Q : StateDoc → Machine (Disk K) (Memory K) → Prop} (hs : At d m l s)
    (hk : d.changeKey = some k) (hQ : ∀ t, At d m l t → Q (Snapshot.zero.doc A k) t) :
    Survives I (stateDocument A h 0 0 .empty) Q s :=
  have hsize : (Dict.empty : Receipts).size ≤ maxRecords := Nat.zero_le maxRecords
  have hordered : ordered .empty = [] := rfl
  survives_stateDocument hs hk hsize (hordered ▸ empty_bytes_le A k) (hordered ▸ hQ)

/-- The first enrollment, from whatever keys there are. -/
theorem survives_enroll {c e : Option K} {marker : Option Str}
    {Q : Option TransitionCore → Machine (Disk K) (Memory K) → Prop}
    (hs : At ⟨c, none, e, none, none, marker⟩ m l s)
    (hI : ∀ c e, I ⟨c, none, e, none, none, marker⟩)
    (hQ : ∀ k e l t, At ⟨some k, none, some e, none, some (genesis A k e), marker⟩ m l t →
      Q (some (genesis A k e).toTransitionCore) t) : Survives I (enroll A h) Q s := by
  refine (survives_changeKey hs (fun _ _ => hI _ _) fun k l s _ hs => ?_).bind
  refine (survives_enrollmentKey hs (fun _ _ => hI _ _) fun e l s _ hs => ?_).bind
  refine (survives_emptyDocument hs rfl fun s hs => ?_).bind
  refine Survives.bind ?_
  refine survives_disk (survives_require (hs.disk ▸ rfl) ?_)
  refine Survives.bind (survives_disk ?_)
  rw [if_neg (by decide)]
  refine survives_required (hs.disk ▸ ⟨rfl, rfl⟩) ?_
  refine (survives_enrollmentKey_read hs rfl fun s hs => ?_).bind
  refine survives_require (genesis_wellFormed A k e) ?_
  refine survives_require (genesis_bytes A k e) ?_
  refine survives_write hs (fun _ => hI _ _) rfl rfl fun s hs => ?_
  exact survives_readTransition hs rfl rfl (genesis_wellFormed A k e) (genesis_bytes A k e)
    fun t ht => hQ k e _ t ht

/-- The empty state is written where its transition is pending. -/
theorem survives_commitGenesis {marker : Option Str} {Q : Unit → Machine (Disk K) (Memory K) → Prop}
    (hs : At ⟨some k, none, some e, none, some (genesis A k e), marker⟩ m l s)
    (hI : I ⟨some k, none, some e, none, some (genesis A k e), marker⟩)
    (hQ : ∀ l t, At
      ⟨some k, some (Snapshot.zero.doc A k), some e, none, some (genesis A k e), marker⟩ m l t → Q () t) :
    Survives I (commitGenesis A h (some (genesis A k e).toTransitionCore)) Q s := by
  refine survives_disk (survives_require (hs.disk ▸ rfl) ?_)
  refine (survives_emptyDocument hs rfl fun s hs => ?_).bind
  refine survives_require (beq_self_eq_true _) ?_
  have hsize : (Dict.empty : Receipts).size ≤ maxRecords := Nat.zero_le maxRecords
  refine (survives_writeState hs (fun _ => hI) rfl hsize rfl (empty_bytes_le A k)
    fun s hs => ?_).bind
  exact survives_required rfl (hQ _ s hs)

/-! ### The beginning of a load -/

/-- Where there is a state, nothing is enrolled. -/
theorem survives_prepare_state {pending : Option TransitionCore}
    {Q : Found → Machine (Disk K) (Memory K) → Prop} (hs : At d m l s)
    (hstate : d.state.isSome = true)
    (htr : d.transition.isNone = true ∨ d.enrollmentKey.isSome = true)
    (hread : ∀ {R : Option TransitionCore → Machine (Disk K) (Memory K) → Prop},
      (∀ t, At d m l t → R pending t) → Survives I (readTransition A h) R s)
    (hfresh : freshAuthority d.bundle d.witnessed (pending.any TransitionCore.isGenesis) false false =
      .ok false)
    (hQ : ∀ t, At d m l t → Q ⟨pending, d.genesis.isSome, d.witnessed⟩ t) :
    Survives I (prepare A h) Q s := by
  have hbundle : d.bundle.2 = true := hstate
  refine survives_disk ?_
  rw [hs.disk]
  refine survives_require htr ?_
  refine (hread fun t ht => ?_).bind
  simp only [hbundle, Bool.or_true, Bool.not_true, Bool.false_and, Bool.and_false,
    Bool.false_eq_true, if_false]
  refine Survives.bind (survives_pure (survives_disk ?_))
  refine survives_compute hfresh ?_
  refine Survives.bind (survives_pure ?_)
  refine Survives.bind (survives_disk ?_)
  rw [ht.disk, Option.isNone_eq_false_iff.mpr hstate, Bool.and_false, if_neg Bool.false_ne_true]
  refine survives_pure (survives_disk ?_)
  rw [ht.disk]
  exact survives_pure (hQ t ht)

/-- A first enrollment that has got to its transition. -/
theorem survives_prepare_announced {marker : Option Str}
    {Q : Found → Machine (Disk K) (Memory K) → Prop}
    (hs : At ⟨some k, none, some e, none, some (genesis A k e), marker⟩ m l s)
    (hI : I ⟨some k, none, some e, none, some (genesis A k e), marker⟩)
    (hQ : ∀ l t, At
      ⟨some k, some (Snapshot.zero.doc A k), some e, none, some (genesis A k e), marker⟩ m l t →
        Q ⟨some (genesis A k e).toTransitionCore, marker.isSome, (true, false)⟩ t) :
    Survives I (prepare A h) Q s := by
  refine survives_disk ?_
  rw [hs.disk]
  refine survives_require (.inr rfl) ?_
  refine (survives_readTransition hs rfl rfl (genesis_wellFormed A k e) (genesis_bytes A k e)
    fun t ht => ?_).bind
  change Survives I (do
    (if false = true then ensureGenesisMarker h else pure ())
    let marked := (← disk).genesis.isSome
    let fresh ← compute (freshAuthority (true, false) (true, false)
      (genesis A k e).isGenesis (marked && false && true && true) false)
    let pending ← enrollFresh A h fresh (some (genesis A k e).toTransitionCore)
    commitFirst A h (fresh || (genesis A k e).isGenesis) pending
    let d ← disk
    pure ⟨pending, marked, d.witnessed⟩) Q t
  rw [genesis_isGenesis]
  refine Survives.bind (survives_pure (survives_disk ?_))
  refine survives_compute (a := false) ?_ ?_
  · simp [freshAuthority]
  refine Survives.bind (survives_pure ?_)
  refine Survives.bind (survives_disk ?_)
  rw [ht.disk]
  refine survives_commitGenesis ht hI fun l u hu => survives_disk ?_
  rw [hu.disk]
  exact survives_pure (hQ l u hu)

/-- A first enrollment from its beginning. -/
theorem survives_prepare_bare {c e : Option K} {marker : Option Str}
    {Q : Found → Machine (Disk K) (Memory K) → Prop}
    (hs : At ⟨c, none, e, none, none, marker⟩ m l s)
    (hmarker : marker = none → c = none ∧ e = none)
    (hI : ∀ d, Shape A d .zero → I d)
    (hQ : ∀ k e marker l t, At ⟨some k, some (Snapshot.zero.doc A k), some e, none,
      some (genesis A k e), some marker⟩ m l t →
        Q ⟨some (genesis A k e).toTransitionCore, true, (true, false)⟩ t) :
    Survives I (prepare A h) Q s := by
  refine survives_disk ?_
  rw [hs.disk]
  refine survives_require (.inl rfl) ?_
  refine Survives.bind (survives_readTransition_none hs rfl ?_)
  -- whatever keys there are, there is a marker from here on
  have hmarked : ∀ nonce l t, At ⟨c, none, e, none, none, some nonce⟩ m l t → Survives I (do
      let marked := (← disk).genesis.isSome
      let fresh ← compute (freshAuthority (c.isSome, false) (e.isSome, false) false
        (marked && true && true && true) (!(c.isSome || false) && !(e.isSome || false) && true))
      let pending ← enrollFresh A h fresh none
      commitFirst A h (fresh || false) pending
      let d ← disk
      pure ⟨pending, marked, d.witnessed⟩) Q t := by
    intro nonce l t ht
    refine survives_disk ?_
    rw [ht.disk]
    refine survives_compute (a := true) ?_ ?_
    · simp [freshAuthority]
    have hbare : ∀ c e, I ⟨c, none, e, none, none, some nonce⟩ := fun c e =>
      hI _ (.bare fun h => absurd h (Option.some_ne_none nonce))
    refine (survives_enroll ht hbare fun k e l u hu => ?_).bind
    refine Survives.bind (survives_disk ?_)
    rw [hu.disk]
    refine survives_commitGenesis hu (hI _ .announced) fun l v hv => survives_disk ?_
    rw [hv.disk]
    exact survives_pure (hQ k e nonce l v hv)
  cases marker with
  | none =>
    obtain ⟨rfl, rfl⟩ := hmarker rfl
    refine Survives.bind (survives_disk ?_)
    rw [hs.disk]
    exact survives_write hs (fun _ => hI _ (.bare hmarker)) rfl rfl (hmarked h.nonce _)
  | some nonce =>
    have hkeep : ∀ p : Bool, Survives I (if p then ensureGenesisMarker h else pure () : Store K Unit)
        (fun _ t => At ⟨c, none, e, none, none, some nonce⟩ m l t) s := by
      intro p
      cases p with
      | false => exact survives_pure hs
      | true =>
        refine survives_disk ?_
        rw [hs.disk]
        exact survives_pure hs
    exact Survives.bind ((hkeep _).mono fun _ t ht => hmarked nonce l t ht)

/-! ### The end of a load -/

/-- The memory after a load of `now`. -/
def Memory.adopt (m : Memory K) (p : Position) (records : Receipts) : Memory K :=
  { m with
    receipts := records
    sequence := p.sequence
    scanEpoch := p.scanEpoch
    head := p.head
    loaded := true }

/-- The store has settled at `now`, and the memory has loaded it. -/
def Adopted (A : Signer K) (m : Memory K) (now : Snapshot) (t : Machine (Disk K) (Memory K)) :
    Prop :=
  ∃ k e marker records l, now.Stored A k e ∧ Receipts.Valid records ∧
    ordered records = now.records ∧
      At ⟨some k, some (now.doc A k), some e, some (now.witness A k e), none, marker⟩
        (m.adopt (now.position A k) records) l t

theorem survives_adopt {now : Snapshot} {records : Receipts} {marker : Option Str} {marked : Bool}
    (hs : At ⟨some k, some (now.doc A k), some e, some (now.witness A k e), none, marker⟩ m l s)
    (hnow : now.Stored A k e) (hvalid : Receipts.Valid records)
    (hrecords : ordered records = now.records) :
    Survives (Shape A · now) (adopt A h (now.position A k) records marked)
      (fun _ => Adopted A m now) s := by
  refine (survives_readWitness hs rfl rfl hnow.sound fun t ht => ?_).bind
  refine survives_require rfl (Survives.bind (survives_remember ?_))
  have hadopt := ht.remember (·.adopt (now.position A k) records) rfl rfl rfl
  cases marked with
  | false => exact survives_pure ⟨k, e, marker, records, l, hnow, hvalid, hrecords, hadopt⟩
  | true =>
    exact survives_write hadopt (fun _ => .settled hnow) rfl rfl fun u hu =>
      ⟨k, e, none, records, _, hnow, hvalid, hrecords, hu⟩

/-- A state of the store is read as what was stored. -/
theorem survives_readState_stored {now : Snapshot} {witness : Option Witness}
    {tr : Option TransitionDoc} {marker : Option Str}
    {Q : Loaded → Machine (Disk K) (Memory K) → Prop}
    (hs : At ⟨some k, some (now.doc A k), some e, witness, tr, marker⟩ m l s)
    (hnow : now.Stored A k e)
    (hQ : ∀ records t, Receipts.Valid records → ordered records = now.records →
      At ⟨some k, some (now.doc A k), some e, witness, tr, marker⟩ m l t →
        Q ⟨.current, now.position A k, records⟩ t) : Survives I (readState A h) Q s := by
  have hsorted := hnow.recorded.sorted
  obtain ⟨records, hok, hitems⟩ := receiptsOf_ok hnow.recorded.valid
    (hsorted.imp fun h => ne_of_lt h)
  exact survives_readState hs rfl rfl rfl hnow.bytes hnow.recorded.count hnow.nonneg hnow.ahead rfl
    hok (hQ records · (valid_of_items hnow.recorded.valid hitems) (ordered_of_items hsorted hitems))

/-- Where the state is the new one, the load brings witness and transition up to it. -/
theorem survives_finish_new {now : Snapshot} {old : Position} {w : Option Position}
    {tr : TransitionDoc} {marker : Option Str} {found : Found}
    (hs : At ⟨some k, some (now.doc A k), some e, w.map (.signed A e), some tr, marker⟩ m l s)
    (hnow : now.Stored A k e)
    (htr : tr.toTransitionCore = ⟨(A.installId e).val, old, now.position A k⟩)
    (hw : w = none ∨ w = some (now.position A k) ∨ w = some old ∧ old.Sound A e)
    (hfound : found.pending = some tr.toTransitionCore)
    (hI : Shape A ⟨some k, some (now.doc A k), some e, w.map (.signed A e), some tr, marker⟩ now)
    (hI' : Shape A ⟨some k, some (now.doc A k), some e, some (now.witness A k e), some tr, marker⟩
      now) :
    Survives (Shape A · now) (do
      let s ← readState A h
      let p ← reconcile A h found s
      adopt A h p s.records found.marked) (fun _ => Adopted A m now) s := by
  refine (survives_readState_stored hs hnow fun records t hvalid hrecords ht => ?_).bind
  refine Survives.bind ?_
  rw [reconcile, hfound]
  refine (survives_resume_new ht htr hnow.sound hw hI hI'
    fun l u hu => survives_pure ?_).bind
  exact survives_adopt hu hnow hvalid hrecords

/-! ### Loads -/

theorem freshAuthority_full (genesisPending : Bool) :
    freshAuthority (true, true) (true, true) genesisPending false false = .ok false := by
  cases genesisPending with
  | true => rfl
  | false => rfl

theorem freshAuthority_genesis {genesisPending witness : Bool} (h : genesisPending = true) :
    freshAuthority (true, true) (true, witness) genesisPending false false = .ok false := by
  subst h
  cases witness with
  | true => rfl
  | false => rfl

theorem Position.ne_of_follows {a b : Snapshot} (h : a.Follows b) : a.position A k ≠ b.position A k :=
  fun he => by
    have hsequence : a.sequence = b.sequence := congrArg Position.sequence he
    have hnext := h.1
    omega

/-- What the migration makes of a `v1` state. -/
def StateDoc.migrated (d : StateDoc) : Snapshot := Legacy.snapshot ⟨d.sequence, d.records⟩

/-- The migration of a `v1` state, if there is one, is not cut between the creation of the key and
    the witness, and its documents are within their bounds. -/
def Migrates (A : Signer K) (h : Host K) (d : Disk K) (l : Option ℕ) : Prop :=
  ∀ k ∈ d.changeKey, ∀ doc ∈ d.state, doc.schema = .legacy →
    l ≠ some 1 ∧ l ≠ some 2 ∧ (doc.migrated.doc A k).bytes ≤ maxStateBytes ∧
      (doc.migrated.witness A k h.enrollmentKey).bytes ≤ maxWitnessBytes

theorem Legacy.Stored.migrated {v : Legacy} (hv : v.Stored A k)
    (hbytes : (v.snapshot.doc A k).bytes ≤ maxStateBytes)
    (hwitness : (v.snapshot.witness A k e).bytes ≤ maxWitnessBytes) : v.snapshot.Stored A k e := by
  obtain ⟨records, -, hitems⟩ := receiptsOf_ok hv.valid hv.nodup
  have hrecorded := ordered_recorded (valid_of_items hv.valid hitems) (by
    rw [Dict.size, hitems, List.length_map]
    exact hv.count)
  rw [ordered, hitems] at hrecorded
  exact ⟨hv.nonneg, le_rfl, hrecorded, hbytes, hwitness⟩

/-- The migration: the key, the state and the witness are written without a crash between them. -/
theorem survives_load_legacy {v : Legacy} (hv : v.Stored A k)
    (hs : At ⟨some k, some (v.doc A k), none, none, none, none⟩ m l s)
    (hm : Migrates A h ⟨some k, some (v.doc A k), none, none, none, none⟩ l) :
    Survives (Shape A · v.snapshot) (loadUnderLease A h) (fun _ => Adopted A m v.snapshot) s := by
  obtain ⟨hone, htwo, hbytes, hwitness⟩ := hm k rfl _ rfl rfl
  have hstored : v.snapshot.Stored A k h.enrollmentKey := hv.migrated hbytes hwitness
  obtain ⟨records, hok, hitems⟩ := receiptsOf_ok hv.valid hv.nodup
  have hvalid := valid_of_items hv.valid hitems
  have hsize : records.size ≤ maxRecords := by
    rw [Dict.size, hitems, List.length_map]
    exact hv.count
  have hordered : ordered records = v.snapshot.records := by
    rw [ordered, hitems]
    rfl
  refine (survives_prepare_state hs rfl (.inl rfl) (fun hR => survives_readTransition_none hs rfl
    (hR s hs)) rfl fun t ht => ?_).bind
  refine (survives_readState ht rfl rfl rfl hv.bytes hv.count hv.nonneg le_rfl rfl hok
    fun t ht => ?_).bind
  refine Survives.bind (survives_require rfl (survives_require rfl ?_))
  refine (survives_enrollmentKey ht (fun _ _ => .legacy hv) fun e l' t he ht => ?_).bind
  obtain ⟨⟨-, rfl⟩, hzero, rfl⟩ := he.resolve_right fun h => absurd h.1 (Option.some_ne_none e).symm
  have hlater : l.map (· - 1) ≠ some 0 ∧ (l.map (· - 1)).map (· - 1) ≠ some 0 := by
    cases l with
    | none => exact ⟨(Option.some_ne_none 0).symm, (Option.some_ne_none 0).symm⟩
    | some n =>
      simp only [Option.map_some, ne_eq, Option.some.injEq] at hone htwo hzero ⊢
      omega
  refine (survives_writeState ht (fun h => absurd h hlater.1) rfl hsize
    (congrArg (fun rows => StateDoc.signed A k (.current v.sequence v.sequence rows)) hordered)
    hbytes fun t ht => ?_).bind
  refine (survives_writeWitness ht (fun h => absurd h hlater.2) rfl fun t ht => ?_).bind
  exact survives_pure (survives_adopt ht hstored hvalid hordered)

/-- CORRECT: from the files that any crash has left, a load ends with what they stand for, and a
    crash during it leaves such files again. -/
theorem survives_loadUnderLease {now : Snapshot} (hshape : Shape A d now) (hs : At d m l s)
    (hm : Migrates A h d l) :
    Survives (Shape A · now) (loadUnderLease A h) (fun _ => Adopted A m now) s := by
  cases hshape with
  | bare hmarker =>
    refine (survives_prepare_bare hs hmarker (fun _ => id) fun k e marker l t ht => ?_).bind
    exact survives_finish_new (w := none) ht (zero_stored A k e) rfl (.inl rfl) rfl
      (.enrolled (.inl rfl)) (.enrolled (.inr rfl))
  | announced =>
    refine (survives_prepare_announced hs .announced fun l t ht => ?_).bind
    exact survives_finish_new (w := none) ht (zero_stored A _ _) rfl (.inl rfl) rfl
      (.enrolled (.inl rfl)) (.enrolled (.inr rfl))
  | @enrolled k e w marker hw =>
    refine (survives_prepare_state hs rfl (.inr rfl) (fun hR => survives_readTransition hs rfl rfl
      (genesis_wellFormed A k e) (genesis_bytes A k e) hR) ?_ fun t ht => ?_).bind
    · exact freshAuthority_genesis (genesis_isGenesis A k e)
    exact survives_finish_new ht (zero_stored A k e) rfl (hw.imp_right .inl) rfl (.enrolled hw)
      (.enrolled (.inr rfl))
  | settled hnow =>
    refine (survives_prepare_state hs rfl (.inl rfl) (fun hR => survives_readTransition_none hs rfl
      (hR s hs)) rfl fun t ht => ?_).bind
    refine (survives_readState_stored ht hnow fun records t hvalid hrecords ht => ?_).bind
    refine Survives.bind (survives_require rfl (survives_pure ?_))
    exact survives_adopt ht hnow hvalid hrecords
  | @pending k e a b marker ha hb hab hbytes =>
    refine (survives_prepare_state hs rfl (.inr rfl) (fun hR => survives_readTransition hs rfl rfl
      (transition_wellFormed ha hab) hbytes hR) (freshAuthority_full _) fun t ht => ?_).bind
    refine (survives_readState_stored ht ha fun records t hvalid hrecords ht => ?_).bind
    refine Survives.bind ?_
    refine (survives_resume_old ht rfl ha.sound (Position.ne_of_follows hab)
      (.pending ha hb hab hbytes) fun l t ht => survives_pure ?_).bind
    exact survives_adopt ht ha hvalid hrecords
  | @replaced k e a _ w marker ha hb hab hbytes hw =>
    refine (survives_prepare_state hs rfl (.inr rfl) (fun hR => survives_readTransition hs rfl rfl
      (transition_wellFormed ha hab) hbytes hR) (freshAuthority_full _) fun t ht => ?_).bind
    have hold : some w = some (now.position A k) ∨
        some w = some (a.position A k) ∧ (a.position A k).Sound A e :=
      hw.symm.imp (congrArg some) fun h => ⟨congrArg some h, ha.sound⟩
    exact survives_finish_new (w := some w) ht hb rfl (.inr hold) rfl
      (.replaced ha hb hab hbytes hw) (.replaced ha hb hab hbytes (.inr rfl))
  | legacy hv => exact survives_load_legacy hv hs hm

end Steps
end Angerona.Ransomware
