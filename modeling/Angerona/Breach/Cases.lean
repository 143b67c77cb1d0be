import Angerona.Breach.Controller

/-!
    The case map of the breach review.

    Only `_accept_event` removes a case, and only to make room: `spares` says which one may go. The
    rest changes no key and no `auto_requested`, which is what `Frame` states once for all of it. An
    isolation is asked for automatically only while the flag of its case is down, and an admitted
    one raises it: `spent`. -/

namespace Angerona.Breach
open Effect

variable {Id Rid T : Type}

/-! ### What a history says -/

/-- An automatic request that was admitted. -/
def Request.Taken (r : Request Id Rid T) : Prop := r.automatic.isSome = true ∧ r.admitted = true

/-- An admitted automatic isolation of the case, which is in the map ever since. -/
def Spent (log : List (Event Id Rid T)) (id : Id) : Prop :=
  ∃ before r after, log = before ++ .asked r :: after ∧ r.Taken ∧ r.caseId = id ∧
    .evicted id ∉ after

section Statement

variable [DecidableEq Id] [DecidableEq Rid] [Field T] [LinearOrder T]

/-- An automatic isolation is for fresh evidence of a case that is neither resolved nor lifted, and
    no case gets two of them while it stays in the map. -/
structure Isolations (log : List (Event Id Rid T)) : Prop where
  justified : ∀ r j, .asked r ∈ log → r.automatic = some j → r.action = .isolate ∧
    (∃ e, r.found.evidence = some e ∧ e.Fresh j.now) ∧ r.found.resolved = false ∧
    r.caseId ∉ j.lifted
  once : ∀ before r mid r' after, log = before ++ .asked r :: (mid ++ .asked r' :: after) →
    r.Taken → r'.Taken → r.caseId = r'.caseId → .evicted r.caseId ∈ mid

/-- The map is bounded, and the active case is in it. -/
structure World.Bounded (w : World Id Rid T) : Prop where
  few : w.cases.size ≤ 32
  active : ∀ id, (w.cases.get? id).isSome = true →
    ∃ a, w.active = some a ∧ (w.cases.get? a).isSome = true

/-- Nothing that is pending or restricted is removed. -/
def World.Spares (w w' : World Id Rid T) : Prop :=
  ∀ id c, w.cases.get? id = some c → w'.cases.get? id = none →
    c.containment.restricted = false ∧ ∀ rid action, w.pending.get? rid ≠ some (id, action)

end Statement

/-! ### Steps that leave the keys and the flags alone -/

section Frames

variable [DecidableEq Id]

/-- No automatic request, and no eviction. -/
def Event.Plain : Event Id Rid T → Prop
  | .asked r => r.automatic = none
  | .moved .. => True
  | .published _ => True
  | .evicted _ => False

structure Frame (w w' : World Id Rid T) : Prop where
  cases : ∀ id, (w'.cases.get? id).map (fun c => (c.autoRequested, c.evidence)) =
    (w.cases.get? id).map fun c => (c.autoRequested, c.evidence)
  size : w'.cases.size = w.cases.size
  active : w'.active = w.active
  log : ∃ new, w'.log = w.log ++ new ∧ ∀ e ∈ new, Event.Plain e

instance : IsPreorder (World Id Rid T) Frame where
  refl w := ⟨fun _ => rfl, rfl, rfl, [], (List.append_nil _).symm, fun _ he => absurd he List.not_mem_nil⟩
  trans w w' w'' h h' := by
    obtain ⟨new, hnew, hplain⟩ := h.log
    obtain ⟨new', hnew', hplain'⟩ := h'.log
    refine ⟨fun id => (h'.cases id).trans (h.cases id), h'.size.trans h.size,
      h'.active.trans h.active, new ++ new', ?_, fun e he => ?_⟩
    · rw [hnew', hnew, List.append_assoc]
    · exact (List.mem_append.mp he).elim (hplain e) (hplain' e)

theorem Frame.isSome {w w' : World Id Rid T} (h : Frame w w') (id : Id) :
    (w'.cases.get? id).isSome = (w.cases.get? id).isSome := by
  have hcase := congrArg Option.isSome (h.cases id)
  rwa [Option.isSome_map, Option.isSome_map] at hcase

theorem within_onCase {P : World Id Rid T → World Id Rid T → Prop} [IsPreorder _ P] {α : Type}
    {id : Id} {d : α} {f : Case T → Deed Id Rid T α} (h : ∀ c, Within P (f c)) :
    Within P (onCase id d f) :=
  Within.read.bind fun _ => Within.elim (Within.pure d) h

theorem wp_onCase {α : Type} {id : Id} {d : α} {f : Case T → Deed Id Rid T α}
    {Q : α → World Id Rid T → Prop} {E : Unit → World Id Rid T → Prop} {w : World Id Rid T} :
    wp (onCase id d f) Q E w ↔
      (∀ c, w.cases.get? id = some c → wp (f c) Q E w) ∧ (w.cases.get? id = none → Q d w) := by
  rw [onCase, wp_bind, wp_read]
  rcases h : w.cases.get? id with _ | c
  · simp
  · simp

theorem frame_note {e : Event Id Rid T} (h : e.Plain) : Within Frame (note e : Deed Id Rid T Unit) :=
  Within.modify fun _ => ⟨fun _ => rfl, rfl, rfl, [e], rfl, fun _ he => List.mem_singleton.mp he ▸ h⟩

theorem frame_set (w : World Id Rid T) {id : Id} {c c' : Case T} (hget : w.cases.get? id = some c)
    (h : (c'.autoRequested, c'.evidence) = (c.autoRequested, c.evidence)) :
    Frame w { w with cases := w.cases.set id c' } := by
  refine ⟨fun j => ?_, Dict.size_set_of_mem (by rw [hget]; rfl), rfl, [], (List.append_nil _).symm,
    fun _ he => absurd he List.not_mem_nil⟩
  rw [Dict.get?_set]
  split
  · rename_i hj
    rw [hj, hget, Option.map_some, Option.map_some, h]
  · rfl

theorem frame_edit {id : Id} {f : Case T → Case T}
    (h : ∀ c, ((f c).autoRequested, (f c).evidence) = (c.autoRequested, c.evidence)) :
    Within Frame (edit id f : Deed Id Rid T Unit) := by
  intro w
  refine wp_state (wp_onCase.mpr ⟨fun c hc => ?_, fun _ => refl_of Frame w⟩)
  exact frame_set w hc (h c)

/-- What changes neither the map nor the active case nor the history. -/
theorem frame_aside {f : World Id Rid T → World Id Rid T} (hcases : ∀ w, (f w).cases = w.cases)
    (hactive : ∀ w, (f w).active = w.active) (hlog : ∀ w, (f w).log = w.log) :
    Within Frame (modify f : Deed Id Rid T Unit) :=
  Within.modify fun w => ⟨fun _ => by rw [hcases w], by rw [hcases w], hactive w, [],
    (hlog w).trans (List.append_nil _).symm, fun _ he => absurd he List.not_mem_nil⟩

theorem frame_contain (id : Id) (next : Containment) (cause : Cause) :
    Within Frame (contain id next cause : Deed Id Rid T Unit) := by
  intro w
  refine wp_state (wp_onCase.mpr ⟨fun c hc => ?_, fun _ => refl_of Frame w⟩)
  have hset : Frame w { w with cases := w.cases.set id { c with containment := next } } :=
    frame_set w hc rfl
  exact ⟨hset.cases, hset.size, hset.active, [.moved id next cause], rfl,
    fun _ he => List.mem_singleton.mp he ▸ trivial⟩

theorem frame_requestAction (id : Id) (action : Action) (stopped : Bool) :
    Within Frame (requestAction id action stopped : Deed Id Rid T Unit) := by
  rw [requestAction]
  refine frame_aside (fun w => ?_) (fun w => ?_) fun w => ?_
  · split <;> rfl
  · split <;> rfl
  · split <;> rfl

variable [Field T] [LinearOrder T]

theorem frame_publish (id : Id) (d : Display T) :
    Within Frame (publish id d : Deed Id Rid T Unit) := by
  rw [publish]
  refine Within.read.bind fun _ => Within.ite (fun _ => Within.pure ()) fun _ =>
    within_onCase fun c => Within.check.bind fun _ => Within.bind ?_ fun _ => ?_
  · exact frame_aside (fun _ => rfl) (fun _ => rfl) fun _ => rfl
  · exact frame_note (e := .published _) trivial

omit [Field T] [LinearOrder T] in
theorem frame_judgeReceipts (i : Sync Id T) (id : Id) (active : List (Record Id)) :
    Within Frame (judgeReceipts i id active : Deed Id Rid T Unit) := by
  rw [judgeReceipts]
  refine Within.ite (fun _ => Within.bind ?_ fun _ => ?_) fun _ => Within.bind ?_ fun _ => ?_
  · exact frame_edit fun _ => rfl
  · exact within_onCase fun c => Within.ite (fun _ => frame_contain _ _ _) fun _ => Within.pure ()
  · exact frame_edit fun _ => rfl
  · refine Within.ite (fun _ => ?_) fun _ => frame_contain _ _ _
    exact Within.demand.bind fun _ => frame_contain _ _ _

theorem frame_reviewReceipts (i : Sync Id T) (id : Id) (receipts : List (Record Id)) :
    Within Frame (reviewReceipts i id receipts : Deed Id Rid T Unit) := by
  rw [reviewReceipts]
  exact (frame_judgeReceipts _ _ _).bind fun _ => frame_publish _ _

theorem frame_publishActive (id : Id) (d : Display T) :
    Within Frame (publishActive id d : Deed Id Rid T Unit) := by
  rw [publishActive]
  refine Within.read.bind fun w => Within.ite (fun _ => ?_) fun _ => Within.pure ()
  exact Within.demand.bind fun _ => frame_publish _ _

variable [DecidableEq Rid]

omit [Field T] [LinearOrder T] in
theorem frame_answered (id : Id) (action : Action) (c : Case T) (a : Answer Rid T) :
    Within Frame (answered id action c a) := by
  rw [answered]
  refine Within.ite (fun _ => Within.bind ?_ fun _ => ?_) fun _ => ?_
  · exact frame_aside (fun _ => rfl) (fun _ => rfl) fun _ => rfl
  · exact Within.ite (fun _ => frame_contain _ _ _) fun _ => Within.pure ()
  · exact Within.ite (fun _ => Within.pure ()) fun _ => frame_contain _ _ _

theorem frame_submit (id : Id) (action : Action) (reviewed : List Id) (a : Answer Rid T) :
    Within Frame (submit id action none reviewed a) := by
  rw [submit]
  refine Within.ite (fun _ => Within.pure _) fun _ => within_onCase fun c => ?_
  refine Within.bind ?_ fun _ => ?_
  · exact Within.elim (Within.pure ()) fun _ => frame_note rfl
  · exact (frame_answered _ _ _ _).bind fun _ => (frame_publish _ _).bind fun _ => Within.pure _

theorem frame_serve (id : Id) (action : Action) (reviewed : List Id) (c : Case T)
    (a : Answer Rid T) : Within Frame (serve id action reviewed c a) := by
  rw [serve]
  refine Within.ite (fun _ => ?_) fun _ => Within.ite (fun _ => ?_) fun _ => ?_
  · refine Within.ite (fun _ => Within.pure ()) fun _ => ?_
    exact frame_edit fun _ => rfl
  · exact (frame_submit _ _ _ _).bind fun _ => Within.pure ()
  · refine Within.ite (fun _ => ?_) fun _ => Within.pure ()
    exact (frame_submit _ _ _ _).bind fun _ => Within.pure ()

theorem frame_processRequest (a : Answer Rid T) (d : Display T) :
    Within Frame (processRequest a d : Deed Id Rid T Unit) := by
  rw [processRequest]
  refine Within.read.bind fun w => Within.elim (Within.pure ()) fun (id, action, reviewed) => ?_
  refine Within.bind ?_ fun _ => within_onCase fun c => ?_
  · exact frame_aside (fun _ => rfl) (fun _ => rfl) fun _ => rfl
  · exact (frame_serve _ _ _ _ _).bind fun _ => frame_publish _ _

omit [Field T] [LinearOrder T] [DecidableEq Rid] in
theorem frame_applyResult (id : Id) (action : Action) (r : Result) :
    Within Frame (applyResult id action r : Deed Id Rid T Unit) := by
  rw [applyResult]
  refine Within.ite (fun _ => ?_) fun _ => Within.ite (fun _ => ?_) fun _ => ?_
  · refine Within.bind (frame_contain _ _ _) fun _ => ?_
    exact frame_edit fun _ => rfl
  · refine Within.bind (frame_contain _ _ _) fun _ => ?_
    exact frame_edit fun _ => rfl
  · exact Within.ite (fun _ => frame_contain _ _ _) fun _ => Within.pure ()

theorem frame_syncResult (rid : Rid) (worker : Bool) (answer : Option Result) (d : Display T) :
    Within Frame (syncResult rid worker answer d : Deed Id Rid T Unit) := by
  rw [syncResult]
  refine Within.read.bind fun w => Within.ite (fun _ => Within.pure ()) fun _ => ?_
  refine Within.elim (Within.pure ()) fun (id, action) => Within.elim (Within.pure ()) fun r => ?_
  refine Within.bind ?_ fun _ => within_onCase fun _ => ?_
  · exact frame_aside (fun _ => rfl) (fun _ => rfl) fun _ => rfl
  · exact (frame_applyResult _ _ _).bind fun _ => frame_publish _ _

end Frames

/-! ### Histories -/

section Histories

variable {log new : List (Event Id Rid T)} {e : Event Id Rid T} {id : Id}

theorem Spent.snoc (h : Spent (log ++ [e]) id) :
    (∃ r, e = .asked r ∧ r.Taken ∧ r.caseId = id) ∨ Spent log id ∧ e ≠ .evicted id := by
  obtain ⟨before, r, after, heq, htaken, hid, hstays⟩ := h
  rcases List.eq_nil_or_concat after with rfl | ⟨after', z, rfl⟩
  · exact .inl ⟨r, List.singleton_inj.mp (List.append_inj' heq rfl).2, htaken, hid⟩
  · rw [List.concat_eq_append, ← List.cons_append, ← List.append_assoc] at heq
    obtain ⟨hlog, he⟩ := List.append_inj' heq rfl
    rw [List.concat_eq_append] at hstays
    refine .inr ⟨⟨before, r, after', hlog, htaken, hid, fun hin => hstays ?_⟩, fun hev => hstays ?_⟩
    · exact List.mem_append_left _ hin
    · rw [← List.singleton_inj.mp he, hev]
      exact List.mem_append_right _ List.mem_cons_self

variable [Field T] [LinearOrder T]

theorem Isolations.snoc (h : Isolations log)
    (hjust : ∀ r j, e = .asked r → r.automatic = some j → r.action = .isolate ∧
      (∃ x, r.found.evidence = some x ∧ x.Fresh j.now) ∧ r.found.resolved = false ∧
      r.caseId ∉ j.lifted)
    (honce : ∀ r, e = .asked r → r.Taken → ¬Spent log r.caseId) : Isolations (log ++ [e]) where
  justified r j hr hj := by
    rcases List.mem_append.mp hr with hr | hr
    · exact h.justified r j hr hj
    · exact hjust r j (List.mem_singleton.mp hr).symm hj
  once before r mid r' after heq hr hr' hid := by
    rw [← List.cons_append, ← List.append_assoc] at heq
    rcases List.eq_nil_or_concat after with rfl | ⟨after', z, rfl⟩
    · obtain ⟨hlog, he⟩ := List.append_inj' heq rfl
      by_contra hstays
      exact honce r' (List.singleton_inj.mp he) hr' ⟨before, r, mid, hlog, hr, hid, hid ▸ hstays⟩
    · rw [List.concat_eq_append, ← List.cons_append, ← List.append_assoc] at heq
      obtain ⟨hlog, -⟩ := List.append_inj' heq rfl
      rw [List.append_assoc, List.cons_append] at hlog
      exact h.once before r mid r' after' hlog hr hr' hid

theorem Isolations.plain (h : Isolations log) (hnew : ∀ e ∈ new, Event.Plain e) :
    Isolations (log ++ new) := by
  induction new using List.reverseRecOn with
  | nil => rwa [List.append_nil]
  | append_singleton new e ih =>
    have hplain : e.Plain := hnew e (List.mem_append_right _ List.mem_cons_self)
    have hnone : ∀ r, e = .asked r → r.automatic = none := by
      rintro r rfl
      exact hplain
    rw [← List.append_assoc]
    refine (ih fun e he => hnew e (List.mem_append_left _ he)).snoc (fun r j hr hj => ?_)
      fun r hr htaken => ?_
    · exact absurd ((hnone r hr).symm.trans hj) (by simp)
    · exact absurd htaken.1 (by simp [hnone r hr])

omit [Field T] [LinearOrder T] in
theorem Spent.plain (h : Spent (log ++ new) id) (hnew : ∀ e ∈ new, Event.Plain e) :
    Spent log id := by
  induction new using List.reverseRecOn with
  | nil => rwa [List.append_nil] at h
  | append_singleton new e ih =>
    rw [← List.append_assoc] at h
    have hplain : e.Plain := hnew e (List.mem_append_right _ List.mem_cons_self)
    rcases h.snoc with ⟨r, rfl, htaken, -⟩ | ⟨h, -⟩
    · exact absurd htaken.1 (by rw [show r.automatic = none from hplain]; simp)
    · exact ih h fun e he => hnew e (List.mem_append_left _ he)

end Histories

/-! ### The invariant -/

section Invariant

variable [DecidableEq Id] [Field T] [LinearOrder T]

/-- An admitted automatic isolation has raised the flag of its case, or is just about to. -/
structure Loose (free : Id → Prop) (w : World Id Rid T) : Prop where
  few : w.cases.size ≤ maxCases
  isolations : Isolations w.log
  spent : ∀ id, ¬free id → Spent w.log id →
    ∃ c, w.cases.get? id = some c ∧ c.autoRequested = true

/-- The active case is in the map, too. -/
structure Kept (free : Id → Prop) (w : World Id Rid T) : Prop extends Loose free w where
  pointed : ∀ a, w.active = some a → (w.cases.get? a).isSome = true
  shown : ∀ id, (w.cases.get? id).isSome = true → w.active.isSome = true

/-- No case is about to raise its flag. -/
def nowhere : Id → Prop := fun _ => False

variable {free : Id → Prop} {w w' : World Id Rid T} {id : Id} {c : Case T} {e : Evidence T}

theorem Loose.frame (h : Loose free w) (hf : Frame w w') : Loose free w' := by
  obtain ⟨new, hlog, hplain⟩ := hf.log
  refine ⟨hf.size ▸ h.few, hlog ▸ h.isolations.plain hplain, fun id hid hs => ?_⟩
  obtain ⟨c, hc, hauto⟩ := h.spent id hid ((hlog ▸ hs : Spent (w.log ++ new) id).plain hplain)
  have hcase := hf.cases id
  rw [hc, Option.map_some] at hcase
  obtain ⟨c', hc', heq⟩ := Option.map_eq_some_iff.mp hcase
  exact ⟨c', hc', (congrArg Prod.fst heq).trans hauto⟩

theorem Kept.frame (h : Kept free w) (hf : Frame w w') : Kept free w' where
  toLoose := h.toLoose.frame hf
  pointed a ha := (hf.isSome a).trans (h.pointed a (hf.active ▸ ha))
  shown id hid := hf.active ▸ h.shown id ((hf.isSome id).symm.trans hid)

omit [Field T] [LinearOrder T] in
theorem Frame.found (hf : Frame w w') (hget : w.cases.get? id = some c) :
    ∃ c', w'.cases.get? id = some c' ∧ c'.autoRequested = c.autoRequested ∧
      c'.evidence = c.evidence := by
  have hcase := hf.cases id
  rw [hget, Option.map_some] at hcase
  obtain ⟨c', hc', heq⟩ := Option.map_eq_some_iff.mp hcase
  exact ⟨c', hc', congrArg Prod.fst heq, congrArg Prod.snd heq⟩

/-- A deed that leaves keys and flags alone. -/
theorem kept_within {α : Type} {m : Deed Id Rid T α} (hm : Within Frame m) (h : Kept free w) :
    wp m (fun _ => Kept free) (fun _ => Kept free) w :=
  wp_mono (hm.wp w) (fun _ _ => h.frame) fun _ _ => h.frame

/-! ### Automatic requests -/

omit [Field T] [LinearOrder T] in
theorem wp_edit {f : Case T → Case T} {Q : Unit → World Id Rid T → Prop}
    {E : Unit → World Id Rid T → Prop} (hget : w.cases.get? id = some c) :
    wp (edit id f) Q E w ↔ Q () { w with cases := w.cases.set id (f c) } := by
  rw [edit, wp_onCase, hget]
  simp

/-- A case with evidence is always published. -/
theorem wp_publish (hget : w.cases.get? id = some c) (hevidence : c.evidence = some e)
    (d : Display T) : wp (publish id d) (fun _ => Frame w) (fun _ _ => False) w := by
  have hf := (frame_publish id d).wp w
  rw [publish, wp_bind, wp_read, wp_ite] at hf ⊢
  refine ⟨hf.1, fun hne => ?_⟩
  have hrest := hf.2 hne
  rw [wp_onCase] at hrest ⊢
  refine ⟨fun c' hc' => ?_, hrest.2⟩
  obtain rfl := Option.some.inj (hget.symm.trans hc')
  have hshow := hrest.1 c hc'
  rw [wp_bind, wp_check] at hshow ⊢
  exact ⟨hshow.1, fun hno => absurd (.inl (by rw [hevidence]; rfl)) hno⟩

omit [Field T] [LinearOrder T] in
theorem returns_edit (id : Id) (f : Case T → Case T) : Returns (edit id f : Deed Id Rid T Unit) := by
  rw [edit, onCase]
  exact Returns.read.bind fun _ => Returns.elim (Returns.pure _) fun _ => Returns.modify _

omit [Field T] [LinearOrder T] in
theorem returns_contain (id : Id) (next : Containment) (cause : Cause) :
    Returns (contain id next cause : Deed Id Rid T Unit) := by
  rw [contain, onCase]
  exact Returns.read.bind fun _ => Returns.elim (Returns.pure _) fun _ => Returns.modify _

variable [DecidableEq Rid]

omit [Field T] [LinearOrder T] in
theorem returns_answered (id : Id) (action : Action) (c : Case T) (a : Answer Rid T) :
    Returns (answered id action c a) := by
  rw [answered]
  refine Returns.ite ?_ (Returns.ite (Returns.pure _) (returns_contain _ _ _))
  exact (Returns.modify _).bind fun _ => Returns.ite (returns_contain _ _ _) (Returns.pure _)

omit [DecidableEq Rid] in
/-- The flag gets what the worker said. -/
theorem kept_raise {admitted : Bool} (h : Kept (fun j => admitted = true ∧ j = id) w)
    (hget : w.cases.get? id = some c) (hauto : admitted = false → c.autoRequested = false) :
    wp (edit id fun c => { c with autoRequested := admitted }) (fun _ => Kept nowhere)
      (fun _ _ => False) w := by
  rw [wp_edit hget]
  have hsome : ∀ j, ((w.cases.set id { c with autoRequested := admitted }).get? j).isSome =
      (w.cases.get? j).isSome := by
    intro j
    rw [Dict.get?_set]
    split
    · rename_i hj
      rw [hj, hget]
      rfl
    · rfl
  refine ⟨⟨?_, h.isolations, fun j _ hs => ?_⟩, fun a ha => (hsome a).trans (h.pointed a ha),
    fun j hj => h.shown j ((hsome j).symm.trans hj)⟩
  · exact (Dict.size_set_of_mem (by rw [hget]; rfl)).trans_le h.few
  · rw [Dict.get?_set]
    rcases eq_or_ne j id with rfl | hne
    · refine ⟨_, if_pos rfl, ?_⟩
      rcases admitted with _ | _
      · obtain ⟨c', hc', hauto'⟩ := h.spent j (fun hj => absurd hj.1 (by simp)) hs
        obtain rfl := Option.some.inj (hget.symm.trans hc')
        exact absurd ((hauto rfl).symm.trans hauto') (by simp)
      · rfl
    · obtain ⟨c', hc', hauto'⟩ := h.spent j (fun hj => hne hj.2) hs
      exact ⟨c', (if_neg hne).trans hc', hauto'⟩

omit [DecidableEq Rid] in
/-- The worker is asked. -/
theorem kept_asked {j : Judged Id T} {rid : Rid} (h : Kept nowhere w)
    (hget : w.cases.get? id = some c) (hevidence : c.evidence = some e) (hfresh : e.Fresh j.now)
    (hauto : c.autoRequested = false) (hresolved : c.resolved = false) (hlifted : id ∉ j.lifted)
    (admitted : Bool) :
    Kept (fun k => admitted = true ∧ k = id)
      { w with log := w.log ++ [.asked ⟨id, c, .isolate, rid, some j, [], admitted⟩] } := by
  have hfree : ¬Spent w.log id := by
    intro hs
    obtain ⟨c', hc', hauto'⟩ := h.spent id not_false hs
    obtain rfl := Option.some.inj (hget.symm.trans hc')
    exact absurd (hauto.symm.trans hauto') (by simp)
  refine ⟨⟨h.few, h.isolations.snoc (fun r j' hr hj => ?_) fun r hr _ => ?_, fun k hk hs => ?_⟩,
    h.pointed, h.shown⟩
  · obtain rfl := Event.asked.inj hr
    obtain rfl := Option.some.inj hj
    exact ⟨rfl, ⟨e, hevidence, hfresh⟩, hresolved, hlifted⟩
  · obtain rfl := Event.asked.inj hr
    exact hfree
  · rcases hs.snoc with ⟨r, hr, htaken, hid⟩ | ⟨hs, -⟩
    · obtain rfl := Event.asked.inj hr
      exact absurd ⟨htaken.2, hid.symm⟩ hk
    · exact h.spent k not_false hs

theorem kept_submitAuto {j : Judged Id T} (a : Answer Rid T) (h : Kept nowhere w)
    (hget : w.cases.get? id = some c) (hevidence : c.evidence = some e) (hfresh : e.Fresh j.now)
    (hauto : c.autoRequested = false) (hresolved : c.resolved = false) (hlifted : id ∉ j.lifted) :
    wp (submitAuto id j a) (fun _ => Kept nowhere) (fun _ => Kept nowhere) w := by
  have hrest : ∀ w₁ : World Id Rid T, w₁.cases = w.cases → ∀ admitted,
      Kept (fun k => admitted = true ∧ k = id) w₁ → decide (a.worker = some true) = admitted →
      wp (answered id .isolate c a >>= fun _ => publish id a.display >>= fun _ =>
          pure (decide (a.worker = some true)))
        (fun r => wp (edit id fun c => { c with autoRequested := r }) (fun _ => Kept nowhere)
          fun _ => Kept nowhere) (fun _ => Kept nowhere) w₁ := by
    rintro w₁ hcases admitted h₁ rfl
    obtain ⟨c₁, hget₁, hauto₁, hevidence₁⟩ : ∃ c₁, w₁.cases.get? id = some c₁ ∧
        c₁.autoRequested = false ∧ c₁.evidence = some e := ⟨c, hcases ▸ hget, hauto, hevidence⟩
    rw [wp_bind]
    refine wp_mono ((returns_answered _ _ _ _).wp (frame_answered _ _ _ _) w₁) (fun _ w₂ hf => ?_)
      fun _ _ hno => hno.elim
    obtain ⟨c₂, hget₂, hauto₂, hevidence₂⟩ := hf.found hget₁
    rw [wp_bind]
    refine wp_mono (wp_publish hget₂ (hevidence₂.trans hevidence₁) _) (fun _ w₃ hf' => ?_)
      fun _ _ hno => hno.elim
    obtain ⟨c₃, hget₃, hauto₃, -⟩ := hf'.found hget₂
    rw [wp_pure]
    exact wp_mono (kept_raise ((h₁.frame hf).frame hf') hget₃ fun _ =>
      hauto₃.trans (hauto₂.trans hauto₁)) (fun _ _ hk => hk) fun _ _ hno => hno.elim
  have hweak : ∀ admitted, Kept (fun k => admitted = true ∧ k = id) w := fun admitted =>
    { h with spent := fun k _ => h.spent k not_false }
  rw [submitAuto, wp_bind, submit, wp_ite]
  refine ⟨fun _ => ?_, fun _ => ?_⟩
  · rw [wp_pure]
    exact wp_mono (kept_raise (hweak false) hget fun _ => hauto) (fun _ _ hk => hk)
      fun _ _ hno => hno.elim
  · rw [wp_onCase]
    refine ⟨fun c' hc' => ?_, fun hnone => absurd (hnone.symm.trans hget) (by simp)⟩
    obtain rfl := Option.some.inj (hget.symm.trans hc')
    rw [wp_bind]
    rcases hworker : a.worker with _ | admitted
    · rw [Option.elim_none, wp_pure]
      exact hworker ▸ hrest w rfl false (hweak false) (by rw [hworker]; rfl)
    · rw [Option.elim_some, note, wp_modify]
      exact hworker ▸ hrest _ rfl admitted
        (kept_asked h hget hevidence hfresh hauto hresolved hlifted admitted)
        (by rw [hworker]; cases admitted <;> rfl)

theorem kept_retryIsolation (i : Retry Id Rid T) (h : Kept nowhere w) :
    wp (retryIsolation id i) (fun _ => Kept nowhere) (fun _ => Kept nowhere) w := by
  rw [retryIsolation, wp_onCase]
  refine ⟨fun c hc => ?_, fun _ => h⟩
  rcases hevidence : c.evidence with _ | e
  · exact h
  · rw [Option.elim_some, wp_ite]
    refine ⟨fun hgo => ?_, fun _ => h⟩
    obtain ⟨-, hauto, hresolved, hlifted, hfresh⟩ := hgo
    exact kept_submitAuto _ h hc hevidence hfresh (Bool.not_eq_true _ |>.mp hauto)
      (Bool.not_eq_true _ |>.mp hresolved) hlifted

/-! ### Evidence -/

omit [DecidableEq Rid] in
theorem Kept.stays (h : Kept nowhere w) (hnone : w.cases.get? id = none) : ¬Spent w.log id := by
  intro hs
  obtain ⟨c, hc, -⟩ := h.spent id not_false hs
  exact absurd (hnone.symm.trans hc) (by simp)

omit [DecidableEq Rid] in
/-- A case is added. -/
theorem loose_insert (h : Loose nowhere w) (hsize : w.cases.size < maxCases)
    (hfree : ¬Spent w.log id) (c : Case T) :
    Loose nowhere { w with cases := w.cases.set id c } := by
  refine ⟨(Dict.size_set_le _ _ _).trans hsize, h.isolations, fun j hj hs => ?_⟩
  have hne : j ≠ id := fun hj => hfree (hj ▸ hs)
  obtain ⟨c', hc', hauto⟩ := h.spent j hj hs
  exact ⟨c', (Dict.get?_set _ _ _ _).trans ((if_neg hne).trans hc'), hauto⟩

omit [DecidableEq Rid] in
/-- A case is removed. -/
theorem loose_evict (h : Loose nowhere w) (k : Id) :
    Loose nowhere { w with cases := w.cases.erase k, log := w.log ++ [.evicted k] } := by
  refine ⟨(Dict.size_erase_le _ _).trans h.few,
    h.isolations.snoc (fun _ _ hr => absurd hr (by simp)) fun _ hr => absurd hr (by simp),
    fun j hj hs => ?_⟩
  rcases hs.snoc with ⟨r, hr, -⟩ | ⟨hs, hne⟩
  · exact absurd hr (by simp)
  · obtain ⟨c', hc', hauto⟩ := h.spent j hj hs
    have hk : j ≠ k := fun hj => hne (by rw [hj])
    exact ⟨c', (Dict.get?_erase _ _ _).trans ((if_neg hk).trans hc'), hauto⟩

omit [Field T] [LinearOrder T] in
theorem World.evictable_spec {k : Id} (h : w.evictable = some k) : ∃ c, w.cases.get? k = some c ∧
    c.containment.restricted = false ∧ ∀ rid action, w.pending.get? rid ≠ some (k, action) := by
  obtain ⟨⟨k', c⟩, hfind, rfl⟩ := Option.map_eq_some_iff.mp h
  have hgone := List.find?_some hfind
  rw [decide_eq_true_eq] at hgone
  refine ⟨c, Dict.mem_items.mp (List.mem_of_find?_eq_some hfind),
    Bool.not_eq_true _ |>.mp hgone.2.2, fun rid action hp => hgone.2.1 ?_⟩
  exact List.mem_map.mpr ⟨_, Dict.mem_values.mpr ⟨rid, hp⟩, rfl⟩

/-- What `enter` leaves: a case with the evidence, and all that was not free to go. -/
structure Entered (w₀ : World Id Rid T) (id : Id) (e : Evidence T) (w : World Id Rid T) : Prop
    extends Loose nowhere w where
  here : ∃ c, w.cases.get? id = some c ∧ c.evidence = some e
  spares : w₀.Spares w

theorem entered_insert (h : Loose nowhere w') (hsize : w'.cases.size < maxCases)
    (hfree : ¬Spent w'.log id) (hspares : ∀ j c, j ≠ id → w.cases.get? j = some c →
      w'.cases.get? j = none → c.containment.restricted = false ∧
        ∀ rid action, w.pending.get? rid ≠ some (j, action)) :
    Entered w id e { w' with cases := w'.cases.set id ⟨some e, true, .notRequested, false, false, none⟩ } where
  toLoose := loose_insert h hsize hfree _
  here := ⟨_, (Dict.get?_set _ _ _ _).trans (if_pos rfl), rfl⟩
  spares j c hj hgone := by
    rw [Dict.get?_set] at hgone
    split at hgone
    · exact absurd hgone (by simp)
    · rename_i hne
      exact hspares j c hne hj hgone

theorem entered_enter (h : Kept nowhere w) : wp (enter id e)
    (fun kept w' => if kept = true then Entered w id e w' else Kept nowhere w' ∧ w'.cases = w.cases)
    (fun _ _ => False) w := by
  rw [enter, wp_bind, wp_read, wp_ite]
  refine ⟨fun hsome => ?_, fun hnew => ?_⟩
  · obtain ⟨c, hc⟩ := Option.isSome_iff_exists.mp hsome
    rw [wp_bind, wp_edit hc, wp_pure, if_pos rfl]
    refine ⟨⟨(Dict.size_set_of_mem hsome).trans_le h.few, h.isolations, fun j hj hs => ?_⟩,
      ⟨_, (Dict.get?_set _ _ _ _).trans (if_pos rfl), rfl⟩, fun j c' hj hgone => ?_⟩
    · obtain ⟨c', hc', hauto⟩ := h.spent j hj hs
      rcases eq_or_ne j id with rfl | hne
      · obtain rfl := Option.some.inj (hc.symm.trans hc')
        exact ⟨_, (Dict.get?_set _ _ _ _).trans (if_pos rfl), hauto⟩
      · exact ⟨c', (Dict.get?_set _ _ _ _).trans ((if_neg hne).trans hc'), hauto⟩
    · rw [Dict.get?_set] at hgone
      split at hgone
      · exact absurd hgone (by simp)
      · exact absurd (hgone.symm.trans hj) (by simp)
  · have hnone : w.cases.get? id = none := Option.not_isSome_iff_eq_none.mp hnew
    rw [wp_ite]
    refine ⟨fun hsize => ?_, fun hfull => ?_⟩
    · rw [wp_bind, insert, wp_modify, wp_pure, if_pos rfl]
      exact entered_insert h.toLoose hsize (h.stays hnone) fun j c _ hj hgone =>
        absurd (hgone.symm.trans hj) (by simp)
    · rcases hev : w.evictable with _ | k
      · rw [Option.elim_none, drop, wp_bind, wp_modify, wp_pure, if_neg (by simp)]
        exact ⟨⟨⟨h.few, h.isolations, h.spent⟩, h.pointed, h.shown⟩, rfl⟩
      · obtain ⟨c, hc, hfree⟩ := World.evictable_spec hev
        rw [Option.elim_some, wp_bind, evict, wp_modify, wp_bind, insert, wp_modify, wp_pure,
          if_pos rfl]
        refine entered_insert (loose_evict h.toLoose k)
          ((Dict.size_erase_lt (by rw [hc]; rfl)).trans_le h.few) (fun hs => ?_)
          fun j c' _ hj hgone => ?_
        · rcases hs.snoc with ⟨r, hr, -⟩ | ⟨hs, -⟩
          · exact absurd hr (by simp)
          · exact h.stays hnone hs
        · rw [Dict.get?_erase] at hgone
          split at hgone
          · rename_i hk
            subst hk
            obtain rfl := Option.some.inj (hc.symm.trans hj)
            exact hfree
          · exact absurd (hgone.symm.trans hj) (by simp)

omit [DecidableEq Rid] in
theorem kept_activate (h : Loose nowhere w) (hget : w.cases.get? id = some c) :
    wp (activate id) (fun _ w' => Kept nowhere w' ∧ w'.cases = w.cases) (fun _ _ => False) w := by
  rw [activate, wp_modify]
  split
  · rename_i hopen
    obtain ⟨c', hc', -⟩ := hopen
    obtain ⟨a, ha, hca⟩ := Option.bind_eq_some_iff.mp hc'
    refine ⟨⟨h, fun a' ha' => ?_, fun _ _ => by rw [ha]; rfl⟩, rfl⟩
    obtain rfl := Option.some.inj (ha.symm.trans ha')
    rw [hca]
    rfl
  · refine ⟨⟨⟨h.few, h.isolations, h.spent⟩, fun a ha => ?_, fun _ _ => rfl⟩, rfl⟩
    obtain rfl := Option.some.inj ha
    exact Option.isSome_iff_exists.mpr ⟨c, hget⟩

theorem kept_respond {i : Arrival Id Rid T} (h : Loose nowhere w)
    (hget : w.cases.get? id = some c) (hevidence : c.evidence = some e) (hfresh : e.Fresh i.now) :
    wp (respond i id) (fun _ => Kept nowhere) (fun _ => Kept nowhere) w := by
  rw [respond, wp_bind]
  refine wp_mono (kept_activate h hget) (fun _ w₁ hw₁ => ?_) fun _ _ hno => hno.elim
  obtain ⟨h₁, hcases⟩ := hw₁
  rw [wp_bind]
  refine wp_mono (wp_publish (hcases ▸ hget) hevidence _) (fun _ w₂ hf => ?_)
    fun _ _ hno => hno.elim
  have h₂ := h₁.frame hf
  obtain ⟨c₂, hc₂, -, hevidence₂⟩ := hf.found (hcases ▸ hget)
  have hlast : ∀ w₃ : World Id Rid T, Kept nowhere w₃ → wp (publishActive id i.shownActive)
      (fun _ => Kept nowhere) (fun _ => Kept nowhere) w₃ := fun _ h₃ =>
    kept_within (frame_publishActive _ _) h₃
  rw [wp_bind, wp_onCase]
  refine ⟨fun c₃ hc₃ => ?_, fun _ => hlast w₂ h₂⟩
  obtain rfl := Option.some.inj (hc₂.symm.trans hc₃)
  rw [wp_ite]
  refine ⟨fun hgo => ?_, fun _ => hlast w₂ h₂⟩
  obtain ⟨-, hlifted, hauto, hresolved⟩ := hgo
  exact wp_mono (kept_submitAuto i.answer h₂ hc₂ (hevidence₂.trans hevidence) hfresh
    (Bool.not_eq_true _ |>.mp hauto) (Bool.not_eq_true _ |>.mp hresolved) hlifted)
    (fun _ w₃ h₃ => hlast w₃ h₃) fun _ _ h₃ => h₃

/-! ### Receipts -/

omit [DecidableEq Rid] in
theorem kept_recoverCase (h : Kept nowhere w) (id : Id) (receipts : List (Record Id)) :
    wp (recoverCase id receipts) (fun room w' => Kept nowhere w' ∧
        (room = true → (w'.cases.get? id).isSome = true)) (fun _ _ => False) w := by
  rw [recoverCase, wp_bind, wp_read, wp_ite]
  refine ⟨fun hsome => ⟨h, fun _ => hsome⟩, fun hnew => ?_⟩
  have hnone : w.cases.get? id = none := Option.not_isSome_iff_eq_none.mp hnew
  rw [wp_ite]
  refine ⟨fun _ => ⟨h, fun hno => absurd hno (by simp)⟩, fun hroom => ?_⟩
  rw [wp_bind, insert, wp_modify, wp_bind, note, wp_modify, wp_bind, wp_modify, wp_pure]
  have hloose : Loose nowhere { w with
      cases := w.cases.set id (recovered receipts)
      log := w.log ++ [.moved id (recovered receipts : Case T).containment
        (.receipts (receipts.any Record.active))] } :=
    (loose_insert h.toLoose (Nat.not_le.mp hroom) (h.stays hnone) _).frame
      ⟨fun _ => rfl, rfl, rfl, _, rfl, fun _ he => List.mem_singleton.mp he ▸ trivial⟩
  have hhere : ((w.cases.set id (recovered receipts)).get? id).isSome = true := by
    rw [Dict.get?_set, if_pos rfl]
    rfl
  split
  · refine ⟨⟨⟨hloose.few, hloose.isolations, hloose.spent⟩, fun a ha => ?_, fun _ _ => rfl⟩,
      fun _ => hhere⟩
    obtain rfl := Option.some.inj ha
    exact hhere
  · rename_i hactive
    refine ⟨⟨⟨hloose.few, hloose.isolations, hloose.spent⟩, fun b hb => ?_, fun _ _ => ?_⟩,
      fun _ => hhere⟩
    swap
    · rcases ha : w.active with _ | a
      · exact absurd (by rw [ha]; rfl) hactive
      · rfl
    have hsome := h.pointed b hb
    change ((w.cases.set id _).get? b).isSome = true
    rw [Dict.get?_set]
    split
    · rfl
    · exact hsome

/-- The cases with an active receipt are in the map. -/
abbrev Found (found : List Id) (w : World Id Rid T) : Prop :=
  ∀ id ∈ found, (w.cases.get? id).isSome = true

/-- No key is lost. -/
def Grows (w w' : World Id Rid T) : Prop :=
  ∀ id, (w.cases.get? id).isSome = true → (w'.cases.get? id).isSome = true

instance : IsPreorder (World Id Rid T) Grows where
  refl _ _ h := h
  trans _ _ _ h h' id hid := h' id (h id hid)

omit [Field T] [LinearOrder T] [DecidableEq Rid] in
theorem grows_of_frame {α : Type} {m : Deed Id Rid T α} (h : Within Frame m) : Within Grows m :=
  h.mono fun _ _ hf id hid => (hf.isSome id).trans hid

omit [Field T] [LinearOrder T] [DecidableEq Rid] in
theorem grows_aside {f : World Id Rid T → World Id Rid T} (hcases : ∀ w, (f w).cases = w.cases) :
    Within Grows (modify f : Deed Id Rid T Unit) :=
  Within.modify fun w id hid => by rwa [hcases w]

omit [Field T] [LinearOrder T] [DecidableEq Rid] in
theorem grows_edit (id : Id) (f : Case T → Case T) :
    Within Grows (edit id f : Deed Id Rid T Unit) := by
  intro w
  refine wp_state (wp_onCase.mpr ⟨fun c hc j hj => ?_, fun _ => refl_of Grows w⟩)
  change ((w.cases.set id (f c)).get? j).isSome = true
  rw [Dict.get?_set]
  split
  · rfl
  · exact hj

theorem grows_submitAuto (j : Judged Id T) (a : Answer Rid T) :
    Within Grows (submitAuto id j a) := by
  rw [submitAuto]
  refine Within.bind ?_ fun _ => grows_edit _ _
  rw [submit]
  refine Within.ite (fun _ => Within.pure _) fun _ => within_onCase fun c => ?_
  refine Within.bind ?_ fun _ => Within.bind ?_ fun _ => Within.bind ?_ fun _ => Within.pure _
  · exact Within.elim (Within.pure ()) fun _ => grows_aside fun _ => rfl
  · exact grows_of_frame (frame_answered _ _ _ _)
  · exact grows_of_frame (frame_publish _ _)

theorem grows_respond (i : Arrival Id Rid T) (id : Id) : Within Grows (respond i id) := by
  rw [respond]
  refine Within.bind ?_ fun _ => Within.bind ?_ fun _ => Within.bind ?_ fun _ => ?_
  · refine grows_aside fun w => ?_
    split <;> rfl
  · exact grows_of_frame (frame_publish _ _)
  · exact within_onCase fun c => Within.ite (fun _ => grows_submitAuto _ _) fun _ => Within.pure ()
  · exact grows_of_frame (frame_publishActive _ _)

omit [Field T] [LinearOrder T] [DecidableEq Rid] in
theorem grows_recoverCase (id : Id) (receipts : List (Record Id)) :
    Within Grows (recoverCase id receipts : Deed Id Rid T Bool) := by
  rw [recoverCase]
  refine Within.read.bind fun w => Within.ite (fun _ => Within.pure _) fun _ =>
    Within.ite (fun _ => Within.pure _) fun _ => ?_
  refine Within.bind ?_ fun _ => Within.bind ?_ fun _ => Within.bind ?_ fun _ => Within.pure _
  · refine Within.modify fun w j hj => ?_
    change ((w.cases.set id _).get? j).isSome = true
    rw [Dict.get?_set]
    split
    · rfl
    · exact hj
  · exact grows_aside fun _ => rfl
  · refine grows_aside fun w => ?_
    split <;> rfl

omit [DecidableEq Rid] in
theorem grows_syncGroups (i : Sync Id T) (groups : List (Id × List (Record Id))) :
    ∀ found, Within Grows (syncGroups i groups found : Deed Id Rid T _) := by
  induction groups with
  | nil => exact fun _ => Within.pure _
  | cons g groups ih =>
    intro found
    rw [syncGroups]
    refine Within.ite (fun _ => Within.pure _) fun _ => (grows_recoverCase _ _).bind fun room =>
      Within.ite (fun _ => ?_) fun _ => ih _
    exact (grows_of_frame (frame_reviewReceipts _ _ _)).bind fun _ => ih _

omit [DecidableEq Rid] in
theorem grows_syncReceipts (i : Sync Id T) :
    Within Grows (syncReceipts i : Deed Id Rid T Unit) := by
  rw [syncReceipts]
  refine Within.read.bind fun w => Within.ite (fun _ => Within.pure _) fun _ => ?_
  refine Within.bind (grows_aside fun _ => rfl) fun _ => Within.ite (fun _ => ?_) fun _ =>
    Within.pure ()
  refine (grows_syncGroups i _ _).bind fun found => Within.elim (Within.pure ()) fun found => ?_
  rw [showReceipt]
  refine Within.elim (Within.pure ()) fun id => Within.read.bind fun w =>
    Within.ite (fun _ => Within.pure ()) fun _ => Within.bind ?_ fun _ => ?_
  · exact grows_aside fun _ => rfl
  · exact grows_of_frame (frame_publish _ _)

omit [DecidableEq Rid] in
theorem kept_syncGroups (i : Sync Id T) (groups : List (Id × List (Record Id))) :
    ∀ (w : World Id Rid T) (found : List Id), Kept nowhere w → Found found w →
      wp (syncGroups i groups found)
        (fun found w' => Kept nowhere w' ∧ ∀ ids, found = some ids → Found ids w')
        (fun _ => Kept nowhere) w := by
  induction groups with
  | nil =>
    intro w found h hfound
    refine ⟨h, fun ids hids => ?_⟩
    exact Option.some.inj hids ▸ hfound
  | cons g groups ih =>
    obtain ⟨id, receipts⟩ := g
    intro w found h hfound
    rw [syncGroups, wp_ite]
    refine ⟨fun _ => ⟨h, fun ids hids => absurd hids (by simp)⟩, fun _ => ?_⟩
    rw [wp_bind]
    refine wp_mono (wp_and (kept_recoverCase h id receipts) ((grows_recoverCase id receipts).wp w))
      (fun room w₁ hw₁ => ?_) fun _ _ hno => hno.1.elim
    obtain ⟨⟨h₁, hhere⟩, hgrows⟩ := hw₁
    have hfound₁ : Found found w₁ := fun j hj => hgrows j (hfound j hj)
    rw [wp_ite]
    refine ⟨fun hroom => ?_, fun _ => ih w₁ found h₁ hfound₁⟩
    rw [wp_bind]
    refine wp_mono ((frame_reviewReceipts i id receipts).wp w₁) (fun _ w₂ hf => ?_)
      fun _ _ hf => h₁.frame hf
    refine ih w₂ _ (h₁.frame hf) fun j hj => ?_
    have hin : (w₁.cases.get? j).isSome = true := by
      split at hj
      · rcases List.mem_append.mp hj with hj | hj
        · exact hfound₁ j hj
        · exact List.mem_singleton.mp hj ▸ hhere hroom
      · exact hfound₁ j hj
    exact (hf.isSome j).trans hin

omit [DecidableEq Rid] in
theorem kept_syncReceipts (i : Sync Id T) (h : Kept nowhere w) :
    wp (syncReceipts i) (fun _ => Kept nowhere) (fun _ => Kept nowhere) w := by
  rw [syncReceipts, wp_bind, wp_read, wp_ite]
  refine ⟨fun _ => h, fun _ => ?_⟩
  rw [wp_bind, wp_modify, wp_ite]
  have h₁ : Kept nowhere { w with lastSync := i.synced } :=
    ⟨⟨h.few, h.isolations, h.spent⟩, h.pointed, h.shown⟩
  refine ⟨fun _ => ?_, fun _ => h₁⟩
  rw [wp_bind]
  refine wp_mono (kept_syncGroups i _ _ [] h₁ fun _ hid => absurd hid List.not_mem_nil)
    (fun found w₂ hw₂ => ?_) fun _ _ h₂ => h₂
  obtain ⟨h₂, hfound⟩ := hw₂
  rcases found with _ | ids
  · exact h₂
  · rw [Option.elim_some, showReceipt]
    rcases ids with _ | ⟨id, ids⟩
    · exact h₂
    · rw [List.head?_cons, Option.elim_some, wp_bind, wp_read, wp_ite]
      refine ⟨fun _ => h₂, fun _ => ?_⟩
      rw [wp_bind, wp_modify]
      refine kept_within (frame_publish _ _) ⟨⟨h₂.few, h₂.isolations, h₂.spent⟩, fun a ha => ?_,
        fun _ _ => rfl⟩
      obtain rfl := Option.some.inj ha
      exact hfound _ rfl _ List.mem_cons_self

/-! ### Runs -/

omit [Field T] [LinearOrder T] in
theorem World.Spares.grows {w₀ : World Id Rid T} (h : w₀.Spares w) (hg : Grows w w') :
    w₀.Spares w' := by
  intro id c hc hgone
  refine h id c hc (Option.not_isSome_iff_eq_none.mp fun hsome => ?_)
  exact absurd (hg id hsome) (by rw [hgone]; simp)

omit [Field T] [LinearOrder T] in
theorem spares_of_grows (h : Grows w w') : w.Spares w' := by
  intro id c hc hgone
  exact absurd (h id (by rw [hc]; rfl)) (by rw [hgone]; simp)

theorem kept_acceptEvent (i : Arrival Id Rid T) (h : Kept nowhere w) :
    wp (acceptEvent i) (fun _ w' => Kept nowhere w' ∧ w.Spares w')
      (fun _ w' => Kept nowhere w' ∧ w.Spares w') w := by
  have hstay : w.Spares w := spares_of_grows (refl_of Grows w)
  rw [acceptEvent, wp_ite]
  refine ⟨fun _ => ⟨h, hstay⟩, fun _ => ?_⟩
  rcases i.found with _ | ⟨id, e⟩
  · exact ⟨h, hstay⟩
  · rw [Option.elim_some, wp_ite]
    refine ⟨fun hfresh => ?_, fun _ => ⟨h, hstay⟩⟩
    rw [wp_bind]
    refine wp_mono (entered_enter h) (fun kept w₁ h₁ => ?_) fun _ _ hno => hno.elim
    rcases kept with _ | _
    · rw [if_neg (by simp)] at h₁ ⊢
      refine ⟨h₁.1, fun j c hj hgone => ?_⟩
      exact absurd ((h₁.2 ▸ hgone : w.cases.get? j = none).symm.trans hj) (by simp)
    · rw [if_pos rfl] at h₁ ⊢
      obtain ⟨c, hc, hevidence⟩ := h₁.here
      refine wp_mono (wp_and (kept_respond h₁.toLoose hc hevidence hfresh)
        ((grows_respond i id).wp w₁)) (fun _ w₂ h₂ => ⟨h₂.1, h₁.spares.grows h₂.2⟩)
        fun _ w₂ h₂ => ⟨h₂.1, h₁.spares.grows h₂.2⟩

theorem kept_exec (op : Op Id Rid T) (h : Kept nowhere w) :
    Kept nowhere (w.exec op) ∧ w.Spares (w.exec op) := by
  have hframe : ∀ m : Deed Id Rid T Unit, Within Frame m →
      Kept nowhere (m w).2 ∧ w.Spares (m w).2 := fun m hm =>
    ⟨h.frame (hm w), spares_of_grows ((grows_of_frame hm) w)⟩
  rcases op with ⟨id, action, stopped⟩ | ⟨a, d⟩ | i | ⟨rid, worker, answer, d⟩ | i | ⟨id, i⟩
  · exact hframe _ (frame_requestAction id action stopped)
  · exact hframe _ (frame_processRequest a d)
  · exact wp_state (kept_acceptEvent i h)
  · exact hframe _ (frame_syncResult rid worker answer d)
  · exact ⟨wp_state (kept_syncReceipts i h), spares_of_grows (grows_syncReceipts i w)⟩
  · refine ⟨wp_state (kept_retryIsolation i h), spares_of_grows ?_⟩
    have hretry : Within Grows (retryIsolation id i : Deed Id Rid T Unit) := by
      rw [retryIsolation]
      exact within_onCase fun c => Within.elim (Within.pure ()) fun e =>
        Within.ite (fun _ => grows_submitAuto _ _) fun _ => Within.pure ()
    exact hretry w

omit [DecidableEq Rid] in
theorem kept_start : Kept nowhere (World.start : World Id Rid T) where
  few := Nat.zero_le _
  isolations := ⟨fun _ _ hr => absurd hr List.not_mem_nil, fun _ _ _ _ _ heq =>
    absurd heq (by simp [World.start])⟩
  spent _ _ hs := by
    obtain ⟨_, _, _, heq, -⟩ := hs
    exact absurd heq (by simp [World.start])
  pointed _ ha := absurd ha (by simp [World.start])
  shown _ hid := absurd hid (by simp [World.start])

theorem kept_after (ops : List (Op Id Rid T)) : Kept nowhere (World.after ops) := by
  induction ops using List.reverseRecOn with
  | nil => exact kept_start
  | append_singleton ops op ih => exact World.after_snoc ops op ▸ (kept_exec op ih).1

/-- CORRECT: after every history the map is bounded, the active case is in it, the automatic
    isolations were justified and admitted once, and no next step removes a pending or restricted
    case. A pass of `process_once`, wherever it stops, only makes the history longer. -/
theorem after_bounded (ops : List (Op Id Rid T)) : (World.after ops).Bounded ∧
    Isolations (World.after ops).log ∧
    (∀ op, (World.after ops).Spares ((World.after ops).exec op)) ∧
    ∀ i, ∃ ops', (processOnce i (World.after ops)).2 = World.after (ops ++ ops') := by
  have hkept := kept_after ops
  refine ⟨⟨hkept.few, fun id hid => ?_⟩, hkept.isolations, fun op => (kept_exec op hkept).2,
    fun i => ?_⟩
  · obtain ⟨a, ha⟩ := Option.isSome_iff_exists.mp (hkept.shown id hid)
    exact ⟨a, ha, hkept.pointed a ha⟩
  · obtain ⟨ops', hops⟩ := processOnce_reaches i (World.after ops)
    exact ⟨ops', hops.trans (List.foldl_append).symm⟩

end Invariant

end Angerona.Breach
