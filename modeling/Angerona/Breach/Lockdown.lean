import Angerona.Breach.Cases
import Mathlib.Algebra.Field.Rat
import Mathlib.Algebra.Order.Ring.Rat

/-!
    Lockdowns of the breach review.

    A containment that was `locked-down` or `unknown` may be in force until a lift or a receipt says
    otherwise, also while another isolation is requested: `mark` follows this along the history.
    `_sync_results` overwrites it with the result of any isolation, `_submit` drops it when a request
    is refused, and results and receipts restrict a case that is resolved. `quiet_honest` says that
    nothing else goes wrong. -/

namespace Angerona.Breach
open Effect Transition

variable {Id Rid T : Type} [DecidableEq Id]

/-! ### What may be in force -/

inductive Mark where
  | free
  /-- `locked-down` or `unknown`. -/
  | standing
  /-- `requested` since then. -/
  | pressed
  deriving DecidableEq

def Mark.next (m : Mark) (c : Containment) : Mark :=
  if c.standing then .standing
  else if c = .requested ∧ m ≠ .free then .pressed
  else .free

/-- One event, as far as the case is concerned. -/
def Event.mark (id : Id) (m : Mark) : Event Id Rid T → Mark
  | .moved j next _ => if j = id then m.next next else m
  | .evicted j => if j = id then .free else m
  | .asked _ => m
  | .published _ => m

/-- Whether a lockdown of the case may be in force after this history. -/
def mark (log : List (Event Id Rid T)) (id : Id) : Mark := log.foldl (Event.mark id) .free

theorem mark_snoc (log : List (Event Id Rid T)) (e : Event Id Rid T) (id : Id) :
    mark (log ++ [e]) id = e.mark id (mark log id) := List.foldl_concat ..

/-- A lockdown that may be in force is left by a lift or by receipts only, and nothing that is
    resolved is restricted, in the map or on display. -/
structure World.Honest (w : World Id Rid T) : Prop where
  leaves : ∀ before id next cause after, w.log = before ++ .moved id next cause :: after →
    mark before id ≠ .free → next.restricted = false →
      cause = .result .liftLockdown .lifted ∨ cause = .receipts false
  marked : ∀ id c, w.cases.get? id = some c → c.containment.standing = true →
    mark w.log id = .standing
  resolved : ∀ id c, w.cases.get? id = some c → c.resolved = true → c.containment.restricted = false
  published : ∀ s, .published s ∈ w.log → s.active = false → s.containment.restricted = false
  snapshot : w.snapshot.active = false → w.snapshot.containment.restricted = false

/-! ### The condition -/

/-- A request for a case whose lockdown may be in force behind a requested one is admitted. -/
def World.Firm (w : World Id Rid T) (id : Id) (a : Answer Rid T) : Prop :=
  a.stopped = false → mark w.log id = .pressed → a.worker = some true

/-- The case, if there is one, is not resolved. -/
def World.Open (w : World Id Rid T) (id : Id) : Prop :=
  ∀ c, w.cases.get? id = some c → c.resolved = false

section Condition

variable [DecidableEq Rid]

/-- No failed isolation and no refused request reaches a case whose lockdown may be in force, and
    nothing restricts a resolved case. -/
def World.Quiet (w : World Id Rid T) : Op Id Rid T → Prop
  | .request .. => True
  | .process a _ => ∀ id action reviewed, w.requests.head? = some (id, action, reviewed) → w.Firm id a
  | .accept i => ∀ id e, i.found = some (id, e) → w.Firm id i.answer
  | .result rid _ answer _ => ∀ id action r, w.pending.get? rid = some (id, action) →
      answer = some r →
        (action = .isolate → r.containment = .held → mark w.log id = .free) ∧
        (action = .isolate → r.containment.standing = true → w.Open id) ∧
        (action = .liftLockdown → r = .unknown → w.Open id)
  | .receipts i => ∀ id receipts, (grouped i.records).get? id = some receipts →
      receipts.any Record.active = true → w.Open id
  | .retry id i => w.Firm id i.answer

end Condition

/-! ### The invariant -/

/-- The marks say what the containments say. -/
structure Marked (w : World Id Rid T) : Prop extends w.Honest where
  stands : ∀ id, mark w.log id = .standing →
    ∃ c, w.cases.get? id = some c ∧ c.containment.standing = true
  pressed : ∀ id, mark w.log id = .pressed →
    ∃ c, w.cases.get? id = some c ∧ c.containment = .requested

section Steps

variable {w w' : World Id Rid T} {id : Id} {c : Case T}

theorem leaves_snoc {log : List (Event Id Rid T)} {e : Event Id Rid T}
    (h : ∀ before id next cause after, log = before ++ .moved id next cause :: after →
      mark before id ≠ .free → next.restricted = false →
        cause = .result .liftLockdown .lifted ∨ cause = .receipts false)
    (he : ∀ id next cause, e = .moved id next cause → mark log id ≠ .free →
      next.restricted = false → cause = .result .liftLockdown .lifted ∨ cause = .receipts false) :
    ∀ before id next cause after, log ++ [e] = before ++ .moved id next cause :: after →
      mark before id ≠ .free → next.restricted = false →
        cause = .result .liftLockdown .lifted ∨ cause = .receipts false := by
  intro before id next cause after heq hmark hnext
  rcases List.eq_nil_or_concat after with rfl | ⟨after', z, rfl⟩
  · obtain ⟨rfl, hmoved⟩ := List.append_inj' heq rfl
    exact he id next cause (List.singleton_inj.mp hmoved) hmark hnext
  · rw [List.concat_eq_append, ← List.cons_append, ← List.append_assoc] at heq
    exact h before id next cause after' (List.append_inj' heq rfl).1 hmark hnext

/-- A containment is written. -/
theorem Marked.moved (h : Marked w) {next : Containment} {cause : Cause} {c' : Case T}
    (hnext : c'.containment = next)
    (hleaves : mark w.log id ≠ .free → next.restricted = false →
      cause = .result .liftLockdown .lifted ∨ cause = .receipts false)
    (hopen : next.restricted = true → c'.resolved = false) :
    Marked { w with cases := w.cases.set id c', log := w.log ++ [.moved id next cause] } := by
  have hself : ∀ j, j = id → mark (w.log ++ [.moved id next cause]) j = (mark w.log j).next next := by
    rintro j rfl
    rw [mark_snoc, Event.mark, if_pos rfl]
  have hother : ∀ j, j ≠ id → mark (w.log ++ [.moved id next cause]) j = mark w.log j := by
    intro j hj
    rw [mark_snoc, Event.mark, if_neg (Ne.symm hj)]
  have hget : ∀ j, j ≠ id → (w.cases.set id c').get? j = w.cases.get? j := fun j hj => by
    rw [Dict.get?_set, if_neg hj]
  have hhere : (w.cases.set id c').get? id = some c' := by rw [Dict.get?_set, if_pos rfl]
  refine ⟨⟨leaves_snoc h.leaves fun j n cause' he hm hn => ?_, fun j c hc hs => ?_,
    fun j c hc hr => ?_, fun s hs => ?_, h.snapshot⟩, fun j hj => ?_, fun j hj => ?_⟩
  · obtain ⟨rfl, rfl, rfl⟩ := Event.moved.inj he
    exact hleaves hm hn
  · rcases eq_or_ne j id with rfl | hne
    · obtain rfl := Option.some.inj (hhere.symm.trans hc)
      rw [hself j rfl, Mark.next, ← hnext, if_pos hs]
    · exact (hother j hne).trans (h.marked j c (hget j hne ▸ hc) hs)
  · rcases eq_or_ne j id with rfl | hne
    · obtain rfl := Option.some.inj (hhere.symm.trans hc)
      rcases hrestricted : next.restricted with _ | _
      · rw [hnext, hrestricted]
      · exact absurd (hr.symm.trans (hopen hrestricted)) (by simp)
    · exact h.resolved j c (hget j hne ▸ hc) hr
  · rcases List.mem_append.mp hs with hs | hs
    · exact h.published s hs
    · exact absurd (List.mem_singleton.mp hs) (by simp)
  · rcases eq_or_ne j id with rfl | hne
    · refine ⟨c', hhere, ?_⟩
      rw [hself j rfl, Mark.next] at hj
      rw [hnext]
      split at hj
      · rename_i hstands
        exact hstands
      · split at hj <;> exact absurd hj (by simp)
    · obtain ⟨c, hc, hs⟩ := h.stands j ((hother j hne).symm.trans hj)
      exact ⟨c, (hget j hne).trans hc, hs⟩
  · rcases eq_or_ne j id with rfl | hne
    · refine ⟨c', hhere, ?_⟩
      rw [hself j rfl, Mark.next] at hj
      rw [hnext]
      split at hj
      · exact absurd hj (by simp)
      · split at hj
        · rename_i hpressed
          exact hpressed.1
        · exact absurd hj (by simp)
    · obtain ⟨c, hc, hs⟩ := h.pressed j ((hother j hne).symm.trans hj)
      exact ⟨c, (hget j hne).trans hc, hs⟩

theorem Marked.unseen (h : Marked w) (hnone : w.cases.get? id = none) : mark w.log id = .free := by
  rcases hm : mark w.log id with _ | _ | _
  · rfl
  · obtain ⟨c, hc, -⟩ := h.stands id hm
    exact absurd (hnone.symm.trans hc) (by simp)
  · obtain ⟨c, hc, -⟩ := h.pressed id hm
    exact absurd (hnone.symm.trans hc) (by simp)

/-- An operator resolves a case that is not restricted. -/
theorem Marked.resolve (h : Marked w) (hget : w.cases.get? id = some c)
    (hfree : c.containment.restricted = false) :
    Marked { w with cases := w.cases.set id { c with resolved := true } } := by
  have hother : ∀ j c', (w.cases.set id { c with resolved := true }).get? j = some c' →
      ∃ c'', w.cases.get? j = some c'' ∧ c'.containment = c''.containment ∧
        (c'.resolved = true → c'.containment.restricted = false) := by
    intro j c' hc'
    rw [Dict.get?_set] at hc'
    split at hc'
    · rename_i hj
      obtain rfl := Option.some.inj hc'
      exact ⟨c, hj ▸ hget, rfl, fun _ => hfree⟩
    · exact ⟨c', hc', rfl, h.resolved j c' hc'⟩
  have hkept : ∀ (j : Id) (p : Containment → Prop), (∃ c', w.cases.get? j = some c' ∧
      p c'.containment) → ∃ c', (w.cases.set id { c with resolved := true }).get? j = some c' ∧
        p c'.containment := by
    rintro j p ⟨c', hc', hp⟩
    rw [Dict.get?_set]
    split
    · rename_i hj
      subst hj
      obtain rfl := Option.some.inj (hget.symm.trans hc')
      exact ⟨_, rfl, hp⟩
    · exact ⟨c', hc', hp⟩
  refine ⟨⟨h.leaves, fun j c' hc' hs => ?_, fun j c' hc' => ?_, h.published, h.snapshot⟩,
    fun j hj => hkept j (·.standing = true) (h.stands j hj),
    fun j hj => hkept j (· = .requested) (h.pressed j hj)⟩
  · obtain ⟨c'', hc'', hsame, -⟩ := hother j c' hc'
    exact h.marked j c'' hc'' (hsame ▸ hs)
  · obtain ⟨-, -, -, hres⟩ := hother j c' hc'
    exact hres

theorem Result.containment_held {r : Result} (h : r.containment.restricted = false) :
    r.containment = .held := by
  rcases r with ⟨_ | _⟩ | _ | _ | _ <;> first | rfl | exact absurd h (by decide)

theorem Result.containment_standing {r : Result} (h : r.containment.restricted = true) :
    r.containment.standing = true := by
  rcases r with ⟨_ | _⟩ | _ | _ | _ <;> first | rfl | exact absurd h (by decide)

/-! ### Steps that write no containment -/

/-- Containments, resolutions and the display stay; only requests enter the history. -/
structure Still (w w' : World Id Rid T) : Prop where
  cases : ∀ id, (w'.cases.get? id).map (fun c => (c.containment, c.resolved)) =
    (w.cases.get? id).map fun c => (c.containment, c.resolved)
  snapshot : w'.snapshot = w.snapshot
  log : ∃ new, w'.log = w.log ++ new ∧ ∀ e ∈ new, ∃ r, e = .asked r

theorem still_of_log (hcases : ∀ id, (w'.cases.get? id).map (fun c => (c.containment, c.resolved)) =
      (w.cases.get? id).map fun c => (c.containment, c.resolved))
    (hsnapshot : w'.snapshot = w.snapshot) (hlog : w'.log = w.log) : Still w w' :=
  ⟨hcases, hsnapshot, [], hlog.trans (List.append_nil _).symm, fun _ he => absurd he List.not_mem_nil⟩

instance : IsPreorder (World Id Rid T) Still where
  refl _ := still_of_log (fun _ => rfl) rfl rfl
  trans _ _ _ h h' := by
    obtain ⟨new, hnew, hasked⟩ := h.log
    obtain ⟨new', hnew', hasked'⟩ := h'.log
    refine ⟨fun id => (h'.cases id).trans (h.cases id), h'.snapshot.trans h.snapshot, new ++ new',
      ?_, fun e he => (List.mem_append.mp he).elim (hasked e) (hasked' e)⟩
    rw [hnew', hnew, List.append_assoc]

theorem mark_asked {log new : List (Event Id Rid T)} (hnew : ∀ e ∈ new, ∃ r, e = .asked r) (id : Id) :
    mark (log ++ new) id = mark log id := by
  induction new using List.reverseRecOn with
  | nil => rw [List.append_nil]
  | append_singleton new e ih =>
    obtain ⟨r, rfl⟩ := hnew e (List.mem_append_right _ List.mem_cons_self)
    rw [← List.append_assoc, mark_snoc]
    exact ih fun e he => hnew e (List.mem_append_left _ he)

theorem leaves_asked {log new : List (Event Id Rid T)} (hnew : ∀ e ∈ new, ∃ r, e = .asked r)
    (h : ∀ before id next cause after, log = before ++ .moved id next cause :: after →
      mark before id ≠ .free → next.restricted = false →
        cause = .result .liftLockdown .lifted ∨ cause = .receipts false) :
    ∀ before id next cause after, log ++ new = before ++ .moved id next cause :: after →
      mark before id ≠ .free → next.restricted = false →
        cause = .result .liftLockdown .lifted ∨ cause = .receipts false := by
  induction new using List.reverseRecOn with
  | nil => rwa [List.append_nil]
  | append_singleton new e ih =>
    obtain ⟨r, rfl⟩ := hnew e (List.mem_append_right _ List.mem_cons_self)
    rw [← List.append_assoc]
    exact leaves_snoc (ih fun e he => hnew e (List.mem_append_left _ he))
      fun _ _ _ he => absurd he (by simp)

theorem Still.found (hs : Still w w') (hget : w.cases.get? id = some c) : ∃ c',
    w'.cases.get? id = some c' ∧ c'.containment = c.containment ∧ c'.resolved = c.resolved := by
  have hcase := hs.cases id
  rw [hget, Option.map_some] at hcase
  obtain ⟨c', hc', heq⟩ := Option.map_eq_some_iff.mp hcase
  exact ⟨c', hc', congrArg Prod.fst heq, congrArg Prod.snd heq⟩

theorem Still.before (hs : Still w w') {c' : Case T} (hget : w'.cases.get? id = some c') : ∃ c,
    w.cases.get? id = some c ∧ c'.containment = c.containment ∧ c'.resolved = c.resolved := by
  have hcase := hs.cases id
  rw [hget, Option.map_some] at hcase
  obtain ⟨c, hc, heq⟩ := Option.map_eq_some_iff.mp hcase.symm
  exact ⟨c, hc, (congrArg Prod.fst heq).symm, (congrArg Prod.snd heq).symm⟩

theorem Still.mark (hs : Still w w') (id : Id) : mark w'.log id = mark w.log id := by
  obtain ⟨new, hlog, hasked⟩ := hs.log
  rw [hlog, mark_asked hasked]

theorem Marked.still (h : Marked w) (hs : Still w w') : Marked w' := by
  obtain ⟨new, hlog, hasked⟩ := hs.log
  refine ⟨⟨hlog ▸ leaves_asked hasked h.leaves, fun j c' hc' hstands => ?_, fun j c' hc' hr => ?_,
    fun s hin => ?_, hs.snapshot ▸ h.snapshot⟩, fun j hj => ?_, fun j hj => ?_⟩
  · obtain ⟨c, hc, hsame, -⟩ := hs.before hc'
    exact (hs.mark j).trans (h.marked j c hc (hsame ▸ hstands))
  · obtain ⟨c, hc, hsame, hres⟩ := hs.before hc'
    exact hsame ▸ h.resolved j c hc (hres ▸ hr)
  · rw [hlog] at hin
    rcases List.mem_append.mp hin with hin | hin
    · exact h.published s hin
    · obtain ⟨r, hr⟩ := hasked _ hin
      exact absurd hr (by simp)
  · obtain ⟨c, hc, hstands⟩ := h.stands j ((hs.mark j).symm.trans hj)
    obtain ⟨c', hc', hsame, -⟩ := hs.found hc
    exact ⟨c', hc', hsame ▸ hstands⟩
  · obtain ⟨c, hc, hreq⟩ := h.pressed j ((hs.mark j).symm.trans hj)
    obtain ⟨c', hc', hsame, -⟩ := hs.found hc
    exact ⟨c', hc', hsame.trans hreq⟩

theorem still_edit {f : Case T → Case T}
    (h : ∀ c, ((f c).containment, (f c).resolved) = (c.containment, c.resolved)) :
    Within Still (edit id f : Deed Id Rid T Unit) := by
  intro w
  refine wp_state (wp_onCase.mpr ⟨fun c hc => ?_, fun _ => refl_of Still w⟩)
  refine still_of_log (fun j => ?_) rfl rfl
  change ((w.cases.set id (f c)).get? j).map _ = _
  rw [Dict.get?_set]
  split
  · rename_i hj
    rw [hj, hc, Option.map_some, Option.map_some, h]
  · rfl

theorem still_aside {f : World Id Rid T → World Id Rid T} (hcases : ∀ w, (f w).cases = w.cases)
    (hsnapshot : ∀ w, (f w).snapshot = w.snapshot) (hlog : ∀ w, (f w).log = w.log) :
    Within Still (modify f : Deed Id Rid T Unit) :=
  Within.modify fun w => still_of_log (fun _ => by rw [hcases w]) (hsnapshot w) (hlog w)

theorem still_asked (r : Request Id Rid T) : Within Still (note (.asked r) : Deed Id Rid T Unit) :=
  Within.modify fun _ => ⟨fun _ => rfl, rfl, [.asked r], rfl, fun _ he => ⟨r, List.mem_singleton.mp he⟩⟩

/-- A deed that writes no containment. -/
theorem marked_within {α : Type} {m : Deed Id Rid T α} (hm : Within Still m) (h : Marked w) :
    wp m (fun _ => Marked) (fun _ => Marked) w :=
  wp_mono (hm.wp w) (fun _ _ => h.still) fun _ _ => h.still

theorem marked_contain (h : Marked w) {next : Containment} {cause : Cause}
    (hleaves : mark w.log id ≠ .free → next.restricted = false →
      cause = .result .liftLockdown .lifted ∨ cause = .receipts false)
    (hopen : next.restricted = true → w.Open id) :
    wp (contain id next cause) (fun _ => Marked) (fun _ => Marked) w := by
  rw [contain, wp_onCase]
  exact ⟨fun c hc => h.moved rfl hleaves fun hn => hopen hn c hc, fun _ => h⟩

/-- A containment that restricts is written to an open case. -/
theorem marked_restrict (h : Marked w) {next : Containment} (hnext : next.restricted = true)
    (hopen : w.Open id) (cause : Cause) :
    wp (contain id next cause) (fun _ => Marked) (fun _ => Marked) w :=
  marked_contain h (fun _ hn => absurd (hnext.symm.trans hn) (by simp)) fun _ => hopen

/-! ### The display -/

/-- A case that is published. -/
theorem Marked.publish (h : Marked w) (hget : w.cases.get? id = some c) {s : Snapshot Id}
    (hactive : s.active = !c.resolved) (hsame : s.containment = c.containment)
    (published : List Id) : Marked { w with
      published, snapshot := s, log := w.log ++ [.published s] } := by
  have hmark : ∀ j, mark (w.log ++ [.published s]) j = mark w.log j := fun j => mark_snoc _ _ _
  have hshown : s.active = false → s.containment.restricted = false := by
    intro hoff
    rw [hsame]
    refine h.resolved id c hget ?_
    rw [hactive] at hoff
    simpa using hoff
  refine ⟨⟨leaves_snoc h.leaves fun _ _ _ he => absurd he (by simp),
    fun j c' hc' hs => (hmark j).trans (h.marked j c' hc' hs), h.resolved, fun s' hs' => ?_, hshown⟩,
    fun j hj => h.stands j ((hmark j).symm.trans hj),
    fun j hj => h.pressed j ((hmark j).symm.trans hj)⟩
  rcases List.mem_append.mp hs' with hs' | hs'
  · exact h.published s' hs'
  · obtain rfl := Event.published.inj (List.mem_singleton.mp hs')
    exact hshown

/-- No mark becomes pressed. -/
def Calm (w w' : World Id Rid T) : Prop :=
  ∀ id, mark w'.log id = .pressed → mark w.log id = .pressed

instance : IsPreorder (World Id Rid T) Calm where
  refl _ _ h := h
  trans _ _ _ h h' id hp := h id (h' id hp)

theorem Still.calm (h : Still w w') : Calm w w' := fun id hp => (h.mark id).symm.trans hp

/-- No case becomes resolved. -/
def Opens (w w' : World Id Rid T) : Prop := ∀ id, w.Open id → w'.Open id

instance : IsPreorder (World Id Rid T) Opens where
  refl _ _ h := h
  trans _ _ _ h h' id ho := h' id (h id ho)

theorem Still.opens (h : Still w w') : Opens w w' := by
  intro id ho c' hc'
  obtain ⟨c, hc, -, hres⟩ := h.before hc'
  exact hres.trans (ho c hc)

theorem opens_set {c' : Case T} {log : List (Event Id Rid T)} (hget : w.cases.get? id = some c)
    (hres : c'.resolved = c.resolved) :
    Opens w { w with cases := w.cases.set id c', log := log } := by
  intro j ho x hx
  change (w.cases.set id c').get? j = some x at hx
  rw [Dict.get?_set] at hx
  split at hx
  · rename_i hj
    subst hj
    obtain rfl := Option.some.inj hx
    exact hres.trans (ho c hget)
  · exact ho x hx

theorem opens_edit {f : Case T → Case T} (h : ∀ c, (f c).resolved = c.resolved) :
    Within Opens (edit id f : Deed Id Rid T Unit) := by
  intro w
  refine wp_state (wp_onCase.mpr ⟨fun c hc => ?_, fun _ => refl_of Opens w⟩)
  exact opens_set hc (h c)

theorem opens_aside {f : World Id Rid T → World Id Rid T} (hcases : ∀ w, (f w).cases = w.cases) :
    Within Opens (modify f : Deed Id Rid T Unit) :=
  Within.modify fun w _ ho c hc => ho c (hcases w ▸ hc)

theorem opens_contain (next : Containment) (cause : Cause) :
    Within Opens (contain id next cause : Deed Id Rid T Unit) := by
  intro w
  refine wp_state (wp_onCase.mpr ⟨fun c hc => ?_, fun _ => refl_of Opens w⟩)
  exact opens_set hc rfl

variable [Field T] [LinearOrder T]

theorem marked_publish (h : Marked w) (id : Id) (d : Display T) :
    wp (publish id d) (fun _ w' => Marked w' ∧ Calm w w') (fun _ w' => Marked w' ∧ Calm w w') w := by
  have hstay : Marked w ∧ Calm w w := ⟨h, refl_of Calm w⟩
  rw [publish, wp_bind, wp_read, wp_ite]
  refine ⟨fun _ => hstay, fun _ => ?_⟩
  rw [wp_onCase]
  refine ⟨fun c hc => ?_, fun _ => hstay⟩
  rw [wp_bind, wp_check]
  refine ⟨fun _ => ?_, fun _ => hstay⟩
  rw [wp_bind, wp_modify, note, wp_modify]
  exact ⟨h.publish hc rfl rfl _, fun j hp => (mark_snoc _ _ _).symm.trans hp⟩

theorem marked_shown (h : Marked w) (id : Id) (d : Display T) :
    wp (publish id d) (fun _ => Marked) (fun _ => Marked) w :=
  wp_mono (marked_publish h id d) (fun _ _ h' => h'.1) fun _ _ h' => h'.1

theorem opens_publish (id : Id) (d : Display T) :
    Within Opens (publish id d : Deed Id Rid T Unit) := by
  rw [publish]
  refine Within.read.bind fun _ => Within.ite (fun _ => Within.pure ()) fun _ =>
    within_onCase fun c => Within.check.bind fun _ => Within.bind ?_ fun _ => ?_
  · exact opens_aside fun _ => rfl
  · exact opens_aside fun _ => rfl

/-! ### Receipts -/

omit [Field T] [LinearOrder T] in
theorem marked_judgeReceipts (i : Sync Id T) (h : Marked w) (active : List (Record Id))
    (hopen : active ≠ [] → w.Open id) :
    wp (judgeReceipts i id active) (fun _ => Marked) (fun _ => Marked) w := by
  have hseen : ∀ f : Case T → Case T,
      (∀ c, ((f c).containment, (f c).resolved) = (c.containment, c.resolved)) →
      wp (edit id f) (fun _ w' => Marked w' ∧ Opens w w') (fun _ => Marked) w := fun f hf =>
    wp_mono ((returns_edit id f).wp (still_edit hf) w) (fun _ _ hs => ⟨h.still hs, hs.opens⟩)
      fun _ _ hno => hno.elim
  rw [judgeReceipts, wp_ite]
  refine ⟨fun _ => ?_, fun hactive => ?_⟩
  · rw [wp_bind]
    refine wp_mono (hseen _ fun _ => rfl) (fun _ w₁ hw₁ => ?_) fun _ _ h₁ => h₁
    have h₁ := hw₁.1
    rw [wp_onCase]
    refine ⟨fun c _ => ?_, fun _ => h₁⟩
    rw [wp_ite]
    exact ⟨fun _ => marked_contain h₁ (fun _ _ => .inr rfl) fun hn => absurd hn (by decide),
      fun _ => h₁⟩
  · rw [wp_bind]
    refine wp_mono (hseen _ fun _ => rfl) (fun _ w₁ hw₁ => ?_) fun _ _ h₁ => h₁
    obtain ⟨h₁, hopens⟩ := hw₁
    have ho := hopens id (hopen hactive)
    rw [wp_ite]
    refine ⟨fun _ => ?_, fun _ => marked_restrict h₁ rfl ho _⟩
    rw [wp_bind, wp_demand]
    refine ⟨fun native _ => marked_restrict h₁ ?_ ho _, fun _ => h₁⟩
    split <;> rfl

theorem marked_reviewReceipts (i : Sync Id T) (h : Marked w) (receipts : List (Record Id))
    (hopen : receipts.any Record.active = true → w.Open id) :
    wp (reviewReceipts i id receipts) (fun _ => Marked) (fun _ => Marked) w := by
  rw [reviewReceipts, wp_bind]
  refine wp_mono (marked_judgeReceipts i h _ fun hne => hopen ?_) (fun _ _ h₁ => marked_shown h₁ _ _)
    fun _ _ h₁ => h₁
  obtain ⟨r, hr⟩ := List.exists_mem_of_ne_nil _ hne
  obtain ⟨hin, hactive⟩ := List.mem_filter.mp hr
  exact List.any_eq_true.mpr ⟨r, hin, hactive⟩

theorem opens_reviewReceipts (i : Sync Id T) (id : Id) (receipts : List (Record Id)) :
    Within Opens (reviewReceipts i id receipts : Deed Id Rid T Unit) := by
  have hseen : ∀ flag, Within Opens (edit id fun c => { c with receiptAvailable := some flag } :
      Deed Id Rid T Unit) := fun _ => opens_edit fun _ => rfl
  rw [reviewReceipts]
  refine Within.bind ?_ fun _ => opens_publish _ _
  rw [judgeReceipts]
  refine Within.ite (fun _ => (hseen _).bind fun _ => ?_) fun _ => (hseen _).bind fun _ => ?_
  · exact within_onCase fun c => Within.ite (fun _ => opens_contain _ _) fun _ => Within.pure ()
  · refine Within.ite (fun _ => ?_) fun _ => opens_contain _ _
    exact Within.demand.bind fun _ => opens_contain _ _

omit [Field T] [LinearOrder T] in
theorem marked_recoverCase (h : Marked w) (id : Id) (receipts : List (Record Id)) :
    wp (recoverCase id receipts) (fun _ w' => Marked w' ∧ Opens w w') (fun _ _ => False) w := by
  have hstay : Marked w ∧ Opens w w := ⟨h, refl_of Opens w⟩
  rw [recoverCase, wp_bind, wp_read, wp_ite]
  refine ⟨fun _ => hstay, fun hnew => ?_⟩
  have hnone : w.cases.get? id = none := Option.not_isSome_iff_eq_none.mp hnew
  rw [wp_ite]
  refine ⟨fun _ => hstay, fun _ => ?_⟩
  rw [wp_bind, insert, wp_modify, wp_bind, note, wp_modify, wp_bind, wp_modify, wp_pure]
  have hmoved : Marked { w with
      cases := w.cases.set id (recovered receipts)
      log := w.log ++ [.moved id (recovered receipts : Case T).containment
        (.receipts (receipts.any Record.active))] } :=
    h.moved rfl (fun hm => absurd (h.unseen hnone) hm) fun _ => rfl
  have hopens : ∀ j, w.Open j → ∀ c, (w.cases.set id (recovered receipts)).get? j = some c →
      c.resolved = false := by
    intro j ho c hc
    rw [Dict.get?_set] at hc
    split at hc
    · obtain rfl := Option.some.inj hc
      rfl
    · exact ho c hc
  split
  · exact ⟨{ hmoved with }, hopens⟩
  · exact ⟨hmoved, hopens⟩

theorem marked_syncGroups (i : Sync Id T) {w₀ : World Id Rid T}
    (groups : List (Id × List (Record Id)))
    (hopen : ∀ g ∈ groups, g.2.any Record.active = true → w₀.Open g.1) :
    ∀ (w : World Id Rid T) (found : List Id), Marked w → Opens w₀ w →
      wp (syncGroups i groups found) (fun _ => Marked) (fun _ => Marked) w := by
  induction groups with
  | nil => exact fun w found h _ => h
  | cons g groups ih =>
    obtain ⟨id, receipts⟩ := g
    intro w found h hopens
    have hrest := ih fun g hg => hopen g (List.mem_cons_of_mem _ hg)
    rw [syncGroups, wp_ite]
    refine ⟨fun _ => h, fun _ => ?_⟩
    rw [wp_bind]
    refine wp_mono (marked_recoverCase h id receipts) (fun room w₁ hw₁ => ?_)
      fun _ _ hno => hno.elim
    obtain ⟨h₁, ho₁⟩ := hw₁
    have hopens₁ := trans_of Opens hopens ho₁
    rw [wp_ite]
    refine ⟨fun _ => ?_, fun _ => hrest w₁ found h₁ hopens₁⟩
    rw [wp_bind]
    refine wp_mono (wp_and (marked_reviewReceipts i h₁ receipts fun hactive => hopens₁ id
      (hopen _ List.mem_cons_self hactive)) ((opens_reviewReceipts i id receipts).wp w₁))
      (fun _ w₂ hw₂ => ?_) fun _ _ h₂ => h₂.1
    exact hrest w₂ _ hw₂.1 (trans_of Opens hopens₁ hw₂.2)

theorem marked_syncReceipts (i : Sync Id T) (h : Marked w)
    (hopen : ∀ id receipts, (grouped i.records).get? id = some receipts →
      receipts.any Record.active = true → w.Open id) :
    wp (syncReceipts i) (fun _ => Marked) (fun _ => Marked) w := by
  rw [syncReceipts, wp_bind, wp_read, wp_ite]
  refine ⟨fun _ => h, fun _ => ?_⟩
  rw [wp_bind, wp_modify, wp_ite]
  have h₁ : Marked { w with lastSync := i.synced } := h.still (still_of_log (fun _ => rfl) rfl rfl)
  refine ⟨fun _ => ?_, fun _ => h₁⟩
  rw [wp_bind]
  refine wp_mono (marked_syncGroups i _ (fun g hg => ?_) _ [] h₁ (show Opens w _ from fun _ ho => ho))
    (fun found w₂ h₂ => ?_) fun _ _ h₂ => h₂
  · exact hopen g.1 g.2 (Dict.mem_items.mp hg)
  · rcases found with _ | ids
    · exact h₂
    · rw [Option.elim_some, showReceipt]
      rcases ids.head? with _ | id
      · exact h₂
      · rw [Option.elim_some, wp_bind, wp_read, wp_ite]
        refine ⟨fun _ => h₂, fun _ => ?_⟩
        rw [wp_bind, wp_modify]
        have h₃ : Marked { w₂ with active := some id } :=
          h₂.still (still_of_log (fun _ => rfl) rfl rfl)
        exact marked_shown h₃ _ _

/-! ### Requests -/

variable [DecidableEq Rid]

omit [Field T] [LinearOrder T] in
theorem marked_answered (h : Marked w) {a : Answer Rid T} {action : Action}
    (hget : w.cases.get? id = some c)
    (hfirm : mark w.log id = .pressed → a.worker = some true)
    (hopen : action = .isolate → w.Open id) :
    wp (answered id action c a) (fun _ => Marked) (fun _ => Marked) w := by
  rw [answered, wp_ite]
  refine ⟨fun _ => ?_, fun hrefused => ?_⟩
  · rw [wp_bind, wp_modify]
    have h₁ : Marked { w with pending := w.pending.set a.requestId (id, action) } :=
      h.still (still_of_log (fun _ => rfl) rfl rfl)
    rw [wp_ite]
    exact ⟨fun hisolate => marked_restrict h₁ rfl (hopen hisolate) _, fun _ => h₁⟩
  · rw [wp_ite]
    refine ⟨fun _ => h, fun hstands => marked_contain h (fun hm _ => ?_) fun hn =>
      absurd hn (by decide)⟩
    -- what may be in force is not given up: it stands, or the request was admitted
    rcases hmark : mark w.log id with _ | _ | _
    · exact absurd hmark hm
    · obtain ⟨c', hc', hs⟩ := h.stands id hmark
      obtain rfl := Option.some.inj (hget.symm.trans hc')
      exact absurd hs hstands
    · exact absurd (hfirm hmark) hrefused

theorem marked_submit (h : Marked w) {a : Answer Rid T} {action : Action}
    (hfirm : w.Firm id a) (hopen : action = .isolate → w.Open id)
    (automatic : Option (Judged Id T)) (reviewed : List Id) :
    wp (submit id action automatic reviewed a) (fun _ => Marked) (fun _ => Marked) w := by
  rw [submit, wp_ite]
  refine ⟨fun _ => h, fun hstopped => ?_⟩
  rw [wp_onCase]
  refine ⟨fun c hc => ?_, fun _ => h⟩
  have hlast : ∀ w₁ : World Id Rid T, w₁.cases = w.cases → Still w w₁ →
      wp (answered id action c a >>= fun _ => publish id a.display >>= fun _ =>
        pure (decide (a.worker = some true))) (fun _ => Marked) (fun _ => Marked) w₁ := by
    intro w₁ hcases hs
    rw [wp_bind]
    refine wp_mono (marked_answered (h.still hs) (hcases ▸ hc) (fun hm => ?_) fun hi => ?_)
      (fun _ w₂ h₂ => ?_) fun _ _ h₂ => h₂
    · exact hfirm (Bool.not_eq_true _ |>.mp hstopped) ((hs.mark id).symm.trans hm)
    · exact hs.opens id (hopen hi)
    · rw [wp_bind]
      exact marked_shown h₂ _ _
  have hask : wp (a.worker.elim (pure ()) fun admitted =>
      note (.asked ⟨id, c, action, a.requestId, automatic, reviewed, admitted⟩))
      (fun _ w₁ => w₁.cases = w.cases ∧ Still w w₁) (fun _ _ => False) w := by
    rcases a.worker with _ | admitted
    · exact ⟨rfl, refl_of Still w⟩
    · exact ⟨rfl, still_asked _ w⟩
  rw [wp_bind]
  exact wp_mono hask (fun _ w₁ h₁ => hlast w₁ h₁.1 h₁.2) fun _ _ hno => hno.elim

theorem marked_submitAuto (h : Marked w) {j : Judged Id T} {a : Answer Rid T} (hfirm : w.Firm id a)
    (hopen : w.Open id) :
    wp (submitAuto id j a) (fun _ => Marked) (fun _ => Marked) w := by
  rw [submitAuto, wp_bind]
  refine wp_mono (marked_submit h hfirm (fun _ => hopen) _ _) (fun r w₁ h₁ => ?_) fun _ _ h₁ => h₁
  refine marked_within ?_ h₁
  exact still_edit fun _ => rfl

theorem marked_serve (h : Marked w) {a : Answer Rid T} (hget : w.cases.get? id = some c)
    (hfirm : w.Firm id a) (action : Action) (reviewed : List Id) :
    wp (serve id action reviewed c a) (fun _ => Marked) (fun _ => Marked) w := by
  rw [serve, wp_ite]
  refine ⟨fun _ => ?_, fun _ => ?_⟩
  · rw [wp_ite]
    refine ⟨fun _ => h, fun hfree => ?_⟩
    rw [wp_edit hget]
    exact h.resolve hget (Bool.not_eq_true _ |>.mp hfree)
  · rw [wp_ite]
    refine ⟨fun hlift => ?_, fun _ => ?_⟩
    · rw [wp_bind]
      refine wp_mono (marked_submit h hfirm (fun hi => ?_) _ _) (fun _ _ h₁ => h₁) fun _ _ h₁ => h₁
      exact absurd (hlift.symm.trans hi) (by simp)
    · rw [wp_ite]
      refine ⟨fun hgo => ?_, fun _ => h⟩
      have hres := hgo.2
      rw [wp_bind]
      refine wp_mono (marked_submit h hfirm (fun _ c' hc' => ?_) _ _) (fun _ _ h₁ => h₁)
        fun _ _ h₁ => h₁
      obtain rfl := Option.some.inj (hget.symm.trans hc')
      exact Bool.not_eq_true _ |>.mp hres

theorem marked_processRequest (h : Marked w) {a : Answer Rid T} (d : Display T)
    (hfirm : ∀ id action reviewed, w.requests.head? = some (id, action, reviewed) → w.Firm id a) :
    wp (processRequest a d) (fun _ => Marked) (fun _ => Marked) w := by
  rw [processRequest, wp_bind, wp_read]
  rcases hhead : w.requests.head? with _ | ⟨id, action, reviewed⟩
  · exact h
  · rw [Option.elim_some, wp_bind, wp_modify, wp_onCase]
    have h₁ : Marked { w with requests := w.requests.tail } :=
      h.still (still_of_log (fun _ => rfl) rfl rfl)
    refine ⟨fun c hc => ?_, fun _ => h₁⟩
    rw [wp_bind]
    exact wp_mono (marked_serve h₁ hc (hfirm id action reviewed hhead) _ _)
      (fun _ _ h₂ => marked_shown h₂ _ _) fun _ _ h₂ => h₂

/-! ### Results -/

omit [Field T] [LinearOrder T] [DecidableEq Rid] in
theorem marked_applyResult (h : Marked w) {action : Action} {r : Result}
    (hheld : action = .isolate → r.containment = .held → mark w.log id = .free)
    (hopen : action = .isolate → r.containment.standing = true → w.Open id)
    (hlift : action = .liftLockdown → r = .unknown → w.Open id) :
    wp (applyResult id action r) (fun _ => Marked) (fun _ => Marked) w := by
  have hseen : ∀ (w₁ : World Id Rid T) flag, Marked w₁ →
      wp (edit id fun c => { c with receiptAvailable := some flag }) (fun _ => Marked)
        (fun _ => Marked) w₁ := by
    intro w₁ flag h₁
    refine marked_within ?_ h₁
    exact still_edit fun _ => rfl
  rw [applyResult, wp_ite]
  refine ⟨fun hisolate => ?_, fun _ => ?_⟩
  · rw [wp_bind]
    refine wp_mono (marked_contain h (fun hm hn => ?_) fun hn => hopen hisolate ?_)
      (fun _ w₁ h₁ => hseen w₁ _ h₁) fun _ _ h₁ => h₁
    · exact absurd (hheld hisolate (Result.containment_held hn)) hm
    · exact Result.containment_standing hn
  · rw [wp_ite]
    refine ⟨fun hgo => ?_, fun _ => ?_⟩
    · obtain ⟨hl, hr⟩ := hgo
      rw [wp_bind]
      refine wp_mono (marked_contain h (fun _ _ => .inl (by rw [hl, hr])) fun hn =>
        absurd hn (by decide)) (fun _ w₁ h₁ => hseen w₁ _ h₁) fun _ _ h₁ => h₁
    · rw [wp_ite]
      exact ⟨fun hgo => marked_restrict h rfl (hlift hgo.1 hgo.2) _, fun _ => h⟩

theorem marked_syncResult (h : Marked w) {rid : Rid} {worker : Bool} {answer : Option Result}
    (d : Display T) (hquiet : w.Quiet (.result rid worker answer d)) :
    wp (syncResult rid worker answer d) (fun _ => Marked) (fun _ => Marked) w := by
  rw [syncResult, wp_bind, wp_read, wp_ite]
  refine ⟨fun _ => h, fun _ => ?_⟩
  rcases hpending : w.pending.get? rid with _ | ⟨id, action⟩
  · exact h
  · rcases hanswer : answer with _ | r
    · exact h
    · rw [Option.elim_some]
      dsimp only
      rw [Option.elim_some, wp_bind, wp_modify, wp_onCase]
      have h₁ : Marked { w with pending := w.pending.erase rid } :=
        h.still (still_of_log (fun _ => rfl) rfl rfl)
      refine ⟨fun c hc => ?_, fun _ => h₁⟩
      obtain ⟨hheld, hopen, hlift⟩ := hquiet id action r hpending hanswer
      rw [wp_bind]
      exact wp_mono (marked_applyResult h₁ hheld hopen hlift) (fun _ _ h₂ => marked_shown h₂ _ _)
        fun _ _ h₂ => h₂

/-! ### Evidence -/

omit [Field T] [LinearOrder T] [DecidableEq Rid] in
/-- A case without a history is added. -/
theorem Marked.insert (h : Marked w) (hnone : w.cases.get? id = none) (e : Evidence T) : Marked { w with
      cases := w.cases.set id ⟨some e, true, .notRequested, false, false, none⟩ } := by
  have hback : ∀ j c', (w.cases.set id ⟨some e, true, .notRequested, false, false, none⟩).get? j =
      some c' → c'.containment = .notRequested ∧ c'.resolved = false ∨ w.cases.get? j = some c' := by
    intro j c' hc'
    rw [Dict.get?_set] at hc'
    split at hc'
    · obtain rfl := Option.some.inj hc'
      exact .inl ⟨rfl, rfl⟩
    · exact .inr hc'
  have hkept : ∀ j c', w.cases.get? j = some c' →
      (w.cases.set id ⟨some e, true, .notRequested, false, false, none⟩).get? j = some c' := by
    intro j c' hc'
    rw [Dict.get?_set, if_neg fun hj => ?_]
    · exact hc'
    · exact absurd (hnone.symm.trans (hj ▸ hc')) (by simp)
  refine ⟨⟨h.leaves, fun j c' hc' hs => ?_, fun j c' hc' hr => ?_, h.published, h.snapshot⟩,
    fun j hj => ?_, fun j hj => ?_⟩
  · rcases hback j c' hc' with ⟨hnew, -⟩ | hc'
    · exact absurd hs (by rw [hnew]; decide)
    · exact h.marked j c' hc' hs
  · rcases hback j c' hc' with ⟨-, hnew⟩ | hc'
    · exact absurd (hnew.symm.trans hr) (by simp)
    · exact h.resolved j c' hc' hr
  · obtain ⟨c', hc', hs⟩ := h.stands j hj
    exact ⟨c', hkept j c' hc', hs⟩
  · obtain ⟨c', hc', hs⟩ := h.pressed j hj
    exact ⟨c', hkept j c' hc', hs⟩

omit [Field T] [LinearOrder T] [DecidableEq Rid] in
/-- A case is removed. -/
theorem Marked.evict (h : Marked w) (k : Id) : Marked { w with
    cases := w.cases.erase k, log := w.log ++ [.evicted k] } := by
  have hmark : ∀ j, mark (w.log ++ [.evicted k]) j = if k = j then .free else mark w.log j :=
    fun j => mark_snoc _ _ _
  have hback : ∀ j c', (w.cases.erase k).get? j = some c' → j ≠ k ∧ w.cases.get? j = some c' := by
    intro j c' hc'
    rw [Dict.get?_erase] at hc'
    split at hc'
    · exact absurd hc' (by simp)
    · rename_i hj
      exact ⟨hj, hc'⟩
  have hkept : ∀ j m, m ≠ .free → mark (w.log ++ [.evicted k]) j = m →
      mark w.log j = m ∧ ∀ c', w.cases.get? j = some c' → (w.cases.erase k).get? j = some c' := by
    intro j m hm hj
    rw [hmark] at hj
    split at hj
    · exact absurd hj.symm hm
    · rename_i hk
      refine ⟨hj, fun c' hc' => ?_⟩
      rw [Dict.get?_erase, if_neg (Ne.symm hk)]
      exact hc'
  refine ⟨⟨leaves_snoc h.leaves fun _ _ _ he => absurd he (by simp), fun j c' hc' hs => ?_,
    fun j c' hc' hr => ?_, fun s hs => ?_, h.snapshot⟩, fun j hj => ?_, fun j hj => ?_⟩
  · obtain ⟨hj, hc'⟩ := hback j c' hc'
    rw [hmark, if_neg (Ne.symm hj)]
    exact h.marked j c' hc' hs
  · exact h.resolved j c' (hback j c' hc').2 hr
  · rcases List.mem_append.mp hs with hs | hs
    · exact h.published s hs
    · exact absurd (List.mem_singleton.mp hs) (by simp)
  · obtain ⟨hm, hget⟩ := hkept j _ (by simp) hj
    obtain ⟨c', hc', hs⟩ := h.stands j hm
    exact ⟨c', hget c' hc', hs⟩
  · obtain ⟨hm, hget⟩ := hkept j _ (by simp) hj
    obtain ⟨c', hc', hs⟩ := h.pressed j hm
    exact ⟨c', hget c' hc', hs⟩

omit [Field T] [LinearOrder T] [DecidableEq Rid] in
theorem marked_enter (h : Marked w) (e : Evidence T) :
    wp (enter id e) (fun _ w' => Marked w' ∧ Calm w w') (fun _ _ => False) w := by
  rw [enter, wp_bind, wp_read, wp_ite]
  refine ⟨fun hsome => ?_, fun hnew => ?_⟩
  · have hseen : Within Still (edit id fun c => { c with evidence := some e } :
        Deed Id Rid T Unit) := still_edit fun _ => rfl
    rw [wp_bind]
    refine wp_mono ((returns_edit id _).wp hseen w) (fun _ w₁ hs => ?_) fun _ _ hno => hno
    exact ⟨h.still hs, hs.calm⟩
  · have hnone : w.cases.get? id = none := Option.not_isSome_iff_eq_none.mp hnew
    rw [wp_ite]
    refine ⟨fun _ => ?_, fun _ => ?_⟩
    · rw [wp_bind, Breach.insert, wp_modify, wp_pure]
      exact ⟨h.insert hnone e, fun _ hp => hp⟩
    · rcases w.evictable with _ | k
      · rw [Option.elim_none, drop, wp_bind, wp_modify, wp_pure]
        exact ⟨h.still (still_of_log (fun _ => rfl) rfl rfl), fun _ hp => hp⟩
      · rw [Option.elim_some, wp_bind, Breach.evict, wp_modify, wp_bind, Breach.insert, wp_modify,
          wp_pure]
        have hgone : (w.cases.erase k).get? id = none := by
          rw [Dict.get?_erase, hnone, ite_self]
        refine ⟨(h.evict k).insert hgone e, fun j hp => ?_⟩
        rw [mark_snoc, Event.mark] at hp
        split at hp
        · exact absurd hp (by simp)
        · exact hp

theorem marked_respond {w₀ : World Id Rid T} {i : Arrival Id Rid T} (h : Marked w)
    (hcalm : Calm w₀ w) (hfirm : w₀.Firm id i.answer) :
    wp (respond i id) (fun _ => Marked) (fun _ => Marked) w := by
  have hlast : ∀ w₃ : World Id Rid T, Marked w₃ → wp (publishActive id i.shownActive)
      (fun _ => Marked) (fun _ => Marked) w₃ := by
    intro w₃ h₃
    rw [publishActive, wp_bind, wp_read, wp_ite]
    refine ⟨fun _ => ?_, fun _ => h₃⟩
    rw [wp_bind, wp_demand]
    exact ⟨fun _ _ => marked_shown h₃ _ _, fun _ => h₃⟩
  have hactive : Within Still (activate id : Deed Id Rid T Unit) := by
    refine still_aside (fun w => ?_) (fun w => ?_) fun w => ?_
    · split <;> rfl
    · split <;> rfl
    · split <;> rfl
  rw [respond, wp_bind]
  refine wp_mono (hactive.wp w) (fun _ w₁ hs => ?_) fun _ _ hs => h.still hs
  rw [wp_bind]
  refine wp_mono (marked_publish (h.still hs) id i.shown) (fun _ w₂ hw₂ => ?_)
    fun _ _ h₂ => h₂.1
  obtain ⟨h₂, hcalm₂⟩ := hw₂
  rw [wp_bind, wp_onCase]
  refine ⟨fun c hc => ?_, fun _ => hlast w₂ h₂⟩
  rw [wp_ite]
  refine ⟨fun hgo => ?_, fun _ => hlast w₂ h₂⟩
  obtain ⟨-, -, -, hres⟩ := hgo
  refine wp_mono (marked_submitAuto h₂ (fun hrun hp => hfirm hrun ?_) fun c' hc' => ?_)
    (fun _ w₃ h₃ => hlast w₃ h₃) fun _ _ h₃ => h₃
  · exact hcalm id (hs.calm id (hcalm₂ id hp))
  · obtain rfl := Option.some.inj (hc.symm.trans hc')
    exact Bool.not_eq_true _ |>.mp hres

theorem marked_acceptEvent (h : Marked w) (i : Arrival Id Rid T)
    (hfirm : ∀ id e, i.found = some (id, e) → w.Firm id i.answer) :
    wp (acceptEvent i) (fun _ => Marked) (fun _ => Marked) w := by
  rw [acceptEvent, wp_ite]
  refine ⟨fun _ => h, fun _ => ?_⟩
  rcases hfound : i.found with _ | ⟨id, e⟩
  · exact h
  · rw [Option.elim_some]
    dsimp only
    rw [wp_ite]
    refine ⟨fun _ => ?_, fun _ => h⟩
    rw [wp_bind]
    refine wp_mono (marked_enter h e) (fun kept w₁ hw₁ => ?_) fun _ _ hno => hno.elim
    obtain ⟨h₁, hcalm⟩ := hw₁
    rw [wp_ite]
    exact ⟨fun _ => marked_respond h₁ hcalm (hfirm id e hfound), fun _ => h₁⟩

theorem marked_retryIsolation (h : Marked w) (i : Retry Id Rid T) (hfirm : w.Firm id i.answer) :
    wp (retryIsolation id i) (fun _ => Marked) (fun _ => Marked) w := by
  rw [retryIsolation, wp_onCase]
  refine ⟨fun c hc => ?_, fun _ => h⟩
  rcases c.evidence with _ | e
  · exact h
  · rw [Option.elim_some, wp_ite]
    refine ⟨fun hgo => marked_submitAuto h hfirm fun c' hc' => ?_, fun _ => h⟩
    obtain ⟨-, -, hres, -⟩ := hgo
    obtain rfl := Option.some.inj (hc.symm.trans hc')
    exact Bool.not_eq_true _ |>.mp hres

/-! ### Runs -/

theorem marked_exec (h : Marked w) (op : Op Id Rid T) (hquiet : w.Quiet op) :
    Marked (w.exec op) := by
  rcases op with ⟨id, action, stopped⟩ | ⟨a, d⟩ | i | ⟨rid, worker, answer, d⟩ | i | ⟨id, i⟩
  · have hrequest : Within Still (requestAction id action stopped : Deed Id Rid T Unit) := by
      refine still_aside (fun w => ?_) (fun w => ?_) fun w => ?_
      · split <;> rfl
      · split <;> rfl
      · split <;> rfl
    exact h.still (hrequest w)
  · exact wp_state (marked_processRequest h d hquiet)
  · exact wp_state (marked_acceptEvent h i hquiet)
  · exact wp_state (marked_syncResult h d hquiet)
  · exact wp_state (marked_syncReceipts i h hquiet)
  · exact wp_state (marked_retryIsolation h i hquiet)

omit [Field T] [LinearOrder T] [DecidableEq Rid] in
theorem marked_start [Field T] : Marked (World.start : World Id Rid T) where
  leaves _ _ _ _ _ heq := absurd heq (by simp [World.start])
  marked _ _ hc := absurd hc (by simp [World.start])
  resolved _ _ hc := absurd hc (by simp [World.start])
  published _ hs := absurd hs List.not_mem_nil
  snapshot _ := rfl
  stands _ hm := absurd hm (by simp [World.start, mark])
  pressed _ hm := absurd hm (by simp [World.start, mark])

/-- The histories whose steps all meet the condition. -/
abbrev Runs (cond : World Id Rid T → Op Id Rid T → Prop) :
    List (Op Id Rid T) → World Id Rid T → Prop :=
  Run (Guarded cond fun w op w' => w.exec op = w') World.start

/-- CORRECT: in every history in which no failed isolation and no refused request reaches a lockdown
    that may be in force, and nothing restricts a resolved case, such a lockdown is left by a lift or
    by receipts only, and no resolved case is restricted, in the map or on display. -/
theorem quiet_honest {ops : List (Op Id Rid T)} {w : World Id Rid T}
    (hrun : Runs World.Quiet ops w) : w.Honest :=
  (hrun.invariant (I := Marked) (fun _ op _ h hstep => hstep.2 ▸ marked_exec h op hstep.1)
    marked_start).toHonest

end Steps

/-! ### A lockdown that is forgotten -/

def sampleDisplay : Display ℚ := ⟨true, true, true, 0⟩

/-- Evidence for case 7; the worker admits the automatic isolation. -/
def sampleArrival : Op ℕ ℕ ℚ :=
  .accept ⟨false, some (7, ⟨0, true, true⟩), 0, true, [], ⟨false, some true, 1, sampleDisplay⟩,
    sampleDisplay, sampleDisplay⟩

/-- One receipt of case 7 is found: applied with a scope that is not verified, or undone. -/
def sampleReceipts (now : ℚ) (undone : Bool) : Op ℕ ℕ ℚ :=
  .receipts ⟨now, now, true, [⟨some 7, undone, .recoveryRequired, false, true⟩], true,
    fun _ => ⟨false, some true, sampleDisplay⟩, sampleDisplay⟩

/-- The receipt of the isolation is found, and later that it was undone. -/
def sampleLift : List (Op ℕ ℕ ℚ) := [sampleArrival, sampleReceipts 2 false, sampleReceipts 4 true]

theorem open_of_items {w : World ℕ ℕ ℚ} (h : ∀ i ∈ w.cases.items, i.2.resolved = false) (id : ℕ) :
    w.Open id := fun _ hc => h _ (Dict.mem_items.mpr hc)

/-- A lockdown that receipts show, and show undone. -/
theorem quiet_honest_lift : (World.after sampleLift).Honest ∧
    ((World.after sampleLift).cases.get? 7).map Case.containment = some .lifted := by
  have hfirst : World.Quiet World.start sampleArrival := by
    intro id e hfound _ _
    rfl
  have hopen : ∀ ops : List (Op ℕ ℕ ℚ), (∀ i ∈ (World.after ops).cases.items, i.2.resolved = false) →
      ∀ now undone, (World.after ops).Quiet (sampleReceipts now undone) :=
    fun _ h _ _ id _ _ _ => open_of_items h id
  refine ⟨quiet_honest (Run.snoc (Run.snoc (Run.snoc .nil ⟨hfirst, rfl⟩)
    ⟨hopen [sampleArrival] (by decide +kernel) 2 false, rfl⟩)
    ⟨hopen [sampleArrival, sampleReceipts 2 false] (by decide +kernel) 4 true, rfl⟩), ?_⟩
  decide +kernel

/-- The isolation fails after its receipt was found, the operator resolves the case, and the receipt
    is found again. -/
def sampleForget : List (Op ℕ ℕ ℚ) :=
  [sampleArrival, sampleReceipts 2 false, .result 1 true (some .other) sampleDisplay,
    .request 7 .reviewResolved false, .process ⟨false, none, 2, sampleDisplay⟩ sampleDisplay,
    sampleReceipts 4 false]

/-- The failed isolation erases a containment that may be in force, and a resolved case is shown with
    a lockdown. -/
theorem lockdown_forgotten : Runs (fun _ _ => True) sampleForget (World.after sampleForget) ∧
    (¬∀ before id next cause after,
      (World.after sampleForget).log = before ++ .moved id next cause :: after →
        mark before id = .standing → next.restricted = false →
          cause = .result .liftLockdown .lifted ∨ cause = .receipts false) ∧
    (¬∀ id c, (World.after sampleForget).cases.get? id = some c → c.resolved = true →
      c.containment.restricted = false) ∧
    ¬∀ s, .published s ∈ (World.after sampleForget).log → s.active = false →
      s.containment.restricted = false := by
  refine ⟨Run.of_foldl fun _ _ _ => trivial, fun h => ?_, fun h => ?_, fun h => ?_⟩
  · have hlog : (World.after sampleForget).log = (World.after sampleForget).log.take 6 ++
        .moved 7 .held (.result .isolate .other) :: (World.after sampleForget).log.drop 7 := by
      decide +kernel
    exact absurd (h _ 7 .held _ _ hlog (by decide +kernel) rfl) (by decide)
  · obtain ⟨c, hc, hsame⟩ := Option.map_eq_some_iff.mp
      (show ((World.after sampleForget).cases.get? 7).map (fun c => (c.resolved, c.containment)) =
        some (true, .unknown) by decide +kernel)
    obtain ⟨hres, hunknown⟩ := Prod.mk.inj hsame
    exact absurd (h 7 c hc hres) (by rw [hunknown]; decide)
  · exact absurd (h (World.after sampleForget).snapshot (by decide +kernel) (by decide +kernel))
      (by decide +kernel)

end Angerona.Breach
