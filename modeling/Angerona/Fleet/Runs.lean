import Angerona.Fleet.Store

/-!
    Runs of several stores on one database, and when every call leaves its connection clean.

    A failed `INSERT`, and an `UPDATE` that matches no row or stores no number, leave the implicit
    transaction open, and with it the write lock. `Label.Clean` names the statements of which this
    happens to none; in a run of such statements the versions, states and expiries of all jobs are
    as they should be, and no call leaves anything behind. -/

namespace Angerona.Fleet
open Text PyJson Wal Transition

variable {ι : Type} (m : Machine)

/-! ### What a run has done -/

def Event.applied? : Event → Option Applied
  | .applied a => some a
  | _ => none

/-- The call whose changes an event commits. -/
def Event.commits : Event → Option ℕ
  | .created call _ => some call
  | .applied a => some a.call
  | _ => none

def Event.raises : Event → Option ℕ
  | .raised call _ => some call
  | _ => none

/-- The transitions of one job, in order. -/
def history (log : List Event) (serial : ℕ) : List Applied :=
  (log.filterMap Event.applied?).filter (·.serial = serial)

/-- A history with consecutive versions whose states follow `_TRANSITIONS`, and its last state. -/
inductive Traced : List Applied → State → Prop where
  | nil : Traced [] .created
  | snoc {past : List Applied} {a : Applied} : Traced past a.source →
      a.expected = past.length + 1 → a.target ∈ a.source.next → Traced (past ++ [a]) a.target

/-- The state after a transition fits the job's expiry. -/
def Timely (spec : Json) (stamp : PyFloat) (state : State) : Prop :=
  ∀ job, FleetJob.ofSpec m spec = some job → reached stamp job.expiresAt = true →
    state.terminal = true

/-- What the calls of a run promise. -/
structure World.Healthy [DecidableEq ι] (w : World ι) : Prop where
  /-- Each committed row has the version and the state of its history. -/
  rows : ∀ r ∈ w.db.committed, Traced (history w.log r.serial) r.state ∧
    r.version = (history w.log r.serial).length + 1
  traced : ∀ serial, ∃ s, Traced (history w.log serial) s
  timely : ∀ a, .applied a ∈ w.log → Timely m a.spec a.stamp a.target ∧
    .created a.serial a.spec ∈ w.log
  /-- No transaction is open on a connection without a call. -/
  closed : ∀ i, w.phase i = .ready → w.db.inTransaction i = false
  /-- A call that raises has committed nothing. -/
  raised : ∀ e ∈ w.log, ∀ call, e.raises = some call → ∀ e' ∈ w.log, e'.commits ≠ some call

/-- The statement meets no other writer, no taken name, and the row it expects. -/
def Label.Clean (w : World ι) : Label ι → Prop
  | .create _ job _ => w.db.writer = none ∧
      ∀ r ∈ w.db.committed, r.jobId ≠ job.jobId ∧ r.idempotencyKey ≠ job.idempotencyKey
  | .transition _ _ => True
  | .next i => ∀ call a read state receipt, w.phase i = .update call a read state receipt →
      w.db.writer = none ∧ a.now ≠ .nan ∧ ∃ r ∈ w.db.committed,
        r.matches a.jobId a.expectedVersion = true ∧ r.serial = read.serial
  | .read _ _ jobId => ∃ r, findJob jobId w.db.committed = some r ∧ (r.decode m).isSome = true

/-! ### Histories -/

theorem history_append (log events : List Event) (serial : ℕ) :
    history (log ++ events) serial = history log serial ++ history events serial := by
  rw [history, List.filterMap_append, List.filter_append]
  rfl

theorem history_single (a : Applied) (serial : ℕ) :
    history [.applied a] serial = if a.serial = serial then [a] else [] := by
  by_cases h : a.serial = serial <;> simp [history, Event.applied?, h]

theorem history_quiet {events : List Event} (h : ∀ e ∈ events, e.applied? = none) (serial : ℕ) :
    history events serial = [] := by
  rw [history, List.filterMap_eq_nil_iff.mpr h]
  rfl

theorem Event.applied?_of_commits {e : Event} (h : e.commits = none) : e.applied? = none := by
  cases e with
  | applied a => cases h
  | created call spec => rfl
  | returned call record => rfl
  | raised call err => rfl

/-- A history determines its last state. -/
theorem Traced.state {past : List Applied} {s : State} (h : Traced past s) :
    s = (past.getLast?.map (·.target)).getD .created := by
  cases h with
  | nil => rfl
  | snoc _ _ _ => rw [List.getLast?_concat, Option.map_some, Option.getD_some]

/-! ### The invariant -/

/-- What holds of a row that a statement works on. -/
structure RowOk (log : List Event) (r : Row) : Prop where
  traced : Traced (history log r.serial) r.state
  version : r.version = (history log r.serial).length + 1
  created : .created r.serial r.spec ∈ log

/-- What a transition knows of the row it has read: it was so at some point of the history. -/
structure ReadOk (log : List Event) (a : TransitionArgs) (read : Row) (state : State) : Prop where
  past : ∃ past, past <+: history log read.serial ∧ Traced past read.state ∧
    a.expectedVersion = past.length + 1
  created : .created read.serial read.spec ∈ log
  allowed : state ∈ read.state.next
  timely : Timely m read.spec a.now state

/-- What the phase of an instance says of the database and the log. -/
def World.PhaseOk (w : World ι) (i : ι) : Phase → Prop
  | .ready => True
  | .prune call row _ | .commitCreate call row _ => ∃ content,
      w.db.writer = some ⟨i, content, true⟩ ∧ content.Sublist (w.db.committed ++ [row]) ∧
      row.serial = call ∧ row.state = .created ∧ row.version = 1 ∧
      (∀ r ∈ w.db.committed, r.jobId ≠ row.jobId ∧ r.serial ≠ call) ∧ history w.log call = [] ∧
      ∀ spec, .created call spec ∉ w.log
  | .existing _ _ => False
  | .update _ a read state _ => ReadOk m w.log a read state
  | .commitUpdate call jobId a => ∃ r ∈ w.db.committed, ∃ f : Row → Row,
      w.db.writer = some ⟨i, Table.update (Row.matches jobId r.version) f w.db.committed, true⟩ ∧
      r.jobId = jobId ∧ (f r).jobId = jobId ∧ (f r).serial = r.serial ∧ (f r).spec = r.spec ∧
      (f r).state = a.target ∧ (f r).version = r.version + 1 ∧ a.call = call ∧
      a.serial = r.serial ∧ a.expected = r.version ∧ a.source = r.state ∧
      a.target ∈ r.state.next ∧ a.spec = r.spec ∧ Timely m r.spec a.stamp a.target

/-- The phases between a write statement and its commit. -/
def Phase.writing : Phase → Bool
  | .prune _ _ _ | .commitCreate _ _ _ | .commitUpdate _ _ _ => true
  | _ => false

structure World.Inv (w : World ι) : Prop where
  quiet : w.db.Quiet
  names : (w.db.committed.map (·.jobId)).Nodup
  serials : (w.db.committed.map (·.serial)).Nodup
  rows : ∀ r ∈ w.db.committed, RowOk w.log r
  traced : ∀ serial, ∃ s, Traced (history w.log serial) s
  timely : ∀ a, .applied a ∈ w.log → Timely m a.spec a.stamp a.target ∧
    .created a.serial a.spec ∈ w.log
  once : ∀ serial spec spec', .created serial spec ∈ w.log → .created serial spec' ∈ w.log →
    spec = spec'
  phases : ∀ i, w.PhaseOk m i (w.phase i)
  writer : ∀ v, w.db.writer = some v → (w.phase v.conn).writing = true
  active : ∀ i call, (w.phase i).call = some call → call < w.calls
  logged : ∀ e ∈ w.log, ∀ call, e.commits = some call ∨ e.raises = some call → call < w.calls
  raised : ∀ e ∈ w.log, ∀ call, e.raises = some call →
    (∀ e' ∈ w.log, e'.commits ≠ some call) ∧ ∀ i, (w.phase i).call ≠ some call

variable {m}

theorem RowOk.mono {log log' : List Event} {r : Row} (h : RowOk log r)
    (hhistory : history log' r.serial = history log r.serial) (hsub : ∀ e ∈ log, e ∈ log') :
    RowOk log' r :=
  ⟨hhistory ▸ h.traced, hhistory ▸ h.version, hsub _ h.created⟩

theorem ReadOk.mono {log log' : List Event} {a : TransitionArgs} {read : Row} {state : State}
    (h : ReadOk m log a read state) (hhistory : history log read.serial <+: history log' read.serial)
    (hsub : ∀ e ∈ log, e ∈ log') : ReadOk m log' a read state := by
  obtain ⟨past, hpast, htraced, hversion⟩ := h.past
  exact ⟨⟨past, hpast.trans hhistory, htraced, hversion⟩, hsub _ h.created, h.allowed, h.timely⟩

theorem history_mono (log events : List Event) (serial : ℕ) :
    history log serial <+: history (log ++ events) serial := by
  rw [history_append]
  exact List.prefix_append _ _

theorem history_same {events : List Event} (hquiet : ∀ e ∈ events, e.commits = none)
    (log : List Event) (serial : ℕ) : history (log ++ events) serial = history log serial := by
  rw [history_append, history_quiet (fun e he => Event.applied?_of_commits (hquiet e he)),
    List.append_nil]

/-- A phase stays as it is when the others neither commit nor write. -/
theorem World.PhaseOk.frame {w w' : World ι} {i : ι} {p : Phase} (h : w.PhaseOk m i p)
    {events : List Event} (hlog : w'.log = w.log ++ events)
    (hdb : p.writing = true → w'.db = w.db ∧ ∀ e ∈ events, e.commits = none) :
    w'.PhaseOk m i p := by
  have hsub : ∀ e ∈ w.log, e ∈ w'.log := fun e he => hlog ▸ List.mem_append_left _ he
  cases p with
  | ready => trivial
  | existing call job => exact h
  | update call a read state receipt =>
    exact ReadOk.mono h (hlog ▸ history_mono _ _ _) hsub
  | prune call row job | commitCreate call row job =>
    obtain ⟨hdb, hquiet⟩ := hdb rfl
    obtain ⟨content, hw, hcontent, hserial, hstate, hversion, hfresh, hhistory, hnew⟩ := h
    refine ⟨content, hdb ▸ hw, hdb ▸ hcontent, hserial, hstate, hversion, hdb ▸ hfresh, ?_, ?_⟩
    · rw [hlog, history_same hquiet, hhistory]
    · intro spec hspec
      rw [hlog] at hspec
      rcases List.mem_append.mp hspec with hspec | hspec
      · exact hnew spec hspec
      · exact absurd (hquiet _ hspec) (by simp [Event.commits])
  | commitUpdate call jobId a =>
    obtain ⟨hdb, -⟩ := hdb rfl
    obtain ⟨r, hr, f, hw, hrest⟩ := h
    exact ⟨r, hdb ▸ hr, f, hdb ▸ hw, hrest⟩

theorem World.PhaseOk.writer {w : World ι} {i : ι} {p : Phase} (h : w.PhaseOk m i p)
    (hp : p.writing = true) : ∃ content, w.db.writer = some ⟨i, content, true⟩ := by
  cases p with
  | prune call row job | commitCreate call row job => exact ⟨h.choose, h.choose_spec.1⟩
  | commitUpdate call jobId a =>
    obtain ⟨_, _, _, hw, _⟩ := h
    exact ⟨_, hw⟩
  | ready | existing call job | update call a read state receipt => cases hp

/-- Only the writer is in a writing phase. -/
theorem World.Inv.not_writing {w : World ι} (h : w.Inv m) {i : ι}
    (hi : w.db.writer = none ∨ ∃ v, w.db.writer = some v ∧ v.conn ≠ i) :
    (w.phase i).writing = false := by
  by_contra hwriting
  obtain ⟨content, hw⟩ := (h.phases i).writer (by simpa using hwriting)
  rcases hi with hi | ⟨v, hv, hne⟩
  · rw [hi] at hw
    cases hw
  · rw [hv] at hw
    exact hne (Option.some.inj hw ▸ rfl)

theorem World.Inv.serial_lt {w : World ι} (h : w.Inv m) {r : Row} (hr : r ∈ w.db.committed) :
    r.serial < w.calls :=
  h.logged _ (h.rows r hr).created _ (.inl rfl)

/-- A call that has only begun has no history. -/
theorem World.Inv.fresh {w : World ι} (h : w.Inv m) :
    history w.log w.calls = [] ∧ ∀ spec, .created w.calls spec ∉ w.log := by
  have hcreated : ∀ spec, .created w.calls spec ∉ w.log := fun spec hspec =>
    absurd (h.logged _ hspec _ (.inl rfl)) (lt_irrefl _)
  refine ⟨List.filter_eq_nil_iff.mpr fun a ha hserial => ?_, hcreated⟩
  obtain ⟨e, he, hea⟩ := List.mem_filterMap.mp ha
  cases e with
  | applied b =>
    obtain rfl := Option.some.inj hea
    have hc := (h.timely b he).2
    rw [of_decide_eq_true hserial] at hc
    exact hcreated _ hc
  | created call spec => cases hea
  | returned call record => cases hea
  | raised call err => cases hea

/-- A row is found by its job id alone. -/
theorem World.Inv.matched {w : World ι} (h : w.Inv m) {r s : Row} (hr : r ∈ w.db.committed)
    (hs : s ∈ w.db.committed) {jobId : Str} {version : ℤ}
    (hmr : r.matches jobId version = true) (hms : s.matches jobId version = true) : s = r := by
  rw [Row.matches, decide_eq_true_eq] at hmr hms
  exact Table.eq_of_key h.names hs hr (hms.1.trans hmr.1.symm)

variable [DecidableEq ι]

/-- A step of one instance that neither writes nor commits. -/
theorem World.Inv.quietly {w : World ι} (h : w.Inv m) {i : ι} {p : Phase} {events : List Event}
    {calls : ℕ} {returning : ι → List (ℕ × Str)} (hcalls : w.calls ≤ calls)
    (hwas : (w.phase i).writing = false) (hp : w.PhaseOk m i p)
    (hquiet : ∀ e ∈ events, e.commits = none)
    (hcall : ∀ call, p.call = some call → call < calls ∧ ∀ e ∈ w.log ++ events,
      e.raises ≠ some call)
    (hraises : ∀ e ∈ events, ∀ call, e.raises = some call → call < calls ∧
      (∀ e' ∈ w.log, e'.commits ≠ some call) ∧ ∀ j, (w.phase j).call ≠ some call) :
    World.Inv m ⟨w.db, Function.update w.phase i p, returning, w.log ++ events, calls⟩ where
  quiet := h.quiet
  names := h.names
  serials := h.serials
  rows r hr := (h.rows r hr).mono (history_same hquiet _ _) fun _ he => List.mem_append_left _ he
  traced serial := by
    rw [history_same hquiet]
    exact h.traced serial
  timely a ha := by
    rcases List.mem_append.mp ha with ha | ha
    · exact ⟨(h.timely a ha).1, List.mem_append_left _ (h.timely a ha).2⟩
    · exact absurd (hquiet _ ha) (by simp [Event.commits])
  once serial spec spec' hs hs' := by
    have hold : ∀ spec, .created serial spec ∈ w.log ++ events → .created serial spec ∈ w.log := by
      intro spec hs
      rcases List.mem_append.mp hs with hs | hs
      · exact hs
      · exact absurd (hquiet _ hs) (by simp [Event.commits])
    exact h.once serial spec spec' (hold _ hs) (hold _ hs')
  phases j := by
    have hframe : ∀ q, w.PhaseOk m j q →
        World.PhaseOk m ⟨w.db, Function.update w.phase i p, returning, w.log ++ events, calls⟩ j q :=
      fun q hq => hq.frame rfl fun _ => ⟨rfl, hquiet⟩
    change World.PhaseOk m _ j (Function.update w.phase i p j)
    by_cases hj : j = i
    · subst hj
      rw [Function.update_self]
      exact hframe _ hp
    · rw [Function.update_of_ne hj]
      exact hframe _ (h.phases j)
  writer v hv := by
    change (Function.update w.phase i p v.conn).writing = true
    by_cases hi : v.conn = i
    · have hwriting := h.writer v hv
      rw [hi, hwas] at hwriting
      cases hwriting
    · rw [Function.update_of_ne hi]
      exact h.writer v hv
  active j call hj := by
    change (Function.update w.phase i p j).call = some call at hj
    by_cases hji : j = i
    · subst hji
      rw [Function.update_self] at hj
      exact (hcall call hj).1
    · rw [Function.update_of_ne hji] at hj
      exact (h.active j call hj).trans_le hcalls
  logged e he call hecall := by
    rcases List.mem_append.mp he with he | he
    · exact (h.logged e he call hecall).trans_le hcalls
    · rcases hecall with hecall | hecall
      · rw [hquiet e he] at hecall
        cases hecall
      · exact (hraises e he call hecall).1
  raised e he call hecall := by
    have hnew : ∀ e' ∈ events, e'.commits ≠ some call := fun e' he' => by simp [hquiet e' he']
    have hphase : (∀ j, (w.phase j).call ≠ some call) →
        ∀ j, (Function.update w.phase i p j).call ≠ some call := by
      intro hphases j hj
      by_cases hji : j = i
      · subst hji
        rw [Function.update_self] at hj
        exact (hcall call hj).2 e he hecall
      · rw [Function.update_of_ne hji] at hj
        exact hphases j hj
    rcases List.mem_append.mp he with he | he
    · obtain ⟨hcommits, hphases⟩ := h.raised e he call hecall
      exact ⟨fun e' he' => (List.mem_append.mp he').elim (hcommits e') (hnew e'), hphase hphases⟩
    · obtain ⟨-, hcommits, hphases⟩ := hraises e he call hecall
      exact ⟨fun e' he' => (List.mem_append.mp he').elim (hcommits e') (hnew e'), hphase hphases⟩

/-- A write statement of an instance while no other one has the lock. -/
theorem World.Inv.writes {w : World ι} (h : w.Inv m) {i : ι} {p : Phase} {content : List Row}
    {calls : ℕ} (hcalls : w.calls ≤ calls)
    (hother : w.db.writer = none ∨ ∃ v, w.db.writer = some v ∧ v.conn = i)
    (hwrites : p.writing = true)
    (hp : World.PhaseOk m { w with db := { w.db with writer := some ⟨i, content, true⟩ } } i p)
    (hcall : ∀ call, p.call = some call → call < calls ∧ ∀ e ∈ w.log, e.raises ≠ some call) :
    World.Inv m ⟨{ w.db with writer := some ⟨i, content, true⟩ }, Function.update w.phase i p,
      w.returning, w.log, calls⟩ where
  quiet := h.quiet
  names := h.names
  serials := h.serials
  rows := h.rows
  traced := h.traced
  timely := h.timely
  once := h.once
  phases j := by
    change World.PhaseOk m _ j (Function.update w.phase i p j)
    by_cases hj : j = i
    · subst hj
      rw [Function.update_self]
      exact hp.frame (List.append_nil _).symm fun _ => ⟨rfl, fun _ he => absurd he List.not_mem_nil⟩
    · rw [Function.update_of_ne hj]
      have hidle : (w.phase j).writing = false := by
        refine h.not_writing (hother.imp id ?_)
        rintro ⟨v, hv, rfl⟩
        exact ⟨v, hv, Ne.symm hj⟩
      refine (h.phases j).frame (List.append_nil _).symm fun hwriting => ?_
      rw [hidle] at hwriting
      cases hwriting
  writer v hv := by
    obtain rfl := Option.some.inj hv
    change (Function.update w.phase i p i).writing = true
    rwa [Function.update_self]
  active j call hj := by
    change (Function.update w.phase i p j).call = some call at hj
    by_cases hji : j = i
    · subst hji
      rw [Function.update_self] at hj
      exact (hcall call hj).1
    · rw [Function.update_of_ne hji] at hj
      exact (h.active j call hj).trans_le hcalls
  logged e he call hecall := (h.logged e he call hecall).trans_le hcalls
  raised e he call hecall := by
    obtain ⟨hcommits, hphases⟩ := h.raised e he call hecall
    refine ⟨hcommits, fun j hj => ?_⟩
    change (Function.update w.phase i p j).call = some call at hj
    by_cases hji : j = i
    · subst hji
      rw [Function.update_self] at hj
      exact (hcall call hj).2 e he hecall
    · rw [Function.update_of_ne hji] at hj
      exact hphases j hj

/-- The commit of an instance. -/
theorem World.Inv.commits {w : World ι} (h : w.Inv m) {i : ι} {content : List Row}
    {events : List Event} {call : ℕ} {commits : ℕ} {returning : ι → List (ℕ × Str)}
    (hw : w.db.writer = some ⟨i, content, true⟩) (hcall : (w.phase i).call = some call)
    (hnames : (content.map (·.jobId)).Nodup) (hserials : (content.map (·.serial)).Nodup)
    (hrows : ∀ r ∈ content, RowOk (w.log ++ events) r)
    (htraced : ∀ serial, ∃ s, Traced (history (w.log ++ events) serial) s)
    (htimely : ∀ a, .applied a ∈ events → Timely m a.spec a.stamp a.target ∧
      .created a.serial a.spec ∈ w.log)
    (honce : ∀ serial spec, .created serial spec ∈ events →
      (∀ spec', .created serial spec' ∉ w.log) ∧
      ∀ spec', .created serial spec' ∈ events → spec = spec')
    (hcommits : ∀ e ∈ events, e.raises = none ∧ (e.commits = none ∨ e.commits = some call)) :
    World.Inv m ⟨⟨content, commits, none, w.db.deferred⟩, Function.update w.phase i .ready,
      returning, w.log ++ events, w.calls⟩ where
  quiet := h.quiet
  names := hnames
  serials := hserials
  rows := hrows
  traced := htraced
  timely a ha := by
    rcases List.mem_append.mp ha with ha | ha
    · exact ⟨(h.timely a ha).1, List.mem_append_left _ (h.timely a ha).2⟩
    · exact ⟨(htimely a ha).1, List.mem_append_left _ (htimely a ha).2⟩
  once serial spec spec' hs hs' := by
    rcases List.mem_append.mp hs with hs | hs
    · rcases List.mem_append.mp hs' with hs' | hs'
      · exact h.once serial spec spec' hs hs'
      · exact absurd hs ((honce serial spec' hs').1 spec)
    · rcases List.mem_append.mp hs' with hs' | hs'
      · exact absurd hs' ((honce serial spec hs).1 spec')
      · exact (honce serial spec hs).2 spec' hs'
  phases j := by
    change World.PhaseOk m _ j (Function.update w.phase i .ready j)
    by_cases hj : j = i
    · subst hj
      rw [Function.update_self]
      trivial
    · rw [Function.update_of_ne hj]
      have hidle := h.not_writing (i := j) (.inr ⟨_, hw, Ne.symm hj⟩)
      refine (h.phases j).frame rfl fun hwriting => ?_
      rw [hidle] at hwriting
      cases hwriting
  writer v hv := nomatch hv
  active j call' hj := by
    change (Function.update w.phase i .ready j).call = some call' at hj
    by_cases hji : j = i
    · subst hji
      rw [Function.update_self] at hj
      cases hj
    · rw [Function.update_of_ne hji] at hj
      exact h.active j call' hj
  logged e he call' hecall := by
    rcases List.mem_append.mp he with he | he
    · exact h.logged e he call' hecall
    · obtain ⟨hraises, hcommit⟩ := hcommits e he
      rcases hecall with hecall | hecall
      · rcases hcommit with hcommit | hcommit
        · rw [hcommit] at hecall
          cases hecall
        · obtain rfl := Option.some.inj (hcommit.symm.trans hecall)
          exact h.active i _ hcall
      · rw [hraises] at hecall
        cases hecall
  raised e he call' hecall := by
    rcases List.mem_append.mp he with he | he
    · obtain ⟨hnone, hphases⟩ := h.raised e he call' hecall
      refine ⟨fun e' he' => ?_, fun j hj => ?_⟩
      · rcases List.mem_append.mp he' with he' | he'
        · exact hnone e' he'
        · intro hcommit
          rcases (hcommits e' he').2 with hc | hc
          · rw [hc] at hcommit
            cases hcommit
          · obtain rfl := Option.some.inj (hc.symm.trans hcommit)
            exact hphases i hcall
      · change (Function.update w.phase i .ready j).call = some call' at hj
        by_cases hji : j = i
        · subst hji
          rw [Function.update_self] at hj
          cases hj
        · rw [Function.update_of_ne hji] at hj
          exact hphases j hj
    · rw [(hcommits e he).1] at hecall
      cases hecall

/-! ### Steps -/

/-- What the checks of a transition say of the row it has read. -/
theorem checkTransition_ok {a : TransitionArgs} {found : Option Row} {row : Row} {state : State}
    {t : Json} (h : checkTransition m a found = .ok (row, state, t)) :
    found = some row ∧ row.version = a.expectedVersion ∧ state ∈ row.state.next ∧
      Timely m row.spec a.now state := by
  unfold checkTransition at h
  split at h
  · cases h
  · cases h
  · rename_i asked row' _
    split at h
    · cases h
    · rename_i record hrecord
      obtain ⟨job, hjob, rfl⟩ := Option.map_eq_some_iff.mp hrecord
      split at h
      · cases h
      · rename_i hversion
        dsimp only at h
        split at h
        · cases h
        · rename_i hallowed
          split at h
          · obtain ⟨rfl, hpair⟩ := Prod.mk.inj (Except.ok.inj h)
            obtain ⟨rfl, rfl⟩ := Prod.mk.inj hpair
            refine ⟨rfl, not_not.mp hversion, not_not.mp hallowed, fun job' hjob' hreached => ?_⟩
            obtain rfl := Option.some.inj (hjob.symm.trans hjob')
            rw [effectiveState, hreached]
            cases hasked : asked.terminal with
            | true => exact hasked
            | false => rfl
          · cases h

theorem World.Inv.create {w : World ι} (h : w.Inv m) {i : ι} {job : FleetJob} {spec : Json}
    {now : Double} (hw : w.db.writer = none)
    (hfree : ∀ r ∈ w.db.committed, r.jobId ≠ job.jobId ∧ r.idempotencyKey ≠ job.idempotencyKey) :
    World.Inv m { w.create i job spec now with calls := w.calls + 1 } := by
  have hinsert : insertRow (newRow job spec now w.calls) w.db.committed =
      .ok (w.db.committed ++ [newRow job spec now w.calls], 1) := by
    refine if_neg fun hany => ?_
    obtain ⟨r, hr, htaken⟩ := List.any_eq_true.mp hany
    rcases of_decide_eq_true htaken with hid | hkey
    · exact (hfree r hr).1 hid
    · exact (hfree r hr).2 hkey
  rw [World.create]
  dsimp only
  rw [h.quiet.write_first hw hinsert]
  refine h.writes (Nat.le_succ _) (.inl hw) rfl ?_ ?_
  · exact ⟨_, rfl, .refl _, rfl, rfl, rfl, fun r hr => ⟨(hfree r hr).1, (h.serial_lt hr).ne⟩, h.fresh⟩
  · rintro call hcall
    obtain rfl := Option.some.inj hcall
    exact ⟨Nat.lt_succ_self _, fun e he hraises =>
      absurd (h.logged e he _ (.inr hraises)) (lt_irrefl _)⟩

/-- A connection without a call reads what is committed. -/
theorem World.Inv.view {w : World ι} (h : w.Inv m) {i : ι} (hi : (w.phase i).writing = false) :
    w.db.view i = w.db.committed :=
  h.quiet.view fun v hv hconn => by
    have hwriting := h.writer v hv
    rw [hconn, hi] at hwriting
    cases hwriting

theorem World.Inv.transition {w : World ι} (h : w.Inv m) {i : ι} {a : TransitionArgs}
    (hi : w.phase i = .ready) :
    World.Inv m { w.transition m i a with calls := w.calls + 1 } := by
  have hwas : (w.phase i).writing = false := by rw [hi]; rfl
  have hraised : ∀ e ∈ w.log, e.raises ≠ some w.calls := fun e he hraises =>
    absurd (h.logged e he _ (.inr hraises)) (lt_irrefl _)
  rw [World.transition]
  dsimp only
  rw [h.quiet.select, h.view hwas]
  split
  · rename_i row state t hcheck
    obtain ⟨hfound, hversion, hallowed, htimely⟩ := checkTransition_ok hcheck
    have hrow := h.rows row (List.mem_of_find?_eq_some hfound)
    have hread : ReadOk m w.log a row state :=
      ⟨⟨_, List.prefix_rfl, hrow.traced, hversion ▸ hrow.version⟩, hrow.created, hallowed, htimely⟩
    have hinv : World.Inv m ⟨w.db, Function.update w.phase i (.update w.calls a row state t),
        w.returning, w.log ++ [], w.calls + 1⟩ := h.quietly (Nat.le_succ _) hwas hread
      (fun _ he => absurd he List.not_mem_nil)
      (by
        rintro call hcall
        obtain rfl := Option.some.inj hcall
        exact ⟨Nat.lt_succ_self _, by simpa using hraised⟩)
      (fun _ he => absurd he List.not_mem_nil)
    rwa [List.append_nil] at hinv
  · rename_i e _
    refine h.quietly (Nat.le_succ _) hwas trivial ?_ (fun _ hcall => nomatch hcall) ?_
    · rintro e he
      rw [List.mem_singleton.mp he]
      rfl
    · rintro e he call hcall
      rw [List.mem_singleton.mp he] at hcall
      obtain rfl := Option.some.inj hcall
      refine ⟨Nat.lt_succ_self _, fun e' he' hcommits => ?_, fun j hj => ?_⟩
      · exact absurd (h.logged e' he' _ (.inl hcommits)) (lt_irrefl _)
      · exact absurd (h.active j _ hj) (lt_irrefl _)

theorem keptRows_sublist (limit : ℕ) (rows : List Row) : (keptRows limit rows).Sublist rows :=
  List.filter_sublist

theorem World.Inv.prune {w : World ι} (h : w.Inv m) {i : ι} {call : ℕ} {row : Row}
    {job : FleetJob} (hi : w.phase i = .prune call row job) (limit : ℕ) :
    ∃ n db, w.db.write i (pruneRows limit) = (.ok n, db) ∧
      (w.goOn i db (.commitCreate call row job)).Inv m := by
  obtain ⟨content, hw, hcontent, hrest⟩ := hi ▸ h.phases i
  have hwrite := h.quiet.write_next hw (f := pruneRows limit) rfl
  refine ⟨_, _, hwrite, ?_⟩
  have hcall : (w.phase i).call = some call := by rw [hi]; rfl
  refine h.writes le_rfl (.inr ⟨_, hw, rfl⟩) rfl ?_ ?_
  · exact ⟨_, rfl, (keptRows_sublist _ _).trans hcontent, hrest⟩
  · rintro call' hcall'
    obtain rfl := Option.some.inj hcall'
    exact ⟨h.active i _ hcall, fun e he hraises => (h.raised e he _ hraises).2 i hcall⟩

theorem World.Inv.commitCreate {w : World ι} (h : w.Inv m) {i : ι} {call : ℕ} {row : Row}
    {job : FleetJob} (hi : w.phase i = .commitCreate call row job) {record : Record} :
    (w.finish i (w.db.commit i) [.created call row.spec, .returned call record]).Inv m := by
  obtain ⟨content, hw, hcontent, rfl, hstate, hversion, hfresh, hhistory, hnew⟩ := hi ▸ h.phases i
  have hcommit := Database.commit_writer hw
  have hquiet : ∀ serial, history (w.log ++ [.created row.serial row.spec,
      .returned row.serial record]) serial = history w.log serial := fun serial => by
    rw [history_append]
    exact List.append_nil _
  have hnames : ((w.db.committed ++ [row]).map (·.jobId)).Nodup := by
    rw [List.map_append, List.map_singleton]
    refine h.names.append (List.nodup_singleton _) ?_
    rintro name hname hrow
    obtain ⟨r, hr, rfl⟩ := List.mem_map.mp hname
    exact (hfresh r hr).1 (List.mem_singleton.mp hrow)
  have hserials : ((w.db.committed ++ [row]).map (·.serial)).Nodup := by
    rw [List.map_append, List.map_singleton]
    refine h.serials.append (List.nodup_singleton _) ?_
    rintro serial hserial hrow
    obtain ⟨r, hr, rfl⟩ := List.mem_map.mp hserial
    exact (hfresh r hr).2 (List.mem_singleton.mp hrow)
  rw [World.finish, hcommit]
  refine h.commits hw (by rw [hi]; rfl) (hnames.sublist (hcontent.map _))
    (hserials.sublist (hcontent.map _)) ?_ (fun serial => (hquiet serial) ▸ h.traced serial)
    ?_ ?_ ?_
  · intro r hr
    rcases List.mem_append.mp (hcontent.subset hr) with hr | hr
    · exact (h.rows r hr).mono (hquiet _) fun _ he => List.mem_append_left _ he
    · rw [List.mem_singleton.mp hr]
      refine ⟨?_, ?_, List.mem_append_right _ List.mem_cons_self⟩
      · rw [hquiet, hhistory, hstate]
        exact .nil
      · rw [hquiet, hhistory, hversion]
        rfl
  · intro a ha
    simp at ha
  · intro serial spec hspec
    simp only [List.mem_cons, Event.created.injEq, List.not_mem_nil, or_false, reduceCtorEq] at hspec
    obtain ⟨rfl, rfl⟩ := hspec
    refine ⟨hnew, fun spec' hspec' => ?_⟩
    simp only [List.mem_cons, Event.created.injEq, List.not_mem_nil, or_false, reduceCtorEq,
      true_and] at hspec'
    exact hspec'.symm
  · intro e he
    simp only [List.mem_cons, List.not_mem_nil, or_false] at he
    rcases he with rfl | rfl
    · exact ⟨rfl, .inr rfl⟩
    · exact ⟨rfl, .inl rfl⟩

theorem World.Inv.update {w : World ι} (h : w.Inv m) {i : ι} {call : ℕ} {a : TransitionArgs}
    {read : Row} {state : State} {receipt : Json} (hi : w.phase i = .update call a read state receipt)
    (hw : w.db.writer = none) (hnow : a.now ≠ .nan) {r : Row} (hr : r ∈ w.db.committed)
    (hm : r.matches a.jobId a.expectedVersion = true) (hserial : r.serial = read.serial) :
    (w.update i call a state receipt).Inv m := by
  have hread : w.PhaseOk m i (.update call a read state receipt) := hi ▸ h.phases i
  have hrow := h.rows r hr
  obtain ⟨hid, hversion⟩ := of_decide_eq_true hm
  -- the row has not moved since it was read
  obtain ⟨past, hpast, htraced, hexpected⟩ := hread.past
  have hlength : past.length = (history w.log r.serial).length := by
    have hcount := hrow.version
    rw [hversion, hexpected] at hcount
    omega
  have hsame : past = history w.log r.serial :=
    (hserial ▸ hpast).eq_of_length hlength
  have hstate : r.state = read.state := by
    rw [hrow.traced.state, htraced.state, hsame]
  have hspec : r.spec = read.spec := h.once _ _ _ hrow.created (hserial ▸ hread.created)
  have huniq : ∀ s ∈ w.db.committed, s.matches a.jobId a.expectedVersion = true → s = r :=
    fun s hs hms => h.matched hr hs hm hms
  have hcount : Table.rowcount (Row.matches a.jobId a.expectedVersion) w.db.committed = 1 :=
    Table.rowcount_eq_one (List.Nodup.of_map _ h.names) hr hm huniq
  have hupdate : updateRow a.jobId a.expectedVersion state a.now receipt w.db.committed =
      .ok (Table.update (Row.matches a.jobId a.expectedVersion) (Row.moved state a.now receipt)
        w.db.committed, 1) := by
    rw [updateRow, if_neg fun hbad => hnow hbad.1, hcount]
  have hfind : w.db.committed.find? (Row.matches a.jobId a.expectedVersion) = some r := by
    obtain ⟨s, hs⟩ := List.find?_isSome.mpr ⟨r, hr, hm⟩ |> Option.isSome_iff_exists.mp
    rw [hs, huniq s (List.mem_of_find?_eq_some hs) (List.find?_some hs)]
  have hacquired : w.db.acquired i = some ⟨i, w.db.committed, false⟩ := by
    rw [Database.acquired, hw, h.quiet i]
  have hcall : (w.phase i).call = some call := by rw [hi]; rfl
  rw [World.update, h.quiet.write_first hw hupdate, hacquired, Option.bind_some, hfind]
  refine h.writes le_rfl (.inl hw) rfl ?_ ?_
  · refine ⟨r, hr, Row.moved state a.now receipt, ?_, hid, hid, rfl, rfl, rfl, rfl, rfl, rfl, rfl, rfl, ?_, rfl, ?_⟩
    · rw [hversion]
    · rw [hstate]
      exact hread.allowed
    · rw [hspec]
      exact hread.timely
  · rintro call' hcall'
    obtain rfl := Option.some.inj hcall'
    exact ⟨h.active i _ hcall, fun e he hraises => (h.raised e he _ hraises).2 i hcall⟩

theorem World.Inv.commitUpdate {w : World ι} (h : w.Inv m) {i : ι} {call : ℕ} {jobId : Str}
    {a : Applied} (hi : w.phase i = .commitUpdate call jobId a)
    {returning : ι → List (ℕ × Str)} :
    World.Inv m { w.finish i (w.db.commit i) [.applied a] with returning := returning } := by
  obtain ⟨r, hr, f, hw, rfl, hfid, hfserial, hfspec, hfstate, hfversion, rfl, haserial, hexpected,
    hsource, hallowed, haspec, htimely⟩ := hi ▸ h.phases i
  have hrow := h.rows r hr
  have hm : r.matches r.jobId r.version = true := decide_eq_true ⟨rfl, rfl⟩
  have huniq : ∀ s ∈ w.db.committed, s.matches r.jobId r.version = true → s = r :=
    fun s hs hms => h.matched hr hs hm hms
  have htraced : Traced (history w.log r.serial ++ [a]) a.target :=
    .snoc (hsource ▸ hrow.traced) (hexpected ▸ hrow.version) (hsource ▸ hallowed)
  have hhistory : ∀ serial, history (w.log ++ [.applied a]) serial =
      if r.serial = serial then history w.log serial ++ [a] else history w.log serial := by
    intro serial
    rw [history_append, history_single, haserial]
    split
    · rfl
    · exact List.append_nil _
  rw [World.finish, Database.commit_writer hw]
  refine h.commits hw (by rw [hi]; rfl) ?_ ?_ ?_ ?_ ?_ ?_ ?_
  · rw [Table.keys_update]
    · exact h.names
    · intro s hs hms
      rw [huniq s hs hms, hfid]
  · rw [Table.keys_update]
    · exact h.serials
    · intro s hs hms
      rw [huniq s hs hms, hfserial]
  · intro s hs
    rcases Table.mem_update_of_unique hm huniq hs with rfl | ⟨hs, hne⟩
    · have happended : history (w.log ++ [.applied a]) (f r).serial =
          history w.log r.serial ++ [a] := by
        rw [hhistory, hfserial, if_pos rfl]
      refine ⟨?_, ?_, ?_⟩
      · rw [happended, hfstate]
        exact htraced
      · rw [happended, hfversion, hrow.version, List.length_append, List.length_singleton]
        rfl
      · rw [hfserial, hfspec]
        exact List.mem_append_left _ hrow.created
    · refine (h.rows s hs).mono ?_ fun _ he => List.mem_append_left _ he
      rw [hhistory, if_neg fun he => hne (Table.eq_of_key h.serials hs hr he.symm)]
  · intro serial
    rw [hhistory]
    split
    · rename_i hserial
      exact ⟨_, hserial ▸ htraced⟩
    · exact h.traced serial
  · intro b hb
    obtain rfl := Event.applied.inj (List.mem_singleton.mp hb)
    rw [haserial, haspec]
    exact ⟨htimely, hrow.created⟩
  · intro serial spec hspec
    cases List.mem_singleton.mp hspec
  · intro e he
    rw [List.mem_singleton.mp he]
    exact ⟨rfl, .inr rfl⟩

variable {maxJobs : ι → ℕ}

theorem World.Inv.next {w : World ι} (h : w.Inv m) {i : ι} (hclean : Label.Clean m w (.next i)) :
    (w.next m maxJobs i).Inv m := by
  rw [World.next]
  split
  · exact h
  · rename_i call row job hi
    obtain ⟨n, db, hwrite, hinv⟩ := h.prune hi (max 100 (min (maxJobs i) 500000))
    rw [hwrite]
    exact hinv
  · rename_i call row job hi
    exact h.commitCreate hi
  · rename_i call job hi
    have hno : w.PhaseOk m i (.existing call job) := hi ▸ h.phases i
    exact hno.elim
  · rename_i call a read state receipt hi
    obtain ⟨hw, hnow, r, hr, hm, hserial⟩ := hclean call a read state receipt hi
    exact h.update hi hw hnow hr hm hserial
  · rename_i call jobId a hi
    exact h.commitUpdate hi

theorem World.Inv.read {w : World ι} (h : w.Inv m) {i : ι} (hi : w.phase i = .ready) {call : ℕ}
    {jobId : Str} (hclean : Label.Clean m w (.read i call jobId)) :
    (w.read m i call jobId).Inv m := by
  have hwas : (w.phase i).writing = false := by rw [hi]; rfl
  obtain ⟨r, hfound, hdecodes⟩ := hclean
  obtain ⟨record, hrecord⟩ := Option.isSome_iff_exists.mp hdecodes
  rw [World.read]
  dsimp only
  rw [h.view hwas, h.quiet.select, hfound, Option.map_some, hrecord]
  refine h.quietly le_rfl hwas trivial ?_ (fun _ hcall => nomatch hcall) ?_
  · rintro e he
    rw [List.mem_singleton.mp he]
    rfl
  · rintro e he call' hcall
    rw [List.mem_singleton.mp he] at hcall
    cases hcall

theorem World.Inv.exec {w w' : World ι} (h : w.Inv m) {l : Label ι} (hclean : l.Clean m w)
    (hexec : w.exec m maxJobs l = some w') : w'.Inv m := by
  cases l with
  | create i job now =>
    rw [World.exec] at hexec
    split at hexec
    · obtain rfl := Option.some.inj hexec
      exact h.create hclean.1 hclean.2
    · cases hexec
  | transition i a =>
    rw [World.exec] at hexec
    split at hexec
    · rename_i hi
      obtain rfl := Option.some.inj hexec
      exact h.transition hi
    · cases hexec
  | next i =>
    obtain rfl := Option.some.inj hexec
    exact h.next hclean
  | read i call jobId =>
    rw [World.exec] at hexec
    split at hexec
    · rename_i hi
      split at hexec
      · obtain rfl := Option.some.inj hexec
        exact h.read hi hclean
      · cases hexec
    · cases hexec

/-! ### Runs -/

abbrev AnyRun (m : Machine) (maxJobs : ι → ℕ) : List (Label ι) → World ι → Prop :=
  Run (fun w l w' => w.exec m maxJobs l = some w') .start

/-- Runs whose statements are all clean. -/
abbrev CleanRun (m : Machine) (maxJobs : ι → ℕ) : List (Label ι) → World ι → Prop :=
  Run (Guarded (fun w l => l.Clean m w) fun w l w' => w.exec m maxJobs l = some w') .start

omit [DecidableEq ι] in
theorem World.Inv.start : (World.start : World ι).Inv m where
  quiet _ := rfl
  names := .nil
  serials := .nil
  rows _ hr := absurd hr List.not_mem_nil
  traced _ := ⟨_, .nil⟩
  timely _ ha := absurd ha List.not_mem_nil
  once _ _ _ hs := absurd hs List.not_mem_nil
  phases _ := trivial
  writer _ hv := nomatch hv
  active _ _ hcall := nomatch hcall
  logged _ he := absurd he List.not_mem_nil
  raised _ he := absurd he List.not_mem_nil

theorem World.Inv.run {labels : List (Label ι)} {w : World ι} (h : CleanRun m maxJobs labels w) :
    w.Inv m :=
  h.invariant (fun _ _ _ hinv hstep => hinv.exec hstep.1 hstep.2) .start

theorem World.Inv.healthy {w : World ι} (h : w.Inv m) : w.Healthy m where
  rows r hr := ⟨(h.rows r hr).traced, (h.rows r hr).version⟩
  traced := h.traced
  timely := h.timely
  closed i hi := by
    rw [h.quiet.inTransaction]
    rcases hw : w.db.writer with _ | v
    · rfl
    · refine decide_eq_false fun hconn => ?_
      have hwriting := h.writer v hw
      rw [hconn, hi] at hwriting
      cases hwriting
  raised e he call hcall := (h.raised e he call hcall).1

/-- What a second creation under a key does once its insertion was refused. -/
theorem existing_iff {w : World ι} {i : ι} {call : ℕ} {job : FleetJob} {row : Row}
    (hi : w.phase i = .existing call job)
    (hfound : findKey job.idempotencyKey (w.db.view i) = some row)
    (hspec : job.spec m = some row.spec) :
    (∃ record, row.decode m = some record ∧
      (w.next m maxJobs i).log = w.log ++ [.returned call record]) ↔ job.Reloads m := by
  rw [World.next, hi]
  dsimp only
  rw [World.existing, hfound]
  dsimp only
  rcases hjob : FleetJob.ofSpec m row.spec with _ | job'
  · have hdecode : row.decode m = none := by rw [Row.decode, hjob]; rfl
    constructor
    · rintro ⟨record, hrecord, -⟩
      rw [hdecode] at hrecord
      cases hrecord
    · rintro ⟨spec, job', hspec', hjob', -⟩
      obtain rfl := Option.some.inj (hspec.symm.trans hspec')
      rw [hjob] at hjob'
      cases hjob'
  · have hdecode : row.decode m =
        some ⟨job', row.state, row.version, row.updatedAt, row.result.loads⟩ := by
      rw [Row.decode, hjob]
      rfl
    rw [hdecode]
    dsimp only
    by_cases hdigest : job'.digest m = job.digest m
    · rw [if_neg (not_not.mpr hdigest)]
      exact ⟨fun _ => ⟨_, _, hspec, hjob, hdigest⟩, fun _ => ⟨_, rfl, rfl⟩⟩
    · rw [if_pos hdigest]
      constructor
      · rintro ⟨record, -, hlog⟩
        cases List.append_cancel_left hlog
      · rintro ⟨spec, job'', hspec', hjob'', hdigest'⟩
        obtain rfl := Option.some.inj (hspec.symm.trans hspec')
        obtain rfl := Option.some.inj (hjob.symm.trans hjob'')
        exact absurd hdigest' hdigest

/-- CORRECT: in a run of clean statements every call keeps its promises, and a job that is created
    again under its key is answered with the stored record if and only if its stored text is read
    back to a job with the same digest. That of a job whose arguments have, at every level, keys
    that sort as their texts is. -/
theorem run_promises (m : Machine) (maxJobs : ι → ℕ) :
    (∀ labels w, CleanRun m maxJobs labels w → w.Healthy m) ∧
    (∀ (w : World ι) i call job row, w.phase i = .existing call job →
      findKey job.idempotencyKey (w.db.view i) = some row → job.spec m = some row.spec →
        ((∃ record, row.decode m = some record ∧
          (w.next m maxJobs i).log = w.log ++ [.returned call record]) ↔ job.Reloads m)) ∧
    ∀ job : FleetJob, job.valid m = true → (Value.dict job.arguments).aligned m.repr = true →
      job.Reloads m :=
  ⟨fun _ _ hrun => (World.Inv.run hrun).healthy,
    fun _ _ _ _ _ hi hfound hspec => existing_iff hi hfound hspec,
    fun _ hvalid haligned => FleetJob.reloads hvalid haligned⟩

/-! ### A job staged, and a job created twice -/

def sampleJob (arguments : List (Key × Value)) : FleetJob where
  jobId := "job-00000001".toList
  idempotencyKey := "idempotent-1".toList
  operationId := "collect.logs".toList
  arguments := arguments
  target := ⟨["device-0001".toList], [], [], 1⟩
  createdAt := Double.ofNat 1000 (by decide)
  expiresAt := Double.ofNat 2000 (by decide)
  dryRun := true
  approvalDigest := []

/-- The key that the arguments of a dumped job begin with. -/
def firstArgument : Json → Option Str
  | .obj members => match (members.find? (·.1 = "arguments".toList)).map Prod.snd with
    | some (.obj ((name, _) :: _)) => some name
    | _ => none
  | _ => none

/-- A machine with the digests of the three texts that the sample jobs have. -/
def sampleMachine : Machine where
  repr d := if d = Double.ofNat 1000 (by decide) then "1000.0".toList else "2000.0".toList
  sha256 j :=
    match firstArgument j with
    | none => "c9dbacafbb892b3c212d4feda5f19bd3bf17873875d240c70cb8995c30e61dbc".toList
    | some name =>
      if name = ['2'] then
        "a947ea5c0f5b0d1d0276fc9852f3c99093f4ac1e1b151401a1fa4fe303bdfd99".toList
      else "c3a730a672b3c3df103f6f6c5c2dc8384d1a6d04a8205361c19f7af73b79ad10".toList

/-- Whether a statement is seen to be clean. -/
def Label.cleanly (m : Machine) (w : World ι) : Label ι → Bool
  | .create _ job _ => w.db.writer.isNone && w.db.committed.all fun r =>
      r.jobId ≠ job.jobId ∧ r.idempotencyKey ≠ job.idempotencyKey
  | .transition _ _ => true
  | .next i =>
    match w.phase i with
    | .update _ a found _ _ => w.db.writer.isNone && a.now ≠ .nan && w.db.committed.any fun r =>
        r.matches a.jobId a.expectedVersion && r.serial = found.serial
    | _ => true
  | .read _ _ jobId => (findJob jobId w.db.committed).any fun r => (r.decode m).isSome

omit [DecidableEq ι] in
theorem Label.clean_of_cleanly {w : World ι} {l : Label ι} (h : l.cleanly m w = true) :
    l.Clean m w := by
  cases l with
  | create i job now =>
    obtain ⟨hwriter, hfree⟩ := Bool.and_eq_true_iff.mp h
    refine ⟨Option.isNone_iff_eq_none.mp hwriter, fun r hr => ?_⟩
    exact of_decide_eq_true (List.all_eq_true.mp hfree r hr)
  | transition i a => trivial
  | next i =>
    intro call a read state receipt hi
    rw [Label.cleanly, hi] at h
    simp only [Bool.and_eq_true, Option.isNone_iff_eq_none, decide_eq_true_eq, List.any_eq_true] at h
    obtain ⟨⟨hwriter, hnow⟩, r, hr, hm, hserial⟩ := h
    exact ⟨hwriter, hnow, r, hr, hm, hserial⟩
  | read i call jobId =>
    rw [Label.cleanly] at h
    obtain ⟨r, hr, hdecodes⟩ := (Option.any_eq_true _ _).mp h
    exact ⟨r, hr, hdecodes⟩

/-- Executing statements that are seen to be clean is a clean run. -/
theorem cleanRun_of_exec {labels : List (Label ι)} {f : World ι → Bool}
    (h : (labels.foldlM (fun (w : World ι) (l : Label ι) =>
      if l.cleanly m w then w.exec m maxJobs l else none) World.start).any f = true) : ∃ w, CleanRun m maxJobs labels w ∧ f w = true := by
  obtain ⟨w, hw, hf⟩ := (Option.any_eq_true _ _).mp h
  refine ⟨w, (Run.of_exec hw).mono fun w l w' hstep => ?_, hf⟩
  split at hstep
  · rename_i hclean
    exact ⟨Label.clean_of_cleanly hclean, hstep⟩
  · cases hstep

/-- One store creates the job, and another one stages it, with a receipt, and reads it. -/
def stagedOnce : List (Label Bool) :=
  [.create false (sampleJob []) (Double.ofNat 1000 (by decide)), .next false, .next false,
    .transition true ⟨"job-00000001".toList, some .staged, 1,
      .finite (Double.ofNat 1500 (by decide)), [(.str "ok".toList, .bool true)]⟩,
    .next true, .next true, .read true 1 "job-00000001".toList]

/-- What a call has returned. -/
def Event.reply : Event → Option (ℕ × State × ℤ)
  | .returned call record => some (call, record.state, record.version)
  | _ => none

/-- The created job, its transition and its reading are such a run. -/
theorem run_promises_staged : ∃ w, CleanRun sampleMachine (fun _ => 100) stagedOnce w ∧
    w.log.filterMap Event.reply = [(0, .created, 1), (1, .staged, 2)] ∧ w.Healthy sampleMachine := by
  have hexec : (stagedOnce.foldlM (fun (w : World Bool) (l : Label Bool) =>
      if l.cleanly sampleMachine w then w.exec sampleMachine (fun _ => 100) l else none)
      World.start).any (fun w =>
        w.log.filterMap Event.reply = [(0, .created, 1), (1, .staged, 2)]) = true := by
    decide +kernel
  obtain ⟨w, hrun, hreplies⟩ := cleanRun_of_exec hexec
  exact ⟨w, hrun, of_decide_eq_true hreplies, (run_promises sampleMachine _).1 _ _ hrun⟩

/-- One store creates the job twice. -/
def createTwice (job : FleetJob) : List (Label Unit) :=
  [.create () job (Double.ofNat 1000 (by decide)), .next (), .next (),
    .create () job (Double.ofNat 1001 (by decide)), .next ()]

/-- The instance is between calls with an open transaction. -/
def World.leftOpen (w : World Unit) : Bool :=
  match w.phase () with
  | .ready => w.db.inTransaction ()
  | _ => false

def Event.refused : Event → Bool
  | .raised 1 .value => true
  | _ => false

theorem run_of_exec {labels : List (Label ι)} {maxJobs : ι → ℕ} {f : World ι → Bool}
    (h : (labels.foldlM (World.exec m maxJobs) .start).any f = true) :
    ∃ w, AnyRun m maxJobs labels w ∧ f w = true := by
  obtain ⟨w, hw, hf⟩ := (Option.any_eq_true _ _).mp h
  exact ⟨w, .of_exec hw, hf⟩

/-- The second creation returns the stored record and leaves the transaction open; with the
    arguments `{2: 1, 10: 1}` it raises instead. -/
theorem created_twice :
    (∃ w, AnyRun sampleMachine (fun _ => 100) (createTwice (sampleJob [])) w ∧
      w.leftOpen = true) ∧
    ∃ w, AnyRun sampleMachine (fun _ => 100)
      (createTwice (sampleJob [(.int 2, .int 1), (.int 10, .int 1)])) w ∧
      w.log.any Event.refused = true :=
  ⟨run_of_exec (by decide +kernel), run_of_exec (f := fun w => w.log.any Event.refused)
    (by decide +kernel)⟩

end Angerona.Fleet
