import Angerona.EventLog.Checkpoint
import Angerona.Lib.Transition

/-!
    What a load may call authenticated.

    The head of the authority is the last pair that a save committed, and the pairs it committed are
    numbered from one. Everything the files ever held was signed by a save. -/

namespace Angerona.EventLog
open Text Transition

variable {sizes : Sizes} {w w' : World} {pair : Pair} {cps : Checkpoints}

/-- The digest of a pair. -/
def pairDigest (pair : Pair) : Digest :=
  .pair pair.2.body.enrollmentId pair.2.body.revision pair.1 pair.2

/-! ### The order of a load -/

/-- Only a head of this revision and digest is fresh. -/
theorem assess_fresh {authority : Str × Except Fault (Option Head)} {installationId : Str}
    {revision : ℕ} {d : Digest}
    (h : (assessHighWater (some authority) installationId revision d).independentlyFresh = true) :
    ∃ head, authority.2 = .ok (some head) ∧ head.revision = revision ∧ head.stateDigest = d := by
  obtain ⟨i, observed⟩ := authority
  unfold assessHighWater at h
  dsimp only at h
  split at h
  · exact absurd h (by simp)
  · split at h
    · exact absurd h (by simp)
    · rcases observed with (_ | _) | _ | head
      · exact absurd h (by simp)
      · exact absurd h (by simp)
      · exact absurd h (by simp)
      · dsimp only at h
        split at h
        · exact absurd h (by simp)
        · split at h
          · exact absurd h (by simp)
          · rename_i hle
            split at h
            · exact absurd h (by simp)
            · rename_i hge
              split at h
              · exact absurd h (by simp)
              · rename_i hd
                exact ⟨head, rfl, by omega, not_not.mp hd⟩

theorem parseCursor_eq {key : Option Key} {payload : Sealed Cursor} {cursor : Cursor}
    (h : parseCursor key payload = some cursor) : cursor = payload.body ∧ key = some payload.key := by
  rw [parseCursor] at h
  split at h
  · rename_i hok
    exact ⟨(Option.some.inj h).symm, hok.1.2.2.2⟩
  · exact absurd h (by simp)

theorem parseEnrollment_eq {key : Option Key} {payload : Sealed Enrollment}
    {enrollment : Enrollment} (h : parseEnrollment key payload = some enrollment) :
    enrollment = payload.body ∧ key = some payload.key := by
  rw [parseEnrollment] at h
  split at h
  · rename_i hok
    exact ⟨(Option.some.inj h).symm, hok.2.2⟩
  · exact absurd h (by simp)

/-- What a load found that it calls authenticated. -/
structure Proven (c : Checkpoint) (cursor : Found Cursor) (enrollment : Found Enrollment)
    (observed : Except Fault (Option Head)) (cps : Checkpoints) (pair : Pair) : Prop where
  cursor : cursor = .present pair.1
  enrollment : enrollment = .present pair.2
  cursorKey : c.key = some pair.1.key
  enrollmentKey : c.key = some pair.2.key
  sameId : pair.1.body.enrollmentId = pair.2.body.enrollmentId
  sameRevision : pair.1.body.revision = pair.2.body.revision
  channels : cps = pair.1.body.channels
  fresh : c.installation ≠ none → ∃ head, observed = .ok (some head) ∧
    head.revision = pair.2.body.revision ∧ head.stateDigest = pairDigest pair

theorem loadNothing_ne (c : Checkpoint) (observed : Except Fault (Option Head)) :
    (c.loadNothing observed).2.2 ≠ .authenticated := by
  rw [Checkpoint.loadNothing]
  dsimp only
  split
  · simp
  · simp

theorem loadRaised_ne (c : Checkpoint) : c.loadRaised.2.2 ≠ .authenticated := by
  simp [Checkpoint.loadRaised]

theorem loadPair_authenticated {c : Checkpoint} {observed : Except Fault (Option Head)}
    {cursor : Cursor} (h : (c.loadPair observed pair.1 pair.2 cursor).2 = (cps, .authenticated)) :
    cps = cursor.channels ∧ (c.installation ≠ none → ∃ head, observed = .ok (some head) ∧
      head.revision = c.revision ∧
      head.stateDigest = .pair c.enrollmentId c.revision pair.1 pair.2) := by
  rw [Checkpoint.loadPair] at h
  dsimp only at h
  split at h
  · exact absurd (congrArg Prod.snd h) (by simp)
  · split at h
    · exact absurd (congrArg Prod.snd h) (by simp)
    · rename_i hfresh
      refine ⟨(congrArg Prod.fst h).symm, fun hguarded => ?_⟩
      have hyes : (assessHighWater (c.asked observed) c.enrollmentId c.revision
          (.pair c.enrollmentId c.revision pair.1 pair.2)).independentlyFresh = true := by
        by_contra hn
        exact hfresh ⟨hguarded, Bool.not_eq_true _ ▸ hn⟩
      obtain ⟨i, hi⟩ := Option.ne_none_iff_exists'.mp hguarded
      rw [Checkpoint.asked, hi, Option.map_some] at hyes
      exact assess_fresh hyes

theorem loadEpoch_authenticated {c : Checkpoint} {observed : Except Fault (Option Head)}
    {found : Found Cursor} {epoch : Sealed Enrollment}
    (hkey : c.key = some epoch.key)
    (h : (c.loadEpoch observed found epoch epoch.body).2 = (cps, .authenticated)) :
    ∃ pair, Proven c found (.present epoch) observed cps pair := by
  unfold Checkpoint.loadEpoch at h
  rcases found with _ | _ | primary
  · exact absurd (congrArg Prod.snd h) (by simp)
  · exact absurd (congrArg Prod.snd h) (by simp)
  · dsimp only at h
    rcases hparse : parseCursor c.key primary with _ | cursor
    · rw [hparse, Option.elim_none] at h
      exact absurd (congrArg Prod.snd h) (loadRaised_ne _)
    · rw [hparse, Option.elim_some] at h
      obtain ⟨rfl, hkey'⟩ := parseCursor_eq hparse
      split at h
      · exact absurd (congrArg Prod.snd h) (loadRaised_ne _)
      · rename_i hsame
        rw [not_or, not_not, not_not] at hsame
        obtain ⟨hcps, hfresh⟩ := @loadPair_authenticated (primary, epoch) _ _ _ _ h
        exact ⟨(primary, epoch), rfl, rfl, hkey', hkey, hsame.1, hsame.2, hcps, hfresh⟩

/-- The only way to `authenticated`. -/
theorem load_authenticated {c : Checkpoint} {cursor : Found Cursor}
    {enrollment : Found Enrollment} {observed : Except Fault (Option Head)}
    (h : (c.load cursor enrollment observed).2 = (cps, .authenticated)) :
    ∃ pair, Proven c cursor enrollment observed cps pair := by
  have hepoch : ∀ {c : Checkpoint} {found : Found Cursor} {epoch : Sealed Enrollment},
      ((parseEnrollment c.key epoch).elim c.loadRaised fun e =>
        c.loadEpoch observed found epoch e).2 = (cps, .authenticated) →
      ∃ pair, Proven c found (.present epoch) observed cps pair := by
    intro c found epoch h
    rcases hparse : parseEnrollment c.key epoch with _ | e
    · rw [hparse, Option.elim_none] at h
      exact absurd (congrArg Prod.snd h) (loadRaised_ne _)
    · rw [hparse, Option.elim_some] at h
      obtain ⟨rfl, hkey⟩ := parseEnrollment_eq hparse
      exact loadEpoch_authenticated hkey h
  unfold Checkpoint.load at h
  dsimp only at h
  rcases cursor with _ | _ | primary
  · exact absurd (congrArg Prod.snd h) (loadRaised_ne _)
  · rcases enrollment with _ | _ | epoch
    · exact absurd (congrArg Prod.snd h) (loadRaised_ne _)
    · exact absurd (congrArg Prod.snd h) (loadNothing_ne _ _)
    · obtain ⟨pair, hp⟩ := hepoch (c := { c with
        recoveryAllowed := false
        expectedCursor := .missing
        expectedEnrollment := .present epoch }) h
      exact absurd hp.cursor (by simp)
  · rcases enrollment with _ | _ | epoch
    · exact absurd (congrArg Prod.snd h) (loadRaised_ne _)
    · exact absurd (congrArg Prod.snd h) (loadRaised_ne _)
    · obtain ⟨pair, hp⟩ := hepoch (c := { c with
        recoveryAllowed := false
        expectedCursor := .present primary
        expectedEnrollment := .present epoch }) h
      exact ⟨pair, hp.cursor, hp.enrollment, hp.cursorKey, hp.enrollmentKey, hp.sameId,
        hp.sameRevision, hp.channels, hp.fresh⟩

/-! ### What every act keeps -/

/-- What was read was signed. -/
def Found.From {α : Type} (f : Pair → Sealed α) (signed : List Pair) (x : Found α) : Prop :=
  ∀ v, x = .present v → ∃ pair ∈ signed, f pair = v

def Phase.Known (signed : List Pair) : Phase → Prop
  | .idle => True
  | .cursorRead cursor => cursor.From Prod.fst signed
  | .bothRead cursor enrollment => cursor.From Prod.fst signed ∧ enrollment.From Prod.snd signed
  | .cursorChecked _ => True
  | .signed pair => pair ∈ signed
  | .admitted pair => pair ∈ signed
  | .cursorWritten pair => pair ∈ signed

/-- The invariant of the files, the authority and the processes. -/
structure World.Inv (w : World) : Prop where
  tip : w.authority.head.map (fun h => (h.revision, h.stateDigest)) =
    w.commits.getLast?.map fun pair => (pair.2.body.revision, pairDigest pair)
  numbered : w.commits.map (fun pair => pair.2.body.revision) = List.range' 1 w.commits.length
  cursor : ∀ v, w.cursor = some v → v ∈ w.cursorVersions
  cursorVersions : ∀ v ∈ w.cursorVersions, ∃ pair ∈ w.signed, pair.1 = v
  enrollment : ∀ v, w.enrollment = some v → v ∈ w.enrollmentVersions
  enrollmentVersions : ∀ v ∈ w.enrollmentVersions, ∃ pair ∈ w.signed, pair.2 = v
  procs : ∀ q p, w.procs q = some p → p.phase.Known w.signed

theorem Found.From.mono {α : Type} {f : Pair → Sealed α} {signed : List Pair} {x : Found α}
    (h : x.From f signed) (pair : Pair) : x.From f (signed ++ [pair]) := by
  intro v hv
  obtain ⟨pair', hmem, he⟩ := h v hv
  exact ⟨pair', List.mem_append_left _ hmem, he⟩

theorem Phase.Known.mono {signed : List Pair} {phase : Phase} (h : phase.Known signed)
    (pair : Pair) : phase.Known (signed ++ [pair]) := by
  cases phase with
  | idle => trivial
  | cursorRead cursor => exact Found.From.mono h pair
  | bothRead cursor enrollment => exact ⟨Found.From.mono h.1 pair, Found.From.mono h.2 pair⟩
  | cursorChecked cursor => trivial
  | signed pair' => exact List.mem_append_left _ h
  | admitted pair' => exact List.mem_append_left _ h
  | cursorWritten pair' => exact List.mem_append_left _ h

theorem from_found {α : Type} {f : Pair → Sealed α} {signed : List Pair}
    {file : Option (Sealed α)} (h : ∀ v, file = some v → ∃ pair ∈ signed, f pair = v)
    (readable : Bool) : (found file readable).From f signed := by
  intro v hv
  rw [found] at hv
  split at hv
  · rcases file with _ | v'
    · exact absurd hv (by simp)
    · obtain rfl := Found.present.inj hv
      exact h v' rfl
  · exact absurd hv (by simp)

theorem World.Inv.cursor_signed (h : w.Inv) (v : Sealed Cursor) (hv : w.cursor = some v) :
    ∃ pair ∈ w.signed, pair.1 = v := h.cursorVersions v (h.cursor v hv)

theorem World.Inv.enrollment_signed (h : w.Inv) (v : Sealed Enrollment)
    (hv : w.enrollment = some v) : ∃ pair ∈ w.signed, pair.2 = v :=
  h.enrollmentVersions v (h.enrollment v hv)

theorem World.Inv.setProc (h : w.Inv) (proc : ℕ) {p : Proc} (hp : p.phase.Known w.signed) :
    (w.setProc proc p).Inv := by
  refine ⟨h.tip, h.numbered, h.cursor, h.cursorVersions, h.enrollment, h.enrollmentVersions,
    fun q p' hq => ?_⟩
  have hupd : Function.update w.procs proc (some p) q = some p' := hq
  by_cases hqp : q = proc
  · rw [hqp, Function.update_self] at hupd
    obtain rfl := Option.some.inj hupd
    exact hp
  · rw [Function.update_of_ne hqp] at hupd
    exact h.procs q p' hupd

theorem World.Inv.sign (h : w.Inv) (pair : Pair) :
    World.Inv { w with signed := w.signed ++ [pair] } := by
  refine ⟨h.tip, h.numbered, h.cursor, fun v hv => ?_, h.enrollment, fun v hv => ?_,
    fun q p hq => (h.procs q p hq).mono pair⟩
  · obtain ⟨pair', hmem, he⟩ := h.cursorVersions v hv
    exact ⟨pair', List.mem_append_left _ hmem, he⟩
  · obtain ⟨pair', hmem, he⟩ := h.enrollmentVersions v hv
    exact ⟨pair', List.mem_append_left _ hmem, he⟩

theorem World.Inv.replaceCursor (h : w.Inv) (hpair : pair ∈ w.signed) :
    (w.replaceCursor pair.1).Inv := by
  refine ⟨h.tip, h.numbered, fun v hv => ?_, fun v hv => ?_, h.enrollment, h.enrollmentVersions,
    h.procs⟩
  · obtain rfl := Option.some.inj hv
    exact List.mem_append_right _ (List.mem_singleton_self _)
  · rcases List.mem_append.mp hv with hv | hv
    · exact h.cursorVersions v hv
    · exact ⟨pair, hpair, (List.mem_singleton.mp hv).symm⟩

theorem World.Inv.replaceEnrollment (h : w.Inv) (hpair : pair ∈ w.signed) :
    (w.replaceEnrollment pair.2).Inv := by
  refine ⟨h.tip, h.numbered, h.cursor, h.cursorVersions, fun v hv => ?_, fun v hv => ?_, h.procs⟩
  · obtain rfl := Option.some.inj hv
    exact List.mem_append_right _ (List.mem_singleton_self _)
  · rcases List.mem_append.mp hv with hv | hv
    · exact h.enrollmentVersions v hv
    · exact ⟨pair, hpair, (List.mem_singleton.mp hv).symm⟩

/-- The revision of the head is the number of commits. -/
theorem World.Inv.current_revision (h : w.Inv) : w.authority.current.1 = w.commits.length := by
  have htip := h.tip
  have hnum := h.numbered
  rw [Authority.current]
  rcases hhead : w.authority.head with _ | head
  · rw [hhead, Option.map_none, eq_comm, Option.map_eq_none_iff, List.getLast?_eq_none_iff] at htip
    rw [htip]
    rfl
  · rw [hhead, Option.map_some, eq_comm, Option.map_eq_some_iff] at htip
    obtain ⟨pair, hlast, hsame⟩ := htip
    rw [Option.elim_some, ← congrArg Prod.fst hsame]
    obtain ⟨before, hcommits⟩ := List.getLast?_eq_some_iff.mp hlast
    rw [hcommits, List.map_append, List.length_append, List.length_singleton,
      ← List.range'_append_1] at hnum
    have htail := List.append_inj_right hnum (by simp)
    rw [hcommits]
    simpa [Nat.add_comm] using htail

/-- A committed transition is the next one. -/
theorem World.Inv.commit (h : w.Inv) {t : HighWaterTransition} {token : Str} {authority : Authority}
    (hserved : w.authority.compareAndAdvance t token = some authority)
    (hrevision : t.revision = pair.2.body.revision) (hdigest : t.stateDigest = pairDigest pair) :
    World.Inv { w with authority, commits := w.commits ++ [pair] } := by
  rw [Authority.compareAndAdvance] at hserved
  split at hserved
  · rename_i hsame
    obtain ⟨-, hnext, hcurrent⟩ := hsame
    have hlength : t.previousRevision = w.commits.length :=
      (congrArg Prod.fst hcurrent).trans h.current_revision
    obtain rfl := Option.some.inj hserved
    refine ⟨?_, ?_, h.cursor, h.cursorVersions, h.enrollment, h.enrollmentVersions, h.procs⟩
    · dsimp only
      rw [List.getLast?_append_of_ne_nil _ (by simp), List.getLast?_singleton, Option.map_some,
        Option.map_some, hrevision, hdigest]
    · dsimp only
      rw [List.map_append, h.numbered, List.length_append, List.length_singleton,
        ← List.range'_append_1, List.map_singleton, ← hrevision, hnext, hlength, Nat.add_comm]
      rfl
  · exact absurd hserved (by simp)

/-- The authority is as it was, or has committed. -/
theorem serve_cases (w : World) (answer : Answer) (t : HighWaterTransition) (token : Str)
    (pair : Pair) : (w.serve answer t token pair).1 = w ∨
      ∃ authority, w.authority.compareAndAdvance t token = some authority ∧
        (w.serve answer t token pair).1 = { w with authority, commits := w.commits ++ [pair] } := by
  cases answer with
  | lostBefore => exact .inl rfl
  | lostAfter =>
    rcases hserved : w.authority.compareAndAdvance t token with _ | authority
    · exact .inl (by simp [World.serve, hserved])
    · exact .inr ⟨authority, rfl, by simp [World.serve, hserved]⟩
  | answered =>
    rcases hserved : w.authority.compareAndAdvance t token with _ | authority
    · exact .inl (by simp [World.serve, hserved])
    · exact .inr ⟨authority, rfl, by simp [World.serve, hserved]⟩

theorem World.Inv.serve (h : w.Inv) (answer : Answer) {t : HighWaterTransition} (token : Str)
    (hrevision : t.revision = pair.2.body.revision) (hdigest : t.stateDigest = pairDigest pair) :
    (w.serve answer t token pair).1.Inv ∧ (w.serve answer t token pair).1.signed = w.signed := by
  rcases serve_cases w answer t token pair with hsame | ⟨authority, hserved, hcommit⟩
  · rw [hsame]
    exact ⟨h, rfl⟩
  · rw [hcommit]
    exact ⟨h.commit hserved hrevision hdigest, rfl⟩

theorem World.Inv.advance (h : w.Inv) (proc : ℕ) (object : Checkpoint) (installation : Str)
    (answer : Answer) (token : Str) (hpair : pair ∈ w.signed) :
    (w.advance proc object installation answer token pair).Inv := by
  have hphase : ∀ {signed : List Pair} (b : Bool), pair ∈ signed →
      Phase.Known signed (if b then .admitted pair else .idle) := by
    intro signed b hmem
    split
    · exact hmem
    · trivial
  rw [World.advance]
  by_cases hok : (object.transition pair).ok installation = true
  · rw [if_pos hok]
    obtain ⟨hinv, hsigned⟩ := h.serve answer (t := object.transition pair) token rfl rfl
    exact hinv.setProc proc (hphase _ (hsigned ▸ hpair))
  · rw [if_neg hok]
    exact h.setProc proc (hphase _ hpair)

theorem World.Inv.writeCursor (h : w.Inv) (proc : ℕ) (object : Checkpoint) (replaced failed : Bool)
    (hpair : pair ∈ w.signed) :
    ((if replaced ∨ failed = false then w.replaceCursor pair.1 else w).setProc proc
      (if failed then ⟨object.writeFailed pair, .idle⟩ else ⟨object, .cursorWritten pair⟩)).Inv := by
  have hphase : ∀ {signed : List Pair}, pair ∈ signed → Phase.Known signed
      (if failed then (⟨object.writeFailed pair, .idle⟩ : Proc)
        else ⟨object, .cursorWritten pair⟩).phase := by
    intro signed hmem
    split
    · trivial
    · exact hmem
  split
  · exact (h.replaceCursor hpair).setProc proc (hphase hpair)
  · exact h.setProc proc (hphase hpair)

theorem World.Inv.writeEnrollment (h : w.Inv) (proc : ℕ) (object : Checkpoint)
    (replaced failed : Bool) (hpair : pair ∈ w.signed) :
    ((if replaced ∨ failed = false then w.replaceEnrollment pair.2 else w).setProc proc
      ⟨object, .idle⟩).Inv := by
  split
  · exact (h.replaceEnrollment hpair).setProc proc trivial
  · exact h.setProc proc trivial

/-- A step of a process keeps the invariant. -/
theorem World.Inv.step (h : w.Inv) {proc : ℕ} {p : Proc} (hp : w.procs proc = some p) (a : Act) :
    (w.step sizes proc p a).Inv := by
  have hknown := h.procs proc p hp
  cases a with
  | start _ _ _ => exact h
  | putCursor _ => exact h
  | putEnrollment _ => exact h
  | readCursor _ readable =>
    rw [World.step]
    split
    · exact h.setProc proc (from_found h.cursor_signed readable)
    · exact h
  | readEnrollment _ readable =>
    rw [World.step]
    split
    · rename_i cursor hphase
      rw [hphase] at hknown
      exact h.setProc proc ⟨hknown, from_found h.enrollment_signed readable⟩
    · exact h
  | assess _ answer =>
    rw [World.step]
    split
    · exact h.setProc proc trivial
    · exact h
  | checkCursor _ readable =>
    rw [World.step]
    split
    · exact h.setProc proc trivial
    · exact h
  | sign _ readable call =>
    rw [World.step]
    split
    · rename_i cursor hphase
      rcases p.object.saveStarts sizes cursor (found w.enrollment readable) call with _ | pair
      · exact h.setProc proc trivial
      · rw [Option.elim_some]
        have hmem : pair ∈ w.signed ++ [pair] := List.mem_append_right _ (by simp)
        refine (h.sign pair).setProc proc ?_
        dsimp only
        split
        · exact hmem
        · exact hmem
    · exact h
  | advance _ answer token =>
    rw [World.step]
    split
    · rename_i pair installation hphase hinstallation
      rw [hphase] at hknown
      exact h.advance proc p.object installation answer token hknown
    · exact h
  | writeCursor _ replaced failed =>
    rw [World.step]
    split
    · rename_i pair hphase
      rw [hphase] at hknown
      exact h.writeCursor proc p.object replaced failed hknown
    · exact h
  | writeEnrollment _ replaced failed =>
    rw [World.step]
    split
    · rename_i pair hphase
      rw [hphase] at hknown
      exact h.writeEnrollment proc _ replaced failed hknown
    · exact h

theorem World.Inv.exec (h : w.Inv) {a : Act} (hallowed : a.Allowed w) : (w.exec sizes a).Inv := by
  have hstep : ((a.proc.bind fun proc => (w.procs proc).map fun p =>
      w.step sizes proc p a).getD w).Inv := by
    rcases a.proc with _ | proc
    · exact h
    · rw [Option.bind_some]
      rcases hp : w.procs proc with _ | p
      · exact h
      · exact h.step hp a
  cases a with
  | start proc key guarded => exact h.setProc proc trivial
  | putCursor version =>
    exact ⟨h.tip, h.numbered, hallowed, h.cursorVersions, h.enrollment, h.enrollmentVersions,
      h.procs⟩
  | putEnrollment version =>
    exact ⟨h.tip, h.numbered, h.cursor, h.cursorVersions, hallowed, h.enrollmentVersions, h.procs⟩
  | readCursor _ _ => exact hstep
  | readEnrollment _ _ => exact hstep
  | assess _ _ => exact hstep
  | checkCursor _ _ => exact hstep
  | sign _ _ _ => exact hstep
  | advance _ _ _ => exact hstep
  | writeCursor _ _ _ => exact hstep
  | writeEnrollment _ _ _ => exact hstep

/-! ### Every history -/

/-- No file was ever written, and the authority has no head. -/
structure World.Initial (w : World) : Prop where
  cursor : w.cursor = none
  enrollment : w.enrollment = none
  cursorVersions : w.cursorVersions = []
  enrollmentVersions : w.enrollmentVersions = []
  head : w.authority.head = none
  procs : ∀ q, w.procs q = none
  commits : w.commits = []

theorem World.Initial.inv (h : w.Initial) : w.Inv := by
  refine ⟨?_, ?_, fun v hv => ?_, fun v hv => ?_, fun v hv => ?_, fun v hv => ?_,
    fun q p hq => ?_⟩
  · rw [h.head, h.commits]
    rfl
  · rw [h.commits]
    rfl
  · exact absurd (h.cursor.symm.trans hv) (by simp)
  · exact absurd hv (by simp [h.cursorVersions])
  · exact absurd (h.enrollment.symm.trans hv) (by simp)
  · exact absurd hv (by simp [h.enrollmentVersions])
  · exact absurd ((h.procs q).symm.trans hq) (by simp)

/-- Histories in which files are only put back or deleted. -/
def History (sizes : Sizes) : World → List Act → World → Prop :=
  Run (Guarded (fun w a => a.Allowed w) fun w a w' => w.exec sizes a = w')

theorem History.inv {w₀ : World} {acts : List Act} (hrun : History sizes w₀ acts w)
    (h0 : w₀.Inv) : w.Inv := by
  refine hrun.invariant (fun w a w' h hstep => ?_) h0
  obtain ⟨hallowed, rfl⟩ := hstep
  exact h.exec hallowed

theorem head_of_observed {answer : Answer} {head : Head}
    (h : w.observed answer = .ok (some head)) : w.authority.head = some head := by
  cases answer with
  | lostBefore => exact absurd h (by simp [World.observed])
  | lostAfter => exact absurd h (by simp [World.observed])
  | answered => exact Except.ok.inj h

/-- The head is of the last pair that was committed. -/
theorem World.Inv.last (h : w.Inv) {head : Head} (hhead : w.authority.head = some head) :
    ∃ pair, w.commits.getLast? = some pair ∧ head.stateDigest = pairDigest pair := by
  have htip := h.tip
  rw [hhead, Option.map_some, eq_comm, Option.map_eq_some_iff] at htip
  obtain ⟨pair, hlast, hsame⟩ := htip
  exact ⟨pair, hlast, (congrArg Prod.snd hsame).symm⟩

/-- CORRECT: with an authority, a load that ends authenticated returns the cursors of the last save
    that was committed. In any case they are of a cursor and an epoch of one enrollment and
    revision that were signed with the key. No revision is committed twice. -/
theorem authenticated_is_last {w₀ : World} (h0 : w₀.Initial) {acts : List Act}
    (hrun : History sizes w₀ acts w) :
    (∀ proc answer c cps, w.loads proc answer = some (c, cps, .authenticated) →
      (c.installation ≠ none →
        ∃ pair, w.commits.getLast? = some pair ∧ cps = pair.1.body.channels) ∧
      ∃ saved ∈ w.signed, ∃ saved' ∈ w.signed, c.key = some saved.1.key ∧
        c.key = some saved'.2.key ∧ saved.1.body.enrollmentId = saved'.2.body.enrollmentId ∧
        saved.1.body.revision = saved'.2.body.revision ∧ cps = saved.1.body.channels) ∧
    (w.commits.map fun pair => pair.2.body.revision).Nodup := by
  have hinv := hrun.inv h0.inv
  refine ⟨fun proc answer c cps hloads => ?_, ?_⟩
  · rw [World.loads] at hloads
    obtain ⟨p, hp, hloads⟩ := Option.bind_eq_some_iff.mp hloads
    have hknown := hinv.procs proc p hp
    obtain ⟨object, phase⟩ := p
    cases phase with
    | bothRead cursor enrollment =>
      obtain ⟨rfl, hload⟩ := Prod.mk.inj (Option.some.inj hloads)
      obtain ⟨pair, hproven⟩ := load_authenticated hload
      refine ⟨fun hguarded => ?_, ?_⟩
      · obtain ⟨head, hobserved, -, hdigest⟩ := hproven.fresh hguarded
        obtain ⟨last, hlast, hsame⟩ := hinv.last (head_of_observed hobserved)
        rw [hdigest] at hsame
        refine ⟨last, hlast, ?_⟩
        rw [hproven.channels, (Digest.pair.inj hsame).2.2.1]
      · obtain ⟨saved, hsaved, he⟩ := hknown.1 _ hproven.cursor
        obtain ⟨saved', hsaved', he'⟩ := hknown.2 _ hproven.enrollment
        refine ⟨saved, hsaved, saved', hsaved', ?_, ?_, ?_, ?_, ?_⟩
        · rw [he, hproven.cursorKey]
        · rw [he', hproven.enrollmentKey]
        · rw [he, he', hproven.sameId]
        · rw [he, he', hproven.sameRevision]
        · rw [he, hproven.channels]
    | idle => exact absurd hloads (by simp)
    | cursorRead _ => exact absurd hloads (by simp)
    | cursorChecked _ => exact absurd hloads (by simp)
    | signed _ => exact absurd hloads (by simp)
    | admitted _ => exact absurd hloads (by simp)
    | cursorWritten _ => exact absurd hloads (by simp)
  · rw [hinv.numbered]
    exact List.nodup_range' ..

/-! ### A first enrollment -/

def sampleCheckpoints : Checkpoints := Dict.empty.set "s".toList ⟨0, []⟩

def sampleWorld : World :=
  ⟨none, none, [], [], ⟨List.replicate 32 'a', none⟩, fun _ => none, [], []⟩

def sampleSizes : Sizes := ⟨fun _ _ => true⟩

/-- A process enrolls, saves once, and reads the files again. -/
def sampleActs : List Act :=
  [.start 0 (some []) true, .readCursor 0 true, .readEnrollment 0 true, .assess 0 .answered,
    .checkCursor 0 true, .sign 0 true ⟨sampleCheckpoints, true, 1, []⟩,
    .advance 0 .answered (List.replicate 64 'b'),
    .writeCursor 0 true false, .writeEnrollment 0 true false, .readCursor 0 true,
    .readEnrollment 0 true]

def sampleEnd : World := sampleActs.foldl (World.exec sampleSizes) sampleWorld

theorem sampleWorld_initial : sampleWorld.Initial := ⟨rfl, rfl, rfl, rfl, rfl, fun _ => rfl, rfl⟩

theorem sampleActs_history : History sampleSizes sampleWorld sampleActs sampleEnd := by
  refine Run.of_foldl fun t a ha => ?_
  simp only [sampleActs, List.mem_cons, List.not_mem_nil, or_false] at ha
  rcases ha with rfl | rfl | rfl | rfl | rfl | rfl | rfl | rfl | rfl | rfl | rfl <;> trivial

/-- The process reads what it has saved. -/
theorem authenticated_is_last_sample : ∃ pair, sampleEnd.commits.getLast? = some pair ∧
    sampleCheckpoints = pair.1.body.channels := by
  have hend : (sampleEnd.loads 0 .answered).map (fun x => (x.1.installation.isSome, x.2)) =
      some (true, sampleCheckpoints, .authenticated) := by decide
  obtain ⟨⟨c, loaded⟩, hloads, he⟩ := Option.map_eq_some_iff.mp hend
  obtain ⟨hguarded, hloaded⟩ := Prod.mk.inj he
  dsimp only at hguarded hloaded
  rw [hloaded] at hloads
  refine ((authenticated_is_last sampleWorld_initial sampleActs_history).1 _ _ _ _ hloads).1 ?_
  rw [← Option.isSome_iff_ne_none, hguarded]

end Angerona.EventLog
