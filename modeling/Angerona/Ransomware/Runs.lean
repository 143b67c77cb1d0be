import Angerona.Lib.Transition
import Angerona.Ransomware.Resume

/-!
    Runs of the content-state store: loads, cycles, crashes and restarts in any order.

    The log says what the calls came to. Its last commit, or the interrupted one after it, is what
    the next load returns, as long as no migration of a `v1` state is torn. -/

namespace Angerona.Ransomware
open Text PyJson Crash

variable {K : Type}

/-! ### Commits -/

/-- What a commit makes of the memory. -/
def Memory.next (m : Memory K) (complete : Bool) : Snapshot :=
  ⟨m.sequence + 1, m.scanEpoch + 1, ordered (m.written complete)⟩

/-- The files at rest. -/
def Snapshot.disk (A : Signer K) (k e : K) (marker : Option Str) (s : Snapshot) : Disk K :=
  ⟨some k, some (s.doc A k), some e, some (s.witness A k e), none, marker⟩

/-- The memory holds what the files hold. -/
structure Live (A : Signer K) (k e : K) (m : Memory K) (now : Snapshot) : Prop where
  stored : now.Stored A k e
  position : m.position = now.position A k
  records : ordered m.receipts = now.records
  receipts : Receipts.Valid m.receipts

section Commit

variable {A : Signer K} {h : Host K} {m : Memory K} {l : Option ℕ}
  {s : Machine (Disk K) (Memory K)} {k e : K} {now : Snapshot} {marker : Option Str}

theorem Live.follows (hlive : Live A k e m now) (complete : Bool) : now.Follows (m.next complete) :=
  ⟨congrArg (· + 1) (congrArg Position.sequence hlive.position),
    congrArg (· + 1) (congrArg Position.scanEpoch hlive.position)⟩

/-- What a commit can leave when it is cut: the old files, or a transition to what it writes. -/
def Cut (A : Signer K) (now next : Snapshot) (d : Disk K) : Prop :=
  Shape A d now ∨ d.transition.isSome = true ∧ Shape A d next

/-- The durable part of a commit. -/
theorem survives_commit {records : Receipts} {next : Snapshot}
    (hs : At ⟨some k, some (now.doc A k), some e, some (now.witness A k e),
      some (now.transition A k e next), marker⟩ m l s)
    (hnow : now.Stored A k e) (hnext : next.Stored A k e) (hfollows : now.Follows next)
    (hbytes : (now.transition A k e next).bytes ≤ maxTransitionBytes)
    (hsize : records.size ≤ maxRecords) (hrecords : ordered records = next.records) :
    Survives (Cut A now next) (do
      let head ← writeState A h next.sequence next.scanEpoch records
      require (head = (next.doc A k).hmac) (.os "content-state commit changed transition identity")
      writeWitness A h ⟨next.sequence, next.scanEpoch, head⟩
      removeTransition
      remember fun m => { m with
        receipts := records
        sequence := next.sequence
        scanEpoch := next.scanEpoch
        head := head })
      (fun _ t => ∃ l, At (next.disk A k e marker) { m with
        receipts := records
        sequence := next.sequence
        scanEpoch := next.scanEpoch
        head := (next.doc A k).hmac } l t) s := by
  refine (survives_writeState hs (fun _ => .inl (.pending hnow hnext hfollows hbytes)) rfl hsize
    (congrArg (fun rows => StateDoc.signed A k (.current next.sequence next.scanEpoch rows)) hrecords)
    hnext.bytes fun t ht => ?_).bind
  refine survives_require rfl ?_
  have hreplaced : ∀ w, w = now.position A k ∨ w = next.position A k →
      Shape A ⟨some k, some (next.doc A k), some e, some (.signed A e w),
        some (now.transition A k e next), marker⟩ next := fun _ hw =>
    .replaced hnow hnext hfollows hbytes hw
  refine (survives_writeWitness ht (fun _ => .inr ⟨rfl, hreplaced _ (.inl rfl)⟩) rfl
    fun t ht => ?_).bind
  refine (survives_removeTransition ht (fun _ => .inr ⟨rfl, hreplaced _ (.inr rfl)⟩) rfl
    fun t ht => ?_).bind
  exact survives_remember ⟨_, ht.remember (fun m => { m with
    receipts := records
    sequence := next.sequence
    scanEpoch := next.scanEpoch
    head := (next.doc A k).hmac }) rfl rfl rfl⟩

theorem Live.written (hlive : Live A k e m now) (hobs : Receipts.Valid m.observations)
    (complete : Bool) : Receipts.Valid (m.written complete) := by
  cases complete with
  | true => exact hobs
  | false => exact hlive.receipts

theorem Live.next (hlive : Live A k e m now) (hobs : Receipts.Valid m.observations) (complete : Bool)
    (hsize : (m.written complete).size ≤ maxRecords)
    (hdoc : ((m.next complete).doc A k).bytes ≤ maxStateBytes)
    (hbytes : (now.transition A k e (m.next complete)).bytes ≤ maxTransitionBytes) :
    (m.next complete).Stored A k e := by
  obtain ⟨hsequence, hepoch⟩ := hlive.follows complete
  have hnonneg := hlive.stored.nonneg
  have hahead := hlive.stored.ahead
  exact ⟨by omega, by omega, ordered_recorded (hlive.written hobs complete) hsize, hdoc,
    (witness_bytes_le A e _ _).trans hbytes⟩

theorem survives_checkPredecessor {I : Disk K → Prop} {Q : Unit → Machine (Disk K) (Memory K) → Prop}
    (hs : At (now.disk A k e marker) m l s) (hnow : now.Stored A k e)
    (hQ : ∀ t, At (now.disk A k e marker) m l t → Q () t) :
    Survives I (checkPredecessor A h (now.position A k)) Q s := by
  refine survives_disk ?_
  rw [if_pos (show 0 ≤ (now.position A k).sequence from hnow.nonneg)]
  refine (survives_readWitness hs rfl rfl hnow.sound fun t ht => ?_).bind
  exact survives_required rfl (hQ t ht)

/-- A commit ends with the next position, is cut at the old or the next one, or refuses and changes
    no file. -/
theorem advance_ends {m' : Memory K} (complete : Bool) (hs : At (now.disk A k e marker) m' l s)
    (hlive : Live A k e m now) (hobs : Receipts.Valid m.observations) :
    Ends (Cut A now (m.next complete)) (fun t => ∃ l, At (now.disk A k e marker) m' l t)
      (advance A h m complete)
      (fun _ t => (m.next complete).Stored A k e ∧
        ∃ l, At ((m.next complete).disk A k e marker) { m' with
          receipts := m.written complete
          sequence := (m.next complete).sequence
          scanEpoch := (m.next complete).scanEpoch
          head := ((m.next complete).doc A k).hmac } l t) s := by
  refine (Survives.ends (survives_readWitness hs rfl rfl hlive.stored.sound fun t ht => ?_)).bind
  refine ends_require (fun _ => ?_) fun hn => absurd hlive.position.symm hn
  refine Ends.bind (ends_require (fun hsize => ?_) fun _ => ⟨l, ht⟩)
  refine (Survives.ends (survives_changeKey_read ht rfl fun t ht => ?_)).bind
  refine ends_require (fun hdoc => ?_) fun _ => ⟨l, ht⟩
  refine ends_pure (ends_require (fun _ => ?_) fun _ => ⟨l, ht⟩)
  refine Ends.bind (ends_disk ?_)
  rw [hlive.position]
  refine ends_require (fun _ => ?_) fun hn => absurd (ht.disk ▸ rfl) hn
  refine (Survives.ends (survives_checkPredecessor ht hlive.stored fun t ht => ?_)).bind
  refine (Survives.ends (survives_enrollmentKey_read ht rfl fun t ht => ?_)).bind
  refine ends_require (fun _ => ?_) fun hn =>
    absurd (transition_wellFormed hlive.stored (hlive.follows complete)) hn
  refine ends_require (fun hbytes => ?_) fun _ => ⟨l, ht⟩
  have hnext := hlive.next hobs complete hsize hdoc hbytes
  refine Survives.ends (survives_write ht (fun _ => .inl (.settled hlive.stored)) rfl rfl
    fun t ht => ?_)
  have ht' : At ⟨some k, some (now.doc A k), some e, some (now.witness A k e),
      some (now.transition A k e (m.next complete)), marker⟩ m' (l.map (· - 1)) t := ht
  exact ((survives_commit ht' hlive.stored hnext (hlive.follows complete) hbytes hsize rfl).mono
    fun _ _ hu => ⟨hnext, hu⟩).ends

end Commit

/-! ### Runs -/

inductive Event where
  | loaded (s : Snapshot)
  | committed (s : Snapshot)
  /-- A commit was cut after its transition was written. -/
  | interrupted (s : Snapshot)

/-- The snapshot that an event commits to: a load finishes the commit that it finds. -/
def Event.settled? : Event → Option Snapshot
  | .loaded s => some s
  | .committed s => some s
  | .interrupted _ => none

/-- The snapshots that were committed. -/
def settled (log : List Event) : List Snapshot := log.filterMap Event.settled?

/-- The last of them; a log is newest first. -/
def lastCommitted (base : Snapshot) (log : List Event) : Snapshot := (settled log).headD base

/-- The snapshots whose transition was written since. -/
def announced : List Event → List Snapshot
  | .interrupted s :: log => s :: announced log
  | _ => []

/-- What the next load may return: the last commit, or one that was announced after it and is one
    step ahead. -/
def Resumes (base : Snapshot) (log : List Event) (s : Snapshot) : Prop :=
  s = lastCommitted base log ∨ s ∈ announced log ∧ (lastCommitted base log).Follows s

/-- The files, the memory of the module, and what its calls came to, newest first. -/
structure World (K : Type) where
  disk : Disk K
  memory : Memory K
  log : List Event

inductive Op where
  | load
  | beginCycle
  | record (x : Sample)
  | commit (complete : Bool)
  /-- The process ends between two calls. -/
  | restart

/-- A call, with the number of its durable steps before the crash if there is one. -/
structure Act (K : Type) where
  host : Host K
  crash : Option ℕ
  op : Op

def Memory.snapshot (m : Memory K) : Snapshot := ⟨m.sequence, m.scanEpoch, ordered m.receipts⟩

/-- The world after a call; a crash leaves a new process. -/
def World.after (w : World K) (r : Except (Stop Fault) Unit × Machine (Disk K) (Memory K))
    (returned : Memory K → List Event) (crashed : Disk K → List Event) : World K :=
  match r with
  | (.ok _, t) => ⟨t.disk, t.memory, returned t.memory ++ w.log⟩
  | (.error .crash, t) => ⟨t.disk, .new, crashed t.disk ++ w.log⟩
  | (.error (.raised _), t) => ⟨t.disk, t.memory, w.log⟩

def World.step (A : Signer K) (w : World K) (a : Act K) : World K :=
  let s : Machine (Disk K) (Memory K) := ⟨w.disk, w.memory, a.crash⟩
  match a.op with
  | .load => w.after (load A a.host s) (fun m => [.loaded m.snapshot]) fun _ => []
  | .beginCycle => w.after (beginCycle s) (fun _ => []) fun _ => []
  | .record x => w.after (recordObservation A a.host x s) (fun _ => []) fun _ => []
  | .commit complete =>
    w.after (commitCycle A a.host complete s)
      (fun m => if w.memory.cycleActive then [.committed m.snapshot] else [])
      fun d => if d.transition.isSome then [.interrupted (w.memory.next complete)] else []
  | .restart => { w with memory := .new }

theorem World.step_load (A : Signer K) (w : World K) (h : Host K) (l : Option ℕ) :
    w.step A ⟨h, l, .load⟩ =
      w.after (load A h ⟨w.disk, w.memory, l⟩) (fun m => [.loaded m.snapshot]) fun _ => [] :=
  rfl

theorem World.step_record (A : Signer K) (w : World K) (h : Host K) (l : Option ℕ) (x : Sample) :
    w.step A ⟨h, l, .record x⟩ =
      w.after (recordObservation A h x ⟨w.disk, w.memory, l⟩) (fun _ => []) fun _ => [] :=
  rfl

theorem World.step_commit (A : Signer K) (w : World K) (h : Host K) (l : Option ℕ)
    (complete : Bool) : w.step A ⟨h, l, .commit complete⟩ =
      w.after (commitCycle A h complete ⟨w.disk, w.memory, l⟩)
        (fun m => if w.memory.cycleActive then [.committed m.snapshot] else [])
        fun d => if d.transition.isSome then [.interrupted (w.memory.next complete)] else [] :=
  rfl

/-- No load tears the migration of a `v1` state. -/
def Act.Whole (A : Signer K) (w : World K) (a : Act K) : Prop :=
  a.op = .load → a.host.leased = true → Migrates A a.host w.disk a.crash

/-- A store that was never used, or one that an earlier version has left. -/
inductive World.Initial (A : Signer K) : World K → Snapshot → Prop where
  | unused : Initial A ⟨⟨none, none, none, none, none, none⟩, .new, []⟩ .zero
  | legacy {k : K} {v : Legacy} (h : v.Stored A k) :
    Initial A ⟨⟨some k, some (v.doc A k), none, none, none, none⟩, .new, []⟩ v.snapshot

section After

variable {w : World K} {r : Except (Stop Fault) Unit × Machine (Disk K) (Memory K)}
  {returned : Memory K → List Event} {crashed : Disk K → List Event} {t : Machine (Disk K) (Memory K)}

theorem World.after_returned {u : Unit} (hr : r = (.ok u, t)) :
    w.after r returned crashed = ⟨t.disk, t.memory, returned t.memory ++ w.log⟩ := by
  rw [hr]
  rfl

theorem World.after_crash (hr : r = (.error .crash, t)) :
    w.after r returned crashed = ⟨t.disk, .new, crashed t.disk ++ w.log⟩ := by
  rw [hr]
  rfl

theorem World.after_raised {x : Fault} (hr : r = (.error (.raised x), t)) :
    w.after r returned crashed = ⟨t.disk, t.memory, w.log⟩ := by
  rw [hr]
  rfl

end After

/-! ### The invariant -/

/-- The snapshots that were committed, by their sequence. -/
structure Ordered (base : Snapshot) (log : List Event) : Prop where
  last : ∀ s ∈ settled log, s.sequence < (lastCommitted base log).sequence ∨
    s = lastCommitted base log
  unique : ∀ s ∈ settled log, ∀ t ∈ settled log, s.sequence = t.sequence → s = t

structure World.Inv (A : Signer K) (base : Snapshot) (w : World K) (now : Snapshot) : Prop where
  shape : Shape A w.disk now
  resumes : Resumes base w.log now
  ordered : Ordered base w.log
  changeKey : ∀ k, w.memory.changeKeyCache = some k → w.disk.changeKey = some k
  enrollmentKey : ∀ k, w.memory.enrollmentKeyCache = some k → w.disk.enrollmentKey = some k
  observations : Receipts.Valid w.memory.observations
  active : w.memory.cycleActive = true → w.memory.loaded = true
  live : w.memory.loaded = true → now = lastCommitted base w.log ∧
    ∃ k e marker, w.disk = now.disk A k e marker ∧ Live A k e w.memory now

section Invariant

variable {A : Signer K} {base now next : Snapshot} {w : World K} {log : List Event}

/-- A snapshot that is the last commit or ahead of it is committed. -/
theorem Ordered.push (h : Ordered base log) {e : Event} (he : e.settled? = some now)
    (hnow : now = lastCommitted base log ∨ (lastCommitted base log).sequence < now.sequence) :
    Ordered base (e :: log) := by
  have hsettled : settled (e :: log) = now :: settled log := List.filterMap_cons_some he
  have hlast : lastCommitted base (e :: log) = now := by
    rw [lastCommitted, hsettled, List.headD_cons]
  have hold : ∀ s ∈ settled log, s.sequence < now.sequence ∨ s = now := by
    intro s hs
    rcases hnow with rfl | hlt
    · exact h.last s hs
    · rcases h.last s hs with hs | rfl
      · exact .inl (hs.trans hlt)
      · exact .inl hlt
  refine ⟨?_, ?_⟩
  · rw [hsettled, hlast]
    intro s hs
    rcases List.mem_cons.mp hs with rfl | hs
    · exact .inr rfl
    · exact hold s hs
  · rw [hsettled]
    intro s hs t ht hst
    rcases List.mem_cons.mp hs with rfl | hs'
    · rcases List.mem_cons.mp ht with rfl | ht'
      · rfl
      · exact ((hold t ht').resolve_left fun hlt => absurd hst (ne_of_gt hlt)).symm
    · rcases List.mem_cons.mp ht with rfl | ht'
      · exact (hold s hs').resolve_left fun hlt => absurd hst (ne_of_lt hlt)
      · exact h.unique s hs' t ht' hst

theorem Ordered.interrupted (h : Ordered base log) : Ordered base (.interrupted next :: log) :=
  ⟨h.last, h.unique⟩

theorem Resumes.ahead (h : Resumes base log now) :
    now = lastCommitted base log ∨ (lastCommitted base log).sequence < now.sequence := by
  rcases h with rfl | ⟨-, hfollows⟩
  · exact .inl rfl
  · have hnext := hfollows.1
    exact .inr (by omega)

/-- A new process, on files that a crash can leave. -/
theorem inv_restarted {d : Disk K} (hshape : Shape A d now) (hresumes : Resumes base log now)
    (hordered : Ordered base log) : World.Inv A base ⟨d, .new, log⟩ now :=
  ⟨hshape, hresumes, hordered, fun _ hk => absurd hk (Option.some_ne_none _).symm,
    fun _ hk => absurd hk (Option.some_ne_none _).symm, fun _ hi => absurd hi List.not_mem_nil,
    fun hb => absurd hb Bool.false_ne_true, fun hb => absurd hb Bool.false_ne_true⟩

/-- A load that is granted the lease returns what the files stand for, or leaves them so. -/
theorem World.Inv.loads (hi : w.Inv A base now) {h : Host K} (l : Option ℕ) (hleased : h.leased = true)
    (hm : Migrates A h w.disk l) :
    Survives (Shape A · now) (load A h) (fun _ => Adopted A w.memory.bare now)
      ⟨w.disk, w.memory, l⟩ :=
  survives_require hleased (survives_loadUnderLease hi.shape
    ⟨rfl, rfl, rfl, hi.changeKey, hi.enrollmentKey⟩ hm)

/-- After a load the memory is live. -/
theorem Adopted.inv {t : Machine (Disk K) (Memory K)} (hi : w.Inv A base now)
    (ht : Adopted A w.memory.bare now t) : t.memory.snapshot = now ∧
      World.Inv A base ⟨t.disk, t.memory, .loaded t.memory.snapshot :: w.log⟩ now := by
  obtain ⟨k, e, marker, records, l, hstored, hvalid, hrecords, hdisk, hl, hmemory, hk, he⟩ := ht
  have hposition : t.memory.position = now.position A k := congrArg Memory.position hmemory
  have hreceipts : t.memory.receipts = records := congrArg Memory.receipts hmemory
  have hsnapshot : t.memory.snapshot = now := by
    rw [Memory.snapshot, hreceipts, hrecords]
    rw [Memory.position, Snapshot.position, Position.mk.injEq] at hposition
    rw [hposition.1, hposition.2.1]
  refine ⟨hsnapshot, ?_⟩
  rw [hsnapshot]
  have hlast : now = lastCommitted base (.loaded now :: w.log) := rfl
  refine ⟨hdisk ▸ .settled hstored, .inl hlast, hi.ordered.push rfl hi.resumes.ahead, ?_, ?_, ?_,
    ?_, ?_⟩
  · exact hdisk ▸ hk
  · exact hdisk ▸ he
  · have hobservations : t.memory.observations = w.memory.observations :=
      (congrArg Memory.observations hmemory :)
    exact hobservations ▸ hi.observations
  · exact fun _ => congrArg Memory.loaded hmemory
  · exact fun _ => ⟨hlast, k, e, marker, hdisk, hstored, hposition, hreceipts ▸ hrecords,
      hreceipts ▸ hvalid⟩

/-- A change of the memory that leaves alone what was loaded. -/
theorem World.Inv.remember (hi : w.Inv A base now) {m : Memory K}
    (hk : ∀ k, m.changeKeyCache = some k → w.disk.changeKey = some k)
    (he : ∀ k, m.enrollmentKeyCache = some k → w.disk.enrollmentKey = some k)
    (hobservations : Receipts.Valid m.observations)
    (hactive : m.cycleActive = true → m.loaded = true) (hloaded : m.loaded = w.memory.loaded)
    (hposition : m.position = w.memory.position) (hreceipts : m.receipts = w.memory.receipts) :
    World.Inv A base ⟨w.disk, m, w.log⟩ now := by
  refine ⟨hi.shape, hi.resumes, hi.ordered, hk, he, hobservations, hactive, fun h => ?_⟩
  obtain ⟨hlast, k, e, marker, hdisk, hlive⟩ := hi.live (hloaded.symm.trans h)
  exact ⟨hlast, k, e, marker, hdisk, hlive.stored, hposition.trans hlive.position,
    hreceipts.symm ▸ hlive.records, hreceipts.symm ▸ hlive.receipts⟩

theorem commitCycle_ends (h : Host K) (complete : Bool) (l : Option ℕ) {k e : K}
    {marker : Option Str} (hi : w.Inv A base now) (hactive : w.memory.cycleActive = true)
    (hdisk : w.disk = now.disk A k e marker) (hlive : Live A k e w.memory now) :
    Ends (Cut A now (w.memory.next complete))
      (fun t => ∃ b l, At (now.disk A k e marker) { w.memory.bare with cycleActive := b } l t)
      (commitCycle A h complete)
      (fun _ t => (w.memory.next complete).Stored A k e ∧
        ∃ l, At ((w.memory.next complete).disk A k e marker) { w.memory.bare with
          cycleActive := false
          receipts := w.memory.written complete
          sequence := (w.memory.next complete).sequence
          scanEpoch := (w.memory.next complete).scanEpoch
          head := ((w.memory.next complete).doc A k).hmac } l t) ⟨w.disk, w.memory, l⟩ := by
  have hs : At (now.disk A k e marker) w.memory.bare l ⟨w.disk, w.memory, l⟩ :=
    ⟨hdisk, rfl, rfl, hdisk ▸ hi.changeKey, hdisk ▸ hi.enrollmentKey⟩
  have hidle : ∃ b l', At (now.disk A k e marker) { w.memory.bare with cycleActive := b } l'
      ⟨w.disk, w.memory, l⟩ := ⟨w.memory.cycleActive, l, hs⟩
  refine ends_require (fun _ => ?_) fun _ => hidle
  refine ends_require (fun _ => ?_) fun _ => hidle
  refine ends_require (fun _ => ends_memory ?_) fun _ => hidle
  rw [if_pos hactive]
  refine (Survives.ends (survives_remember ?_)).bind
  have hs' := hs.remember (fun m => { m with cycleActive := false }) rfl rfl rfl
  exact (advance_ends complete hs' hlive hi.observations).mono (fun _ t ht => ht)
    fun t ht => ⟨false, ht⟩

/-- Without an active cycle there is nothing to commit. -/
theorem commitCycle_idle (h : Host K) (complete : Bool) (l : Option ℕ)
    (hidle : ¬w.memory.cycleActive = true) :
    Ends (fun _ => False) (· = ⟨w.disk, w.memory, l⟩) (commitCycle A h complete)
      (fun _ t => t = ⟨w.disk, w.memory, l⟩) ⟨w.disk, w.memory, l⟩ := by
  refine ends_require (fun _ => ?_) fun _ => rfl
  refine ends_require (fun _ => ?_) fun _ => rfl
  refine ends_require (fun _ => ends_memory ?_) fun _ => rfl
  rw [if_neg hidle]
  exact ends_pure rfl

/-- The memory after a commit is live. -/
theorem World.Inv.committed (hi : w.Inv A base now) {complete : Bool} {k e : K} {marker : Option Str}
    {t : Machine (Disk K) (Memory K)} {l : Option ℕ} (hlive : Live A k e w.memory now)
    (hlast : now = lastCommitted base w.log)
    (hstored : (w.memory.next complete).Stored A k e)
    (ht : At ((w.memory.next complete).disk A k e marker) { w.memory.bare with
      cycleActive := false
      receipts := w.memory.written complete
      sequence := (w.memory.next complete).sequence
      scanEpoch := (w.memory.next complete).scanEpoch
      head := ((w.memory.next complete).doc A k).hmac } l t) :
    World.Inv A base ⟨t.disk, t.memory, .committed t.memory.snapshot :: w.log⟩
      (w.memory.next complete) := by
  obtain ⟨hdisk, -, hmemory, hk, he⟩ := ht
  have hsnapshot : t.memory.snapshot = w.memory.next complete :=
    (congrArg Memory.snapshot hmemory :)
  have hreceipts : t.memory.receipts = w.memory.written complete :=
    (congrArg Memory.receipts hmemory :)
  have hobservations : t.memory.observations = w.memory.observations :=
    (congrArg Memory.observations hmemory :)
  have hahead : (lastCommitted base w.log).sequence < (w.memory.next complete).sequence := by
    have hnext := (hlive.follows complete).1
    rw [← hlast]
    omega
  rw [hsnapshot]
  refine ⟨hdisk ▸ .settled hstored, .inl rfl, hi.ordered.push rfl (.inr hahead), hdisk ▸ hk,
    hdisk ▸ he, hobservations ▸ hi.observations, fun hc => ?_, fun _ => ?_⟩
  · have hidle : t.memory.cycleActive = false := (congrArg Memory.cycleActive hmemory :)
    exact absurd (hidle.symm.trans hc) Bool.false_ne_true
  · exact ⟨rfl, k, e, marker, hdisk, hstored, (congrArg Memory.position hmemory :),
      congrArg Ransomware.ordered hreceipts, hreceipts ▸ hlive.written hi.observations complete⟩

/-- A commit, cut or not, keeps the invariant. -/
theorem World.Inv.commits (hi : w.Inv A base now) (h : Host K) (complete : Bool) (l : Option ℕ) :
    ∃ now', World.Inv A base (w.step A ⟨h, l, .commit complete⟩) now' := by
  by_cases hactive : w.memory.cycleActive = true
  · have hloaded := hi.active hactive
    obtain ⟨hlast, k, e, marker, hdisk, hlive⟩ := hi.live hloaded
    rcases (commitCycle_ends h complete l hi hactive hdisk hlive).cases with
      ⟨a, t, hr, hstored, l', ht⟩ | ⟨t, hr, hcut⟩ | ⟨x, t, hr, b, l', ht⟩
    · refine ⟨w.memory.next complete, ?_⟩
      rw [World.step_commit, World.after_returned hr, if_pos hactive]
      exact hi.committed hlive hlast hstored ht
    · rw [World.step_commit, World.after_crash hr]
      rcases hcut with hshape | ⟨htransition, hshape⟩
      · refine ⟨now, inv_restarted hshape ?_ ?_⟩
        · split
          · exact .inl hlast
          · exact .inl hlast
        · split
          · exact hi.ordered.interrupted
          · exact hi.ordered
      · rw [if_pos htransition]
        have hfollows : (lastCommitted base w.log).Follows (w.memory.next complete) :=
          hlast ▸ hlive.follows complete
        exact ⟨w.memory.next complete, inv_restarted hshape (.inr ⟨List.mem_cons_self, hfollows⟩)
          hi.ordered.interrupted⟩
    · refine ⟨now, ?_⟩
      rw [World.step_commit, World.after_raised hr, ht.disk, ← hdisk]
      have hobservations : t.memory.observations = w.memory.observations :=
        (congrArg Memory.observations ht.memory :)
      exact hi.remember (hdisk ▸ ht.changeKey) (hdisk ▸ ht.enrollmentKey)
        (hobservations ▸ hi.observations) (fun _ => (congrArg Memory.loaded ht.memory :).trans hloaded)
        (congrArg Memory.loaded ht.memory :) (congrArg Memory.position ht.memory :)
        (congrArg Memory.receipts ht.memory :)
  · refine ⟨now, ?_⟩
    rw [World.step_commit]
    rcases (commitCycle_idle h complete l hactive).cases with
      ⟨a, t, hr, rfl⟩ | ⟨t, hr, hfalse⟩ | ⟨x, t, hr, rfl⟩
    · rw [World.after_returned hr, if_neg hactive]
      exact hi
    · exact hfalse.elim
    · rw [World.after_raised hr]
      exact hi

theorem Digest.length (x : Digest) : x.val.length = 64 :=
  eq_of_beq (Bool.and_eq_true_iff.mp x.2).1

theorem Sample.row_valid (x : Sample) : (x.row A).valid = true := by
  simp [Row.valid, Sample.row, Digest.length, (A.rowKey x.identity (A.pathDigest x.path)).2]

theorem valid_set {d : Receipts} {r : Row} (hd : Receipts.Valid d) (hr : r.valid = true) :
    Receipts.Valid (d.set r.key r) := by
  rintro ⟨k, s⟩ hs
  have hget := Dict.mem_items.mp hs
  rw [Dict.get?_set] at hget
  split at hget
  · rename_i hk
    obtain rfl := Option.some.inj hget
    exact ⟨hk.symm, hr⟩
  · exact hd (k, s) (Dict.mem_items.mpr hget)

/-- What an observation changes. -/
theorem recordObservation_ends (h : Host K) (x : Sample) (l : Option ℕ)
    (hobservations : Receipts.Valid w.memory.observations) :
    Ends (fun _ => False) (· = ⟨w.disk, w.memory, l⟩) (recordObservation A h x)
      (fun _ t => ∃ observations, Receipts.Valid observations ∧
        t = ⟨w.disk, { w.memory with observations := observations }, l⟩) ⟨w.disk, w.memory, l⟩ := by
  refine ends_require (fun _ => ends_memory ?_) fun _ => rfl
  split
  · refine ends_require (fun _ => Survives.ends (survives_remember ?_)) fun _ => rfl
    exact ⟨_, valid_set hobservations x.row_valid, rfl⟩
  · exact ends_pure ⟨_, hobservations, rfl⟩

/-- CORRECT: one call keeps the invariant, if it does not tear a migration. -/
theorem World.Inv.step (hi : w.Inv A base now) {a : Act K} (hwhole : a.Whole A w) :
    ∃ now', World.Inv A base (w.step A a) now' := by
  obtain ⟨h, l, op⟩ := a
  cases op with
  | load =>
    refine ⟨now, ?_⟩
    rw [World.step_load]
    by_cases hleased : h.leased = true
    · rcases (hi.loads l hleased (hwhole rfl hleased)).outcome with ⟨a, t, hr, hadopted⟩ | ⟨t, hr, hshape⟩
      · rw [World.after_returned hr]
        exact (hadopted.inv hi).2
      · rw [World.after_crash hr]
        exact inv_restarted hshape hi.resumes hi.ordered
    · have hr : load A h ⟨w.disk, w.memory, l⟩ =
          (.error (.raised (.os "content-state writer lease is already held")),
            ⟨w.disk, w.memory, l⟩) := by
        rw [load, require, Effect.check, if_neg hleased]
        rfl
      rw [World.after_raised hr]
      exact hi
  | beginCycle =>
    have hbegun : World.Inv A base
        ⟨w.disk, { w.memory with observations := .empty, cycleActive := w.memory.loaded }, w.log⟩ now :=
      hi.remember hi.changeKey hi.enrollmentKey (fun _ hi => absurd hi List.not_mem_nil) id rfl rfl rfl
    exact ⟨now, hbegun⟩
  | record x =>
    refine ⟨now, ?_⟩
    rw [World.step_record]
    rcases (recordObservation_ends (A := A) h x l hi.observations).cases with
      ⟨a, t, hr, observations, hvalid, rfl⟩ | ⟨t, hr, hfalse⟩ | ⟨e, t, hr, rfl⟩
    · rw [World.after_returned hr]
      exact hi.remember hi.changeKey hi.enrollmentKey hvalid hi.active rfl rfl rfl
    · exact hfalse.elim
    · rw [World.after_raised hr]
      exact hi
  | commit complete => exact hi.commits h complete l
  | restart => exact ⟨now, inv_restarted hi.shape hi.resumes hi.ordered⟩

theorem World.Initial.inv (h : w.Initial A base) : w.Inv A base base := by
  cases h with
  | unused =>
    exact inv_restarted (.bare fun _ => ⟨rfl, rfl⟩) (.inl rfl)
      ⟨fun _ h => absurd h List.not_mem_nil, fun _ h => absurd h List.not_mem_nil⟩
  | legacy hv =>
    exact inv_restarted (.legacy hv) (.inl rfl)
      ⟨fun _ h => absurd h List.not_mem_nil, fun _ h => absurd h List.not_mem_nil⟩

/-- What is promised of a store: a load that is not cut returns the last commit, or the one after it
    whose transition was written, and no sequence has two sets of records. -/
structure World.Recovers (A : Signer K) (base : Snapshot) (w : World K) : Prop where
  loads : ∀ h : Host K, h.leased = true → (⟨h, none, .load⟩ : Act K).Whole A w →
    ∃ s, (w.step A ⟨h, none, .load⟩).log = .loaded s :: w.log ∧ Resumes base w.log s
  unique : ∀ s ∈ settled w.log, ∀ t ∈ settled w.log, s.sequence = t.sequence → s.records = t.records

theorem World.Inv.recovers (hi : w.Inv A base now) : w.Recovers A base := by
  refine ⟨fun h hleased hwhole => ?_, fun s hs t ht hst => ?_⟩
  · obtain ⟨a, t, hr, hadopted⟩ := (hi.loads none hleased (hwhole rfl hleased)).returns rfl
    have hsnapshot := (hadopted.inv hi).1
    refine ⟨now, ?_, hi.resumes⟩
    rw [World.step_load, World.after_returned hr, hsnapshot]
    rfl
  · rw [hi.ordered.unique s hs t ht hst]

/-- CORRECT: in every run of loads, cycles, crashes and restarts that tears no migration, the next
    load returns the last commit or the one that was announced after it. -/
theorem recovers_after_crashes {w₀ : World K} {acts : List (Act K)} (hstart : w₀.Initial A base)
    (hrun : Transition.Run (Transition.Guarded (fun w a => a.Whole A w) fun w a v => w.step A a = v)
      w₀ acts w) : w.Recovers A base := by
  have hinv : ∃ now, w.Inv A base now :=
    hrun.invariant (I := fun w => ∃ now, w.Inv A base now)
      (fun _ _ _ hi ht => ht.2 ▸ hi.elim fun _ hi => hi.step ht.1) ⟨base, hstart.inv⟩
  exact hinv.elim fun _ hi => hi.recovers

end Invariant

/-! ### A torn migration -/

def sampleDigest (n : ℕ) : Digest :=
  ⟨List.replicate 64 (Nat.digitChar (n % 10)), by
    have h : ∀ d < 10, isHexDigest (List.replicate 64 (Nat.digitChar d)) = true := by decide +kernel
    exact h _ (Nat.mod_lt _ (by decide))⟩

def sampleSigner : Signer ℕ where
  installId k := sampleDigest k
  stateMac k core := sampleDigest (k + core.sequence.toNat)
  witnessMac k _ p := sampleDigest (k + p.sequence.toNat)
  transitionMac k t := sampleDigest (k + t.new.sequence.toNat)
  pathDigest path := sampleDigest path.length
  rowKey identity _ := sampleDigest identity.2.1.toNat

def sampleHost : Host ℕ := ⟨1, 2, ['a'], true, fun _ => true⟩

def sampleLegacy : Legacy := ⟨7, []⟩

def legacyWorld : World ℕ :=
  ⟨⟨some 1, some (sampleLegacy.doc sampleSigner 1), none, none, none, none⟩, .new, []⟩

/-- A first load that is cut after its state is written, and the promise for the next one. -/
theorem recovers_after_crashes_first :
    World.Recovers sampleSigner .zero (World.step sampleSigner
      ⟨⟨none, none, none, none, none, none⟩, .new, []⟩ ⟨sampleHost, some 5, .load⟩) :=
  recovers_after_crashes .unused (Transition.Run.nil.snoc
    ⟨fun _ _ _ hk => absurd hk (Option.not_mem_none _), rfl⟩)

/-- The migration is cut after the enrollment key: the next load does not return. -/
theorem torn_migration_not_loaded : legacyWorld.Initial sampleSigner sampleLegacy.snapshot ∧
    ∀ s, ((legacyWorld.step sampleSigner ⟨sampleHost, some 1, .load⟩).step sampleSigner
      ⟨sampleHost, none, .load⟩).log ≠ [.loaded s] := by
  refine ⟨.legacy ⟨by decide, by decide, fun _ h => absurd h List.not_mem_nil, by decide,
    by decide +kernel⟩, fun s h => ?_⟩
  have hempty : ((legacyWorld.step sampleSigner ⟨sampleHost, some 1, .load⟩).step sampleSigner
      ⟨sampleHost, none, .load⟩).log.length = 0 := by decide +kernel
  rw [h] at hempty
  cases hempty

end Angerona.Ransomware
