import Angerona.Supervisor.Budget

/-!
    The spawn lock that several supervisors share (`resilience/supervisor.py`).

    `try_claim_spawn` and `release_spawn` are taken apart into their steps on the lock path: the
    exclusive create, the write, the close, the reading of the clock, the `stat` and the unlinks.
    Any step may fail, and any supervisor may stop between two of its steps.

    An unlink takes away whatever is at the path. So a lock that is judged stale may be replaced
    before it is unlinked, and a release may come after its own lock was stolen. `runs_exclusive`
    says that these two are all that goes wrong. -/

namespace Angerona.Supervisor.SpawnLock
open Text Transition

/-! ### The path and the supervisors -/

/-- A lock file, told apart from every other one that was ever created. -/
structure Lock (P T : Type) where
  serial : ℕ
  owner : P
  created : T
  deriving DecidableEq

/-- What is at the path. -/
structure Entry (P T : Type) where
  lock : Lock P T
  mtime : T
  deriving DecidableEq

/-- Where a call of `try_claim_spawn` stands. -/
inductive Claim (P T : Type) where
  | idle
  | opening
  /-- `created = True`, before `os.write`. -/
  | writing (l : Lock P T)
  | closing (l : Lock P T)
  /-- An exception after the create: the lock is unlinked. -/
  | undoing (l : Lock P T)
  /-- `FileExistsError`. -/
  | checking
  /-- `time.time()` has been read. -/
  | timed (t : T)
  /-- The lock was judged stale. -/
  | stealing (e : Entry P T)
  deriving DecidableEq

structure Proc (P T : Type) where
  claim : Claim P T
  /-- The claims that returned `True` and that `release_spawn` has not been called for yet. -/
  held : List (Lock P T)
  /-- `_SPAWN_LOCK_ERRORS[name]`. -/
  error : Str

inductive Event (P T : Type) where
  /-- `try_claim_spawn` returned `True`. -/
  | claimed (l : Lock P T) (time : T)
  /-- A stale lock was unlinked. -/
  | stole (thief : P) (e : Entry P T) (time : T)
  /-- `release_spawn` returned, and what it removed. -/
  | released (l : Lock P T) (removed : Option (Entry P T))
  deriving DecidableEq

structure World (P T : Type) where
  path : Option (Entry P T)
  procs : P → Proc P T
  /-- No lock has this serial or a later one. -/
  serial : ℕ
  log : List (Event P T)
  clock : T

inductive Op (P T : Type) where
  | call
  | create
  | write
  | close
  | readClock
  | stat
  | steal
  /-- The clean-up, and whether its unlink succeeds. -/
  | undo (ok : Bool)
  /-- The next call raises some other exception. -/
  | fail (error : Str)
  /-- `release_spawn` for this claim, and whether its unlink succeeds. -/
  | release (l : Lock P T) (ok : Bool)
  | crash
  deriving DecidableEq

structure Act (P T : Type) where
  who : P
  now : T
  op : Op P T

/-- The lock a call has created. -/
def Claim.made {P T : Type} : Claim P T → Option (Lock P T)
  | .writing l => some l
  | .closing l => some l
  | .undoing l => some l
  | _ => none

variable {P T : Type}

/-- The first lines of `try_claim_spawn`. -/
def Proc.opened (s : Proc P T) : Proc P T := { s with claim := .opening, error := [] }

/-- The exception is recorded. A lock that was created is cleaned up. -/
def Proc.failed (s : Proc P T) (error : Str) : Option (Proc P T) :=
  match s.claim with
  | .opening => some { s with claim := .idle, error }
  | .writing l => some { s with claim := .undoing l, error }
  | .closing l => some { s with claim := .undoing l, error }
  | .checking => some { s with claim := .idle, error }
  | .timed _ => some { s with claim := .idle, error }
  | .stealing _ => some { s with claim := .idle, error }
  | .idle => none
  | .undoing _ => none

section Steps

variable [DecidableEq P] [Field T] [LinearOrder T]

def World.put (w : World P T) (a : Act P T) (s : Proc P T) : World P T :=
  { w with procs := Function.update w.procs a.who s, clock := a.now }

def World.create (w : World P T) (a : Act P T) : World P T :=
  let s := w.procs a.who
  match w.path with
  | none =>
    let l : Lock P T := ⟨w.serial, a.who, a.now⟩
    { w.put a { s with claim := .writing l } with path := some ⟨l, a.now⟩, serial := w.serial + 1 }
  | some _ => w.put a { s with claim := .checking }

/-- The write goes to the file that was created, wherever it is now. -/
def World.write (w : World P T) (a : Act P T) (l : Lock P T) : World P T :=
  { w.put a { w.procs a.who with claim := .closing l } with
    path := w.path.map fun e => if e.lock = l then ⟨l, a.now⟩ else e }

def World.close (w : World P T) (a : Act P T) (l : Lock P T) : World P T :=
  let s := w.procs a.who
  { w.put a { s with claim := .idle, held := l :: s.held } with log := w.log ++ [.claimed l a.now] }

def World.stat (ttl : T) (w : World P T) (a : Act P T) (t : T) : World P T :=
  let s := w.procs a.who
  match w.path with
  | none => w.put a s.opened
  | some e => w.put a { s with claim := if ttl < t - e.mtime then .stealing e else .idle }

/-- The unlink of a stale lock. When there is none any more, the call starts over just the same. -/
def World.steal (w : World P T) (a : Act P T) : World P T :=
  { w.put a (w.procs a.who).opened with
    path := none
    log := w.log ++ (w.path.map fun e => Event.stole a.who e a.now).toList }

def World.undo (w : World P T) (a : Act P T) (ok : Bool) : World P T :=
  { w.put a { w.procs a.who with claim := .idle } with path := if ok then none else w.path }

def World.release (w : World P T) (a : Act P T) (l : Lock P T) (ok : Bool) : World P T :=
  let s := w.procs a.who
  { w.put a { s with held := s.held.filter (· ≠ l) } with
    path := if ok then none else w.path
    log := w.log ++ [.released l (if ok then w.path else none)] }

/-- One step of one supervisor. -/
def World.step (ttl : T) (w : World P T) (a : Act P T) : Option (World P T) :=
  let s := w.procs a.who
  match a.op, s.claim with
  | .call, .idle => some (w.put a s.opened)
  | .create, .opening => some (w.create a)
  | .write, .writing l => some (w.write a l)
  | .close, .closing l => some (w.close a l)
  | .readClock, .checking => some (w.put a { s with claim := .timed a.now })
  | .stat, .timed t => some (w.stat ttl a t)
  | .steal, .stealing _ => some (w.steal a)
  | .undo ok, .undoing _ => some (w.undo a ok)
  | .fail error, _ => (s.failed error).map (w.put a)
  | .release l ok, _ => if l ∈ s.held then some (w.release a l ok) else none
  | .crash, _ => some (w.put a ⟨.idle, [], []⟩)
  | _, _ => none

/-- No lock, and no supervisor has begun. -/
def World.start (clock : T) : World P T := ⟨none, fun _ => ⟨.idle, [], []⟩, 0, [], clock⟩

/-! ### What a history says -/

/-- The lock that was stolen. -/
def Event.stolen? : Event P T → Option (Lock P T)
  | .stole _ e _ => some e.lock
  | _ => none

def Stolen (log : List (Event P T)) (l : Lock P T) : Prop := l ∈ log.filterMap Event.stolen?

instance (log : List (Event P T)) (l : Lock P T) : Decidable (Stolen log l) :=
  inferInstanceAs (Decidable (l ∈ _))

def Released (log : List (Event P T)) (l : Lock P T) : Prop := ∃ r, .released l r ∈ log

/-- Of two supervisors that claim, the first has released its claim before the second succeeds, or
    the first lock is older than `ttl`. A steal removes only stale locks, and a release only locks
    of its own supervisor. -/
structure Exclusive (ttl : T) (log : List (Event P T)) : Prop where
  claims : ∀ before l s mid l' s' after,
    log = before ++ .claimed l s :: (mid ++ .claimed l' s' :: after) → l.owner ≠ l'.owner →
      Released mid l ∨ min l.created l'.created + ttl < s'
  steals : ∀ p e t, .stole p e t ∈ log → e.mtime + ttl < t
  releases : ∀ l e, .released l (some e) ∈ log → e.lock.owner = l.owner

/-! ### The condition -/

/-- The lock that a clean-up or a release means to remove. -/
def World.meant (w : World P T) (a : Act P T) : Option (Lock P T) :=
  match a.op with
  | .undo true => (w.procs a.who).claim.made
  | .release l true => some l
  | _ => none

/-- The clock does not go back. A lock that is stolen is still what it was when it was judged, and a
    supervisor that removes its own lock has not been robbed of it. -/
structure World.Quiet (w : World P T) (a : Act P T) : Prop where
  clock : w.clock ≤ a.now
  judged : a.op = .steal → ∀ e ∈ w.path, (w.procs a.who).claim = .stealing e
  owned : ∀ l ∈ w.meant a, ¬Stolen w.log l

instance (w : World P T) (a : Act P T) : Decidable (w.Quiet a) :=
  decidable_of_iff (w.clock ≤ a.now ∧
      (a.op = .steal → ∀ e ∈ w.path, (w.procs a.who).claim = .stealing e) ∧
      ∀ l ∈ w.meant a, ¬Stolen w.log l)
    ⟨fun h => ⟨h.1, h.2.1, h.2.2⟩, fun h => ⟨h.clock, h.judged, h.owned⟩⟩

/-! ### What a step can do -/

/-- The steps by what they do to the path and to the history. -/
inductive Changed (ttl : T) (w : World P T) (a : Act P T) : World P T → Prop where
  | moved (s : Proc P T)
      (made : s.claim.made = none ∨ s.claim.made = (w.procs a.who).claim.made)
      (held : s.held = [] ∨ s.held = (w.procs a.who).held)
      (timed : ∀ t, s.claim = .timed t → t = a.now)
      (judged : ∀ e, s.claim = .stealing e → w.path = some e ∧
        ∃ t, (w.procs a.who).claim = .timed t ∧ ttl < t - e.mtime) : Changed ttl w a (w.put a s)
  | created (free : w.path = none) : Changed ttl w a (w.create a)
  | wrote (l : Lock P T) (claim : (w.procs a.who).claim = .writing l) :
      Changed ttl w a (w.write a l)
  | closed (l : Lock P T) (claim : (w.procs a.who).claim = .closing l) :
      Changed ttl w a (w.close a l)
  | stole (e : Entry P T) (op : a.op = .steal) (claim : (w.procs a.who).claim = .stealing e) :
      Changed ttl w a (w.steal a)
  | undone (l : Lock P T) (ok : Bool) (op : a.op = .undo ok)
      (claim : (w.procs a.who).claim = .undoing l) : Changed ttl w a (w.undo a ok)
  | released (l : Lock P T) (ok : Bool) (op : a.op = .release l ok)
      (held : l ∈ (w.procs a.who).held) : Changed ttl w a (w.release a l ok)

variable {ttl : T} {w w' : World P T} {a : Act P T}

theorem changed_idle {s : Proc P T} (hheld : s.held = (w.procs a.who).held)
    (hclaim : s.claim = .idle ∨ s.claim = .opening ∨ s.claim = .checking) :
    Changed ttl w a (w.put a s) := by
  refine .moved s (.inl ?_) (.inr hheld) (fun t ht => ?_) fun e he => ?_
  · rcases hclaim with h | h | h <;> rw [h] <;> rfl
  · rcases hclaim with h | h | h <;> exact absurd (h.symm.trans ht) (by simp)
  · rcases hclaim with h | h | h <;> exact absurd (h.symm.trans he) (by simp)

theorem changed_failed {error : Str} {s : Proc P T}
    (h : (w.procs a.who).failed error = some s) : Changed ttl w a (w.put a s) := by
  rw [Proc.failed] at h
  have hundo : ∀ l, (w.procs a.who).claim.made = some l →
      Changed ttl w a (w.put a { w.procs a.who with claim := .undoing l, error }) := fun l hl =>
    .moved _ (.inr hl.symm) (.inr rfl) (fun t ht => absurd ht (by simp))
      fun e he => absurd he (by simp)
  have hidle : Changed ttl w a (w.put a { w.procs a.who with claim := .idle, error }) :=
    changed_idle rfl (.inl rfl)
  split at h
  · exact Option.some.inj h ▸ hidle
  · rename_i l hclaim
    exact Option.some.inj h ▸ hundo l (by rw [hclaim]; rfl)
  · rename_i l hclaim
    exact Option.some.inj h ▸ hundo l (by rw [hclaim]; rfl)
  · exact Option.some.inj h ▸ hidle
  · exact Option.some.inj h ▸ hidle
  · exact Option.some.inj h ▸ hidle
  · exact absurd h (by simp)
  · exact absurd h (by simp)

theorem changed_stat {t : T} (hclaim : (w.procs a.who).claim = .timed t) :
    Changed ttl w a (w.stat ttl a t) := by
  rw [World.stat]
  split
  · exact changed_idle rfl (.inr (.inl rfl))
  · rename_i e hpath
    by_cases hstale : ttl < t - e.mtime
    · rw [if_pos hstale]
      refine .moved _ (.inl rfl) (.inr rfl) (fun _ ht => absurd ht (by simp)) fun e' he => ?_
      obtain rfl := Claim.stealing.inj he
      exact ⟨hpath, t, hclaim, hstale⟩
    · rw [if_neg hstale]
      exact changed_idle rfl (.inl rfl)

theorem step_changed (h : w.step ttl a = some w') : Changed ttl w a w' := by
  rw [World.step] at h
  split at h
  · exact Option.some.inj h ▸ changed_idle rfl (.inr (.inl rfl))
  · obtain rfl := Option.some.inj h
    rcases hpath : w.path with _ | e
    · exact .created hpath
    · rw [World.create, hpath]
      exact changed_idle rfl (.inr (.inr rfl))
  · exact Option.some.inj h ▸ .wrote _ ‹_›
  · exact Option.some.inj h ▸ .closed _ ‹_›
  · refine Option.some.inj h ▸ .moved _ (.inl rfl) (.inr rfl) (fun t ht => ?_) fun _ he => ?_
    · exact (Claim.timed.inj ht).symm
    · exact absurd he (by simp)
  · exact Option.some.inj h ▸ changed_stat ‹_›
  · exact Option.some.inj h ▸ .stole _ ‹_› ‹_›
  · exact Option.some.inj h ▸ .undone _ _ ‹_› ‹_›
  · obtain ⟨s, hs, rfl⟩ := Option.map_eq_some_iff.mp h
    exact changed_failed hs
  · split at h
    · exact Option.some.inj h ▸ .released _ _ ‹_› ‹_›
    · exact absurd h (by simp)
  · refine Option.some.inj h ▸ .moved _ (.inl rfl) (.inl rfl) (fun _ ht => ?_) fun _ he => ?_
    · exact absurd ht (by simp)
    · exact absurd he (by simp)
  · exact absurd h (by simp)

end Steps

/-! ### Histories -/

section Histories

variable [DecidableEq P] [Field T] [LinearOrder T] {ttl : T} {log new mid : List (Event P T)}
  {l : Lock P T}

/-- What came after a claim of the lock. -/
def Since (log : List (Event P T)) (l : Lock P T) (mid : List (Event P T)) : Prop :=
  ∃ before t, log = before ++ .claimed l t :: mid

omit [DecidableEq P] [Field T] [LinearOrder T] in
theorem Since.mem (h : Since log l mid) : ∃ t, .claimed l t ∈ log := by
  obtain ⟨before, t, rfl⟩ := h
  exact ⟨t, List.mem_append_right _ List.mem_cons_self⟩

omit [DecidableEq P] [Field T] [LinearOrder T] in
theorem Since.snoc {e : Event P T} (h : Since (log ++ [e]) l mid) :
    (mid = [] ∧ ∃ t, e = .claimed l t) ∨ ∃ mid', mid = mid' ++ [e] ∧ Since log l mid' := by
  obtain ⟨before, t, heq⟩ := h
  rcases List.eq_nil_or_concat mid with rfl | ⟨mid', z, rfl⟩
  · obtain ⟨-, he⟩ := List.append_inj' heq rfl
    exact .inl ⟨rfl, t, List.singleton_inj.mp he⟩
  · rw [List.concat_eq_append, ← List.cons_append, ← List.append_assoc] at heq
    obtain ⟨hlog, he⟩ := List.append_inj' heq rfl
    refine .inr ⟨mid', ?_, before, t, hlog⟩
    rw [List.concat_eq_append, List.singleton_inj.mp he]

omit [DecidableEq P] [Field T] [LinearOrder T] in
theorem Released.mono (h : Released mid l) : Released (mid ++ new) l :=
  h.imp fun _ hr => List.mem_append_left _ hr

omit [DecidableEq P] [Field T] [LinearOrder T] in
theorem Stolen.mono (h : Stolen log l) : Stolen (log ++ new) l := by
  rw [Stolen, List.filterMap_append]
  exact List.mem_append_left _ h

omit [DecidableEq P] in
/-- An event keeps the history exclusive. -/
theorem Exclusive.snoc {e : Event P T} (h : Exclusive ttl log)
    (hclaim : ∀ l' s', e = .claimed l' s' → ∀ l mid, Since log l mid → l.owner ≠ l'.owner →
      Released mid l ∨ min l.created l'.created + ttl < s')
    (hsteal : ∀ p x t, e = .stole p x t → x.mtime + ttl < t)
    (hrelease : ∀ l x, e = .released l (some x) → x.lock.owner = l.owner) :
    Exclusive ttl (log ++ [e]) where
  claims before l s mid l' s' after heq hne := by
    rw [← List.cons_append, ← List.append_assoc] at heq
    rcases split_concat heq with ⟨hlog, he⟩ | ⟨after', hlog⟩
    · exact hclaim l' s' he.symm l mid ⟨before, s, hlog.symm⟩ hne
    · rw [List.append_assoc, List.cons_append] at hlog
      exact h.claims before l s mid l' s' after' hlog hne
  steals p x t hmem := by
    rcases List.mem_append.mp hmem with hmem | hmem
    · exact h.steals p x t hmem
    · exact hsteal p x t (List.mem_singleton.mp hmem).symm
  releases l x hmem := by
    rcases List.mem_append.mp hmem with hmem | hmem
    · exact h.releases l x hmem
    · exact hrelease l x (List.mem_singleton.mp hmem).symm

end Histories

/-! ### The invariant -/

section Invariant

variable [DecidableEq P] [Field T] [LinearOrder T]

/-- The lock is at the path, or it was stolen. -/
def World.Kept (w : World P T) (l : Lock P T) : Prop :=
  (∃ e, w.path = some e ∧ e.lock = l) ∨ Stolen w.log l

/-- A lock of this supervisor that it has not removed. -/
structure World.Mine (w : World P T) (p : P) (l : Lock P T) : Prop where
  owner : l.owner = p
  serial : l.serial < w.serial
  kept : w.Kept l

variable (ttl : T)

/-- What a supervisor knows is so. -/
structure Knows (w : World P T) (p : P) (s : Proc P T) : Prop where
  timed : ∀ t, s.claim = .timed t → t ≤ w.clock
  judged : ∀ e, s.claim = .stealing e →
    e.lock.created + ttl < w.clock ∧ e.mtime + ttl < w.clock
  made : ∀ l, s.claim.made = some l → w.Mine p l ∧ ∀ t, .claimed l t ∉ w.log
  held : ∀ l ∈ s.held, w.Mine p l ∧ ∃ t, .claimed l t ∈ w.log

/-- The locks and the history fit together. -/
structure Sound (w : World P T) : Prop where
  knows : ∀ p, Knows ttl w p (w.procs p)
  fresh : ∀ e, w.path = some e → e.lock.serial < w.serial
  dated : ∀ e, w.path = some e → e.lock.created ≤ e.mtime ∧ e.lock.created ≤ w.clock
  numbered : ∀ l t, .claimed l t ∈ w.log → l.serial < w.serial
  stolen : ∀ l, Stolen w.log l → l.created + ttl < w.clock
  claimed : ∀ l mid, Since w.log l mid → Released mid l ∨ w.Kept l

/-- A lock whose call has not returned yet, beside the claims that succeeded. -/
def Rivals (w : World P T) : Prop :=
  ∀ p l, (w.procs p).claim.made = some l → ∀ l' mid, Since w.log l' mid → l'.owner ≠ p →
    Released mid l' ∨ min l'.created l.created + ttl < w.clock

end Invariant

section Steps

variable [DecidableEq P] [Field T] [LinearOrder T] {ttl : T} {w w' : World P T} {a : Act P T}
  {p : P} {s : Proc P T}

omit [DecidableEq P] in
theorem Knows.mono (h : Knows ttl w p s) (hclock : w.clock ≤ w'.clock)
    (hserial : w.serial ≤ w'.serial) (hkept : ∀ l, l.owner = p → w.Kept l → w'.Kept l)
    (hlog : ∀ l t, l.owner = p → .claimed l t ∈ w'.log → .claimed l t ∈ w.log)
    (hmem : ∀ e ∈ w.log, e ∈ w'.log) : Knows ttl w' p s where
  timed t ht := (h.timed t ht).trans hclock
  judged e he := (h.judged e he).imp (lt_of_lt_of_le · hclock) (lt_of_lt_of_le · hclock)
  made l hl := by
    obtain ⟨⟨howner, hlt, hk⟩, hno⟩ := h.made l hl
    exact ⟨⟨howner, hlt.trans_le hserial, hkept l howner hk⟩,
      fun t ht => hno t (hlog l t howner ht)⟩
  held l hl := by
    obtain ⟨⟨howner, hlt, hk⟩, t, ht⟩ := h.held l hl
    exact ⟨⟨howner, hlt.trans_le hserial, hkept l howner hk⟩, t, hmem _ ht⟩

omit [DecidableEq P] in
/-- A supervisor that has created no lock in this call, and judged none. -/
theorem Knows.rest (h : Knows ttl w p s) {s' : Proc P T} (hheld : ∀ l ∈ s'.held, l ∈ s.held)
    (hclaim : s'.claim = .idle ∨ s'.claim = .opening) : Knows ttl w p s' where
  timed t ht := by rcases hclaim with h | h <;> exact absurd (h.symm.trans ht) (by simp)
  judged e he := by rcases hclaim with h | h <;> exact absurd (h.symm.trans he) (by simp)
  made l hl := by
    rcases hclaim with h | h <;> rw [h] at hl <;> exact absurd hl (by simp [Claim.made])
  held l hl := h.held l (hheld l hl)

theorem knows_update {s' : Proc P T} (hprocs : w'.procs = Function.update w.procs a.who s')
    (hothers : ∀ p, p ≠ a.who → Knows ttl w' p (w.procs p)) (hwho : Knows ttl w' a.who s') (p : P) :
    Knows ttl w' p (w'.procs p) := by
  rw [hprocs]
  rcases eq_or_ne p a.who with rfl | hne
  · rw [Function.update_self]
    exact hwho
  · rw [Function.update_of_ne hne]
    exact hothers p hne

theorem sound_moved (h : Sound ttl w) (hclock : w.clock ≤ a.now)
    (hmade : s.claim.made = none ∨ s.claim.made = (w.procs a.who).claim.made)
    (hheld : s.held = [] ∨ s.held = (w.procs a.who).held)
    (htimed : ∀ t, s.claim = .timed t → t = a.now)
    (hjudged : ∀ e, s.claim = .stealing e → w.path = some e ∧
      ∃ t, (w.procs a.who).claim = .timed t ∧ ttl < t - e.mtime) [IsStrictOrderedRing T] :
    Sound ttl (w.put a s) where
  knows := by
    have hmono : ∀ p, Knows ttl (w.put a s) p (w.procs p) := fun p =>
      (h.knows p).mono hclock le_rfl (fun _ _ hk => hk) (fun _ _ _ ht => ht) fun _ he => he
    refine knows_update rfl (fun p _ => hmono p) ⟨fun t ht => (htimed t ht).le, fun e he => ?_,
      fun l hl => ?_, fun l hl => ?_⟩
    · obtain ⟨hpath, t, ht, hstale⟩ := hjudged e he
      have hle := ((h.knows a.who).timed t ht).trans hclock
      have hdated := (h.dated e hpath).1
      change _ < a.now ∧ _ < a.now
      constructor <;> linarith
    · rcases hmade with hnone | hsame
      · exact absurd (hnone.symm.trans hl) (by simp)
      · exact (hmono a.who).made l (hsame ▸ hl)
    · rcases hheld with hnil | hsame
      · exact absurd (hnil ▸ hl) List.not_mem_nil
      · exact (hmono a.who).held l (hsame ▸ hl)
  fresh := h.fresh
  dated e he := (h.dated e he).imp_right (·.trans hclock)
  numbered := h.numbered
  stolen l hl := (h.stolen l hl).trans_le hclock
  claimed := h.claimed

theorem sound_created (h : Sound ttl w) (hclock : w.clock ≤ a.now) (hfree : w.path = none) :
    Sound ttl (w.create a) := by
  have hkept : ∀ l, w.Kept l → Stolen w.log l := by
    rintro l (⟨e, he, -⟩ | hl)
    · exact absurd (hfree.symm.trans he) (by simp)
    · exact hl
  rw [World.create, hfree]
  refine ⟨?_, ?_, ?_, fun l t ht => (h.numbered l t ht).trans (Nat.lt_succ_self _),
    fun l hl => (h.stolen l hl).trans_le hclock,
    fun l mid hs => (h.claimed l mid hs).imp_right fun hk => .inr (hkept l hk)⟩
  · refine knows_update rfl (fun p _ => ?_) ⟨fun t ht => absurd ht (by simp),
      fun e he => absurd he (by simp), fun l hl => ?_, fun l hl => ?_⟩
    · exact (h.knows p).mono hclock (Nat.le_succ _) (fun l _ hk => .inr (hkept l hk))
        (fun _ _ _ ht => ht) fun _ he => he
    · obtain rfl := Option.some.inj hl
      exact ⟨⟨rfl, Nat.lt_succ_self _, .inl ⟨_, rfl, rfl⟩⟩,
        fun t ht => absurd (h.numbered _ t ht) (lt_irrefl _)⟩
    · obtain ⟨⟨howner, hlt, hk⟩, hin⟩ := (h.knows a.who).held l hl
      exact ⟨⟨howner, hlt.trans (Nat.lt_succ_self _), .inr (hkept l hk)⟩, hin⟩
  · intro e he
    obtain rfl := Option.some.inj he
    exact Nat.lt_succ_self _
  · intro e he
    obtain rfl := Option.some.inj he
    exact ⟨le_rfl, le_rfl⟩

theorem sound_wrote (h : Sound ttl w) (hclock : w.clock ≤ a.now) {l : Lock P T}
    (hclaim : (w.procs a.who).claim = .writing l) : Sound ttl (w.write a l) := by
  have hlock : ∀ e, (w.write a l).path = some e → ∃ e', w.path = some e' ∧ e'.lock = e.lock ∧
      (e = e' ∨ e.mtime = a.now) := by
    intro e he
    obtain ⟨e', he', rfl⟩ := Option.map_eq_some_iff.mp he
    refine ⟨e', he', ?_⟩
    split
    · rename_i heq
      exact ⟨heq, .inr rfl⟩
    · exact ⟨rfl, .inl rfl⟩
  have hkept : ∀ l', w.Kept l' → (w.write a l).Kept l' := by
    rintro l' (⟨e, he, rfl⟩ | hl)
    · refine .inl ⟨_, Option.map_eq_some_iff.mpr ⟨e, he, rfl⟩, ?_⟩
      split
      · rename_i heq
        exact heq.symm
      · rfl
    · exact .inr hl
  have hmono : ∀ p, Knows ttl (w.write a l) p (w.procs p) := fun p =>
    (h.knows p).mono hclock le_rfl (fun l' _ => hkept l') (fun _ _ _ ht => ht) fun _ he => he
  refine ⟨?_, fun e he => ?_, fun e he => ?_, h.numbered, fun l hl => (h.stolen l hl).trans_le hclock,
    fun l' mid hs => (h.claimed l' mid hs).imp_right (hkept l')⟩
  · refine knows_update rfl (fun p _ => hmono p) ⟨fun t ht => absurd ht (by simp),
      fun e he => absurd he (by simp), fun l' hl => ?_, (hmono a.who).held⟩
    exact (hmono a.who).made l' (by rw [hclaim]; exact hl)
  · obtain ⟨e', he', hsame, -⟩ := hlock e he
    exact hsame ▸ h.fresh e' he'
  · obtain ⟨e', he', hsame, hdate⟩ := hlock e he
    obtain ⟨hmtime, hcreated⟩ := h.dated e' he'
    rcases hdate with rfl | hnow
    · exact ⟨hmtime, hcreated.trans hclock⟩
    · rw [← hsame, hnow]
      exact ⟨hcreated.trans hclock, hcreated.trans hclock⟩

theorem sound_closed (h : Sound ttl w) (hclock : w.clock ≤ a.now) {l : Lock P T}
    (hclaim : (w.procs a.who).claim = .closing l) : Sound ttl (w.close a l) := by
  obtain ⟨hmine, hno⟩ := (h.knows a.who).made l (by rw [hclaim]; rfl)
  have hkept : ∀ l', w.Kept l' → (w.close a l).Kept l' := fun l' => Or.imp_right Stolen.mono
  have hmem : ∀ e ∈ w.log, e ∈ (w.close a l).log := fun _ => List.mem_append_left _
  have hnew : ∀ l' t, .claimed l' t ∈ (w.close a l).log → .claimed l' t ∈ w.log ∨ l' = l := by
    intro l' t ht
    exact (List.mem_append.mp ht).imp_right fun ht =>
      (Event.claimed.inj (List.mem_singleton.mp ht)).1
  refine ⟨?_, h.fresh, fun e he => (h.dated e he).imp_right (·.trans hclock), fun l' t ht => ?_,
    fun l' hl => ?_, fun l' mid hs => ?_⟩
  · refine knows_update rfl (fun p hne => ?_) ⟨fun t ht => absurd ht (by simp),
      fun e he => absurd he (by simp), fun l' hl => absurd hl (by simp [Claim.made]),
      fun l' hl => ?_⟩
    · refine (h.knows p).mono hclock le_rfl (fun l' _ => hkept l') (fun l' t howner ht => ?_) hmem
      refine (hnew l' t ht).resolve_right fun heq => hne ?_
      rw [← howner, heq, hmine.owner]
    · rcases List.mem_cons.mp hl with rfl | hl
      · exact ⟨⟨hmine.owner, hmine.serial, hkept _ hmine.kept⟩, a.now,
          List.mem_append_right _ List.mem_cons_self⟩
      · obtain ⟨⟨howner, hlt, hk⟩, t, ht⟩ := (h.knows a.who).held l' hl
        exact ⟨⟨howner, hlt, hkept l' hk⟩, t, hmem _ ht⟩
  · rcases hnew l' t ht with ht | rfl
    · exact h.numbered l' t ht
    · exact hmine.serial
  · rw [Stolen, World.close, List.filterMap_append] at hl
    rcases List.mem_append.mp hl with hl | hl
    · exact (h.stolen l' hl).trans_le hclock
    · exact absurd hl (by simp [Event.stolen?])
  · rcases hs.snoc with ⟨rfl, t, ht⟩ | ⟨mid', rfl, hbefore⟩
    · obtain ⟨rfl, -⟩ := Event.claimed.inj ht
      exact .inr (hkept _ hmine.kept)
    · exact (h.claimed l' mid' hbefore).imp Released.mono (hkept l')

omit [DecidableEq P] in
/-- An event that is no claim is added to the history. -/
theorem claimed_snoc (h : Sound ttl w) {e : Event P T} (he : ∀ l t, e ≠ .claimed l t)
    (hlog : w'.log = w.log ++ [e])
    (hkept : ∀ l mid, Since w.log l mid → w.Kept l → (∃ r, e = .released l r) ∨ w'.Kept l)
    (l : Lock P T) (mid : List (Event P T)) (hs : Since w'.log l mid) :
    Released mid l ∨ w'.Kept l := by
  rw [hlog] at hs
  rcases hs.snoc with ⟨-, t, ht⟩ | ⟨mid', rfl, hbefore⟩
  · exact absurd ht (he l t)
  · rcases h.claimed l mid' hbefore with hr | hk
    · exact .inl hr.mono
    · exact (hkept l mid' hbefore hk).imp_left fun ⟨r, hr⟩ =>
        ⟨r, hr ▸ List.mem_append_right _ List.mem_cons_self⟩

omit [DecidableEq P] [Field T] [LinearOrder T] in
theorem mem_log_snoc {log : List (Event P T)} {e : Event P T} (he : ∀ l t, e ≠ .claimed l t)
    (l : Lock P T) (t : T) (ht : .claimed l t ∈ log ++ [e]) : .claimed l t ∈ log :=
  (List.mem_append.mp ht).resolve_right fun ht => he l t (List.mem_singleton.mp ht).symm

theorem sound_stole (h : Sound ttl w) (hclock : w.clock ≤ a.now) {e : Entry P T}
    (hclaim : (w.procs a.who).claim = .stealing e)
    (hjudged : ∀ e' ∈ w.path, (w.procs a.who).claim = .stealing e') : Sound ttl (w.steal a) := by
  rcases hpath : w.path with _ | e'
  · -- there is no lock any more
    have hsame : w.steal a = w.put a (w.procs a.who).opened := by
      rw [World.steal, hpath, Option.map_none, Option.toList_none, List.append_nil, World.put, hpath]
    have hmono : ∀ p, Knows ttl (w.put a (w.procs a.who).opened) p (w.procs p) := fun p =>
      (h.knows p).mono hclock le_rfl (fun _ _ hk => hk) (fun _ _ _ ht => ht) fun _ he => he
    rw [hsame]
    exact ⟨knows_update rfl (fun p _ => hmono p) ((hmono a.who).rest (fun _ hl => hl) (.inr rfl)),
      h.fresh, fun e he => (h.dated e he).imp_right (·.trans hclock), h.numbered,
      fun l hl => (h.stolen l hl).trans_le hclock, h.claimed⟩
  · obtain rfl : e' = e := Claim.stealing.inj ((hjudged e' hpath).symm.trans hclaim)
    have hlog : (w.steal a).log = w.log ++ [.stole a.who e' a.now] := by
      rw [World.steal, hpath, Option.map_some, Option.toList_some]
    have hnew : Stolen (w.steal a).log e'.lock := by
      rw [hlog, Stolen, List.filterMap_append]
      exact List.mem_append_right _ (List.mem_singleton.mpr rfl)
    have hkept : ∀ l, w.Kept l → (w.steal a).Kept l := by
      rintro l (⟨e, he, rfl⟩ | hl)
      · obtain rfl := Option.some.inj (hpath.symm.trans he)
        exact .inr hnew
      · exact .inr (hlog ▸ hl.mono)
    have hmono : ∀ p, Knows ttl (w.steal a) p (w.procs p) := fun p =>
      (h.knows p).mono hclock le_rfl (fun l _ => hkept l)
        (fun l t _ ht => mem_log_snoc (fun _ _ => by simp) l t (hlog ▸ ht))
        fun x hx => hlog ▸ List.mem_append_left _ hx
    refine ⟨knows_update rfl (fun p _ => hmono p) ((hmono a.who).rest (fun _ hl => hl) (.inr rfl)),
      fun e he => absurd he (by simp [World.steal]), fun e he => absurd he (by simp [World.steal]),
      fun l t ht => h.numbered l t (mem_log_snoc (fun _ _ => by simp) l t (hlog ▸ ht)),
      fun l hl => ?_, claimed_snoc h (fun _ _ => by simp) hlog fun l _ _ hk => .inr (hkept l hk)⟩
    rw [hlog, Stolen, List.filterMap_append] at hl
    rcases List.mem_append.mp hl with hl | hl
    · exact (h.stolen l hl).trans_le hclock
    · obtain rfl : l = e'.lock := List.mem_singleton.mp hl
      exact (((h.knows a.who).judged e' hclaim).1).trans_le hclock

omit [DecidableEq P] [Field T] [LinearOrder T] in
/-- A supervisor that still has its lock unlinks no other one. -/
theorem kept_unlink {l l' : Lock P T} {ok : Bool} (h : w.Kept l)
    (hown : ok = true → ¬Stolen w.log l) (hne : l' ≠ l) (hk : w.Kept l') :
    (∃ e, (if ok = true then none else w.path) = some e ∧ e.lock = l') ∨ Stolen w.log l' := by
  rcases ok with _ | _
  · exact hk
  · obtain ⟨e, he, rfl⟩ := h.resolve_right (hown rfl)
    rcases hk with ⟨e', he', rfl⟩ | hstolen
    · obtain rfl := Option.some.inj (he.symm.trans he')
      exact absurd rfl hne
    · exact .inr hstolen

omit [DecidableEq P] [Field T] [LinearOrder T] in
theorem unlink_some {ok : Bool} {e : Entry P T}
    (h : (if ok = true then none else w.path) = some e) : w.path = some e := by
  rcases ok with _ | _
  · exact h
  · exact absurd h (by simp)

theorem sound_undone (h : Sound ttl w) (hclock : w.clock ≤ a.now) {l : Lock P T} {ok : Bool}
    (hclaim : (w.procs a.who).claim = .undoing l) (hown : ok = true → ¬Stolen w.log l) :
    Sound ttl (w.undo a ok) := by
  obtain ⟨hmine, hno⟩ := (h.knows a.who).made l (by rw [hclaim]; rfl)
  have hkept : ∀ l', l' ≠ l → w.Kept l' → (w.undo a ok).Kept l' := fun _ =>
    kept_unlink hmine.kept hown
  refine ⟨?_, fun e he => h.fresh e (unlink_some he),
    fun e he => (h.dated e (unlink_some he)).imp_right (·.trans hclock), h.numbered,
    fun l hl => (h.stolen l hl).trans_le hclock, fun l' mid hs =>
      (h.claimed l' mid hs).imp_right (hkept l' ?_)⟩
  · refine knows_update rfl (fun p hne => ?_) ⟨fun t ht => absurd ht (by simp),
      fun e he => absurd he (by simp), fun l' hl => absurd hl (by simp [Claim.made]),
      fun l' hl => ?_⟩
    · refine (h.knows p).mono hclock le_rfl (fun l' howner => hkept l' fun heq => hne ?_)
        (fun _ _ _ ht => ht) fun _ he => he
      rw [← howner, heq, hmine.owner]
    · obtain ⟨⟨howner, hlt, hk⟩, t, ht⟩ := (h.knows a.who).held l' hl
      exact ⟨⟨howner, hlt, hkept l' (fun heq => hno t (heq ▸ ht)) hk⟩, t, ht⟩
  · rintro rfl
    obtain ⟨t, ht⟩ := hs.mem
    exact hno t ht

theorem sound_released (h : Sound ttl w) (hclock : w.clock ≤ a.now) {l : Lock P T} {ok : Bool}
    (hheld : l ∈ (w.procs a.who).held) (hown : ok = true → ¬Stolen w.log l) :
    Sound ttl (w.release a l ok) := by
  obtain ⟨hmine, t, hin⟩ := (h.knows a.who).held l hheld
  have hkept : ∀ l', l' ≠ l → w.Kept l' → (w.release a l ok).Kept l' := fun l' hne hk =>
    (kept_unlink hmine.kept hown hne hk).imp_right Stolen.mono
  have hmem : ∀ l' s, .claimed l' s ∈ (w.release a l ok).log → .claimed l' s ∈ w.log :=
    mem_log_snoc fun _ _ => by simp
  refine ⟨?_, fun e he => h.fresh e (unlink_some he),
    fun e he => (h.dated e (unlink_some he)).imp_right (·.trans hclock),
    fun l' s hs => h.numbered l' s (hmem l' s hs), fun l' hl => ?_,
    claimed_snoc h (fun _ _ => by simp) rfl fun l' _ _ hk => ?_⟩
  · refine knows_update rfl (fun p hne => ?_) ?_
    · refine (h.knows p).mono hclock le_rfl (fun l' howner => hkept l' fun heq => hne ?_)
        (fun l' s _ hs => hmem l' s hs) fun _ he => List.mem_append_left _ he
      rw [← howner, heq, hmine.owner]
    · have hknows := h.knows a.who
      refine ⟨fun t ht => (hknows.timed t ht).trans hclock, fun e he =>
        (hknows.judged e he).imp (lt_of_lt_of_le · hclock) (lt_of_lt_of_le · hclock),
        fun l' hl => ?_, fun l' hl => ?_⟩
      · obtain ⟨⟨howner, hlt, hk⟩, hno⟩ := hknows.made l' hl
        exact ⟨⟨howner, hlt, hkept l' (fun heq => hno t (heq ▸ hin)) hk⟩,
          fun s hs => hno s (hmem l' s hs)⟩
      · obtain ⟨hl, hne⟩ := List.mem_filter.mp hl
        obtain ⟨⟨howner, hlt, hk⟩, s, hs⟩ := hknows.held l' hl
        exact ⟨⟨howner, hlt, hkept l' (of_decide_eq_true hne) hk⟩, s, List.mem_append_left _ hs⟩
  · rw [Stolen, World.release, List.filterMap_append] at hl
    rcases List.mem_append.mp hl with hl | hl
    · exact (h.stolen l' hl).trans_le hclock
    · exact absurd hl (by simp [Event.stolen?])
  · rcases eq_or_ne l' l with rfl | hne
    · exact .inl ⟨_, rfl⟩
    · exact .inr (hkept l' hne hk)

theorem sound_changed [IsStrictOrderedRing T] (h : Sound ttl w) (hquiet : w.Quiet a)
    (hc : Changed ttl w a w') : Sound ttl w' := by
  rcases hc with ⟨s, hmade, hheld, htimed, hjudged⟩ | hfree | ⟨l, hclaim⟩ | ⟨l, hclaim⟩ |
    ⟨e, hop, hclaim⟩ | ⟨l, ok, hop, hclaim⟩ | ⟨l, ok, hop, hheld⟩
  · exact sound_moved h hquiet.clock hmade hheld htimed hjudged
  · exact sound_created h hquiet.clock hfree
  · exact sound_wrote h hquiet.clock hclaim
  · exact sound_closed h hquiet.clock hclaim
  · exact sound_stole h hquiet.clock hclaim (hquiet.judged hop)
  · refine sound_undone h hquiet.clock hclaim fun hok => hquiet.owned l ?_
    rw [World.meant, hop, hok, hclaim]
    rfl
  · refine sound_released h hquiet.clock hheld fun hok => hquiet.owned l ?_
    rw [World.meant, hop, hok]
    rfl

/-! ### Rivals -/

omit [DecidableEq P] in
/-- Of two locks that were both kept, one has expired. -/
theorem Sound.expired (h : Sound ttl w) {l l' : Lock P T} (hl : w.Kept l) (hl' : w.Kept l')
    (hne : l ≠ l') [IsStrictOrderedRing T] : min l.created l'.created + ttl < w.clock := by
  rcases hl with ⟨e, he, rfl⟩ | hl
  · rcases hl' with ⟨e', he', rfl⟩ | hl'
    · exact absurd (congrArg Entry.lock (Option.some.inj (he.symm.trans he'))) hne
    · exact (add_le_add_left (min_le_right _ _) ttl).trans_lt (h.stolen l' hl')
  · exact (add_le_add_left (min_le_left _ _) ttl).trans_lt (h.stolen l hl)

omit [DecidableEq P] in
/-- The history grows by events that are no claims, and no supervisor gets a new lock. -/
theorem rivals_mono (h : Rivals ttl w) (hclock : w.clock ≤ w'.clock) (new : List (Event P T))
    (hlog : ∀ l mid, Since w'.log l mid → ∃ mid', Since w.log l mid' ∧ mid = mid' ++ new)
    (hmade : ∀ p l, (w'.procs p).claim.made = some l → (w.procs p).claim.made = some l) :
    Rivals ttl w' := by
  intro p l hl l' mid hs hne
  obtain ⟨mid', hs', rfl⟩ := hlog l' mid hs
  exact (h p l (hmade p l hl) l' mid' hs' hne).imp Released.mono (lt_of_lt_of_le · hclock)

omit [Field T] [LinearOrder T] in
theorem made_update {s' : Proc P T} (hprocs : w'.procs = Function.update w.procs a.who s')
    (hmade : s'.claim.made = none ∨ s'.claim.made = (w.procs a.who).claim.made) (p : P)
    (l : Lock P T) (hl : (w'.procs p).claim.made = some l) :
    (w.procs p).claim.made = some l := by
  rw [hprocs] at hl
  rcases eq_or_ne p a.who with rfl | hne
  · rw [Function.update_self] at hl
    rcases hmade with hnone | hsame
    · exact absurd (hnone.symm.trans hl) (by simp)
    · exact hsame ▸ hl
  · rwa [Function.update_of_ne hne] at hl

omit [DecidableEq P] [Field T] [LinearOrder T] in
theorem since_snoc_of_ne {log : List (Event P T)} {e : Event P T} (he : ∀ l t, e ≠ .claimed l t)
    (l : Lock P T) (mid : List (Event P T)) (hs : Since (log ++ [e]) l mid) :
    ∃ mid', Since log l mid' ∧ mid = mid' ++ [e] := by
  rcases hs.snoc with ⟨-, t, ht⟩ | ⟨mid', rfl, hbefore⟩
  · exact absurd ht (he l t)
  · exact ⟨mid', hbefore, rfl⟩

omit [DecidableEq P] [Field T] [LinearOrder T] in
theorem since_same {log : List (Event P T)} (l : Lock P T) (mid : List (Event P T))
    (hs : Since log l mid) : ∃ mid', Since log l mid' ∧ mid = mid' ++ [] :=
  ⟨mid, hs, (List.append_nil mid).symm⟩

theorem rivals_changed [IsStrictOrderedRing T] (hsound : Sound ttl w) (h : Rivals ttl w)
    (hquiet : w.Quiet a) (hc : Changed ttl w a w') : Rivals ttl w' := by
  have hclock := hquiet.clock
  rcases hc with ⟨s, hmade, -, -, -⟩ | hfree | ⟨l, hclaim⟩ | ⟨l, hclaim⟩ |
    ⟨e, -, hclaim⟩ | ⟨l, ok, -, hclaim⟩ | ⟨l, ok, -, -⟩
  · exact rivals_mono h hclock _ since_same (made_update rfl hmade)
  · rw [World.create, hfree]
    intro p l hl l' mid hs hne
    change (Function.update w.procs a.who
      { w.procs a.who with claim := .writing ⟨w.serial, a.who, a.now⟩ } p).claim.made = some l at hl
    change _ ∨ _ < a.now
    rcases eq_or_ne p a.who with rfl | hp
    · -- the lock is new: what was claimed before was released or stolen
      refine (hsound.claimed l' mid hs).imp_right fun hk => ?_
      have hstolen : Stolen w.log l' := hk.resolve_left fun ⟨e, he, _⟩ =>
        absurd (hfree.symm.trans he) (by simp)
      exact (add_le_add_left (min_le_left _ _) ttl).trans_lt
        ((hsound.stolen l' hstolen).trans_le hclock)
    · rw [Function.update_of_ne hp] at hl
      exact (h p l hl l' mid hs hne).imp_right (lt_of_lt_of_le · hclock)
  · exact rivals_mono h hclock _ since_same (made_update rfl (.inr (by rw [hclaim]; rfl)))
  · obtain ⟨hmine, -⟩ := (hsound.knows a.who).made l (by rw [hclaim]; rfl)
    intro p l₁ hl₁ l' mid hs hne
    have hmade : (w.procs p).claim.made = some l₁ := made_update rfl (.inl rfl) p l₁ hl₁
    rcases hs.snoc with ⟨rfl, t, ht⟩ | ⟨mid', rfl, hbefore⟩
    · -- the other lock succeeds just now
      obtain ⟨rfl, -⟩ := Event.claimed.inj ht
      obtain ⟨hmine₁, -⟩ := (hsound.knows p).made l₁ hmade
      refine .inr ((hsound.expired hmine.kept hmine₁.kept fun heq => hne ?_).trans_le hclock)
      rw [heq, hmine₁.owner]
    · exact (h p l₁ hmade l' mid' hbefore hne).imp Released.mono (lt_of_lt_of_le · hclock)
  · rcases hpath : w.path with _ | e'
    · refine rivals_mono h hclock [] (fun l mid hs => ?_) (made_update rfl (.inl rfl))
      rw [World.steal, hpath, Option.map_none, Option.toList_none, List.append_nil] at hs
      exact since_same l mid hs
    · refine rivals_mono h hclock [.stole a.who e' a.now] (fun l mid hs => ?_)
        (made_update rfl (.inl rfl))
      rw [World.steal, hpath, Option.map_some, Option.toList_some] at hs
      exact since_snoc_of_ne (fun _ _ => by simp) l mid hs
  · exact rivals_mono h hclock _ since_same (made_update rfl (.inl rfl))
  · exact rivals_mono h hclock _ (since_snoc_of_ne fun _ _ => by simp) (made_update rfl (.inr rfl))

theorem exclusive_changed [IsStrictOrderedRing T] (hsound : Sound ttl w) (hrivals : Rivals ttl w)
    (hquiet : w.Quiet a) (h : Exclusive ttl w.log) (hc : Changed ttl w a w') :
    Exclusive ttl w'.log := by
  rcases hc with _ | hfree | _ | ⟨l, hclaim⟩ | ⟨e, hop, hclaim⟩ | _ | ⟨l, ok, hop, hheld⟩
  · exact h
  · rwa [World.create, hfree]
  · exact h
  · refine h.snoc (fun l' s' he l₁ mid hs hne => ?_) (fun _ _ _ he => absurd he (by simp))
      fun _ _ he => absurd he (by simp)
    obtain ⟨rfl, rfl⟩ := Event.claimed.inj he
    have hmade : (w.procs a.who).claim.made = some l := by rw [hclaim]; rfl
    have howner := ((hsound.knows a.who).made l hmade).1.owner
    exact (hrivals a.who l hmade l₁ mid hs (howner ▸ hne)).imp_right
      (lt_of_lt_of_le · hquiet.clock)
  · rw [World.steal]
    rcases hpath : w.path with _ | e'
    · rwa [Option.map_none, Option.toList_none, List.append_nil]
    · rw [Option.map_some, Option.toList_some]
      refine h.snoc (fun _ _ he => absurd he (by simp)) (fun p x t he => ?_)
        fun _ _ he => absurd he (by simp)
      obtain ⟨-, rfl, rfl⟩ := Event.stole.inj he
      have hjudged := (hsound.knows a.who).judged e' (hquiet.judged hop e' hpath)
      exact hjudged.2.trans_le hquiet.clock
  · exact h
  · refine h.snoc (fun _ _ he => absurd he (by simp)) (fun _ _ _ he => absurd he (by simp))
      fun l' x he => ?_
    obtain ⟨rfl, hx⟩ := Event.released.inj he
    rcases ok with _ | _
    · exact absurd hx (by simp)
    · -- it has not been robbed, so what it removes is its own
      have hnot := hquiet.owned l (by rw [World.meant, hop]; rfl)
      obtain ⟨e, he, hlock⟩ := (((hsound.knows a.who).held l hheld).1.kept).resolve_right hnot
      obtain rfl := Option.some.inj (he.symm.trans hx)
      exact congrArg Lock.owner hlock

end Steps

/-! ### Runs -/

section Runs

variable [DecidableEq P] [Field T] [LinearOrder T]

/-- The interleavings of the supervisors whose steps meet the condition. -/
abbrev Runs (ttl : T) (cond : World P T → Act P T → Prop) (clock : T) :
    List (Act P T) → World P T → Prop :=
  Run (Guarded cond fun w a w' => w.step ttl a = some w') (World.start clock)

omit [DecidableEq P] in
theorem sound_start (ttl clock : T) : Sound ttl (World.start clock : World P T) where
  knows _ :=
    { timed := fun _ ht => absurd ht (by simp [World.start])
      judged := fun _ he => absurd he (by simp [World.start])
      made := fun _ hl => absurd hl (by simp [World.start, Claim.made])
      held := fun _ hl => absurd hl List.not_mem_nil }
  fresh _ he := absurd he (by simp [World.start])
  dated _ he := absurd he (by simp [World.start])
  numbered _ _ ht := absurd ht List.not_mem_nil
  stolen _ hl := absurd hl (by simp [Stolen, World.start])
  claimed _ _ hs := absurd hs.mem (by simp [World.start])

/-- CORRECT: while no stale lock changes between its verdict and its unlink, and no supervisor
    removes a lock after it was robbed of it, claims exclude each other, steals remove stale locks
    only, and a release removes the lock of its own claim only. -/
theorem runs_exclusive [IsStrictOrderedRing T] {ttl clock : T} {acts : List (Act P T)}
    {w : World P T} (hrun : Runs ttl World.Quiet clock acts w) : Exclusive ttl w.log := by
  have hinv : Sound ttl w ∧ Rivals ttl w ∧ Exclusive ttl w.log := by
    refine hrun.invariant (I := fun w => Sound ttl w ∧ Rivals ttl w ∧ Exclusive ttl w.log)
      (fun w a w' h hstep => ?_) ⟨sound_start ttl clock, ?_, ?_⟩
    · obtain ⟨hsound, hrivals, hexclusive⟩ := h
      obtain ⟨hquiet, hstep⟩ := hstep
      have hc := step_changed hstep
      exact ⟨sound_changed hsound hquiet hc, rivals_changed hsound hrivals hquiet hc,
        exclusive_changed hsound hrivals hquiet hexclusive hc⟩
    · intro _ _ _ _ _ hs
      exact absurd hs.mem (by simp [World.start])
    · refine ⟨fun before _ _ _ _ _ _ heq => ?_, fun _ _ _ he => ?_, fun _ _ he => ?_⟩
      · exact absurd heq (by simp [World.start])
      · exact absurd he List.not_mem_nil
      · exact absurd he List.not_mem_nil
  exact hinv.2.2

/-- Executing steps that all meet a decidable condition is a run. -/
theorem runs_of_exec {ttl clock : T} {cond : World P T → Act P T → Prop}
    [∀ w a, Decidable (cond w a)] {acts : List (Act P T)} {w : World P T}
    (h : acts.foldlM (fun w a => if cond w a then w.step ttl a else none) (World.start clock) =
      some w) : Runs ttl cond clock acts w := by
  refine (Run.of_exec h).mono fun w a w' hstep => ?_
  by_cases hc : cond w a
  · rw [if_pos hc] at hstep
    exact ⟨hc, hstep⟩
  · rw [if_neg hc] at hstep
    exact absurd hstep (by simp)

end Runs

/-! ### Two thieves -/

/-- A claim of a free path. -/
def claimFree (p : ℕ) (now : ℚ) : List (Act ℕ ℚ) :=
  [⟨p, now, .call⟩, ⟨p, now, .create⟩, ⟨p, now, .write⟩, ⟨p, now, .close⟩]

/-- A claim that finds a stale lock, up to its unlink. -/
def judgeStale (p : ℕ) (now : ℚ) : List (Act ℕ ℚ) :=
  [⟨p, now, .call⟩, ⟨p, now, .create⟩, ⟨p, now, .readClock⟩, ⟨p, now, .stat⟩]

/-- The unlink, and the second attempt. -/
def stealAgain (p : ℕ) (now : ℚ) : List (Act ℕ ℚ) :=
  [⟨p, now, .steal⟩, ⟨p, now, .create⟩, ⟨p, now, .write⟩, ⟨p, now, .close⟩]

/-- The log of an execution whose steps all meet the condition. -/
def logOf (cond : World ℕ ℚ → Act ℕ ℚ → Prop) [∀ w a, Decidable (cond w a)]
    (acts : List (Act ℕ ℚ)) : Option (List (Event ℕ ℚ)) :=
  (acts.foldlM (fun w a => if cond w a then w.step 15 a else none) (World.start 0)).map World.log

theorem runs_of_logOf {cond : World ℕ ℚ → Act ℕ ℚ → Prop} [∀ w a, Decidable (cond w a)]
    {acts : List (Act ℕ ℚ)} {log : List (Event ℕ ℚ)} (h : logOf cond acts = some log) :
    ∃ w, Runs 15 cond 0 acts w ∧ w.log = log := by
  obtain ⟨w, hw, hlog⟩ := Option.map_eq_some_iff.mp h
  exact ⟨w, runs_of_exec hw, hlog⟩

/-- A supervisor stops with the lock in its hands; another one steals it twenty seconds later. -/
theorem runs_exclusive_crash : ∃ log : List (Event ℕ ℚ),
    logOf World.Quiet (claimFree 0 0 ++ [⟨0, 1, .crash⟩] ++ judgeStale 1 20 ++ stealAgain 1 20) =
      some log ∧ log.length = 3 ∧ Exclusive 15 log := by
  have hlog : logOf World.Quiet
      (claimFree 0 0 ++ [⟨0, 1, .crash⟩] ++ judgeStale 1 20 ++ stealAgain 1 20) =
      some [.claimed ⟨0, 0, 0⟩ 0, .stole 1 ⟨⟨0, 0, 0⟩, 0⟩ 20, .claimed ⟨1, 1, 20⟩ 20] := by
    decide +kernel
  obtain ⟨w, hrun, hw⟩ := runs_of_logOf hlog
  exact ⟨_, hlog, by simp, hw ▸ runs_exclusive hrun⟩

/-- Two supervisors judge the lock of a third one stale. The second steals the new lock of the
    first, and the first then releases the lock of the second. -/
theorem stolen_twice : ∃ (acts : List (Act ℕ ℚ)) (w : World ℕ ℚ),
    Runs 15 (fun w a => w.clock ≤ a.now) 0 acts w ∧
    (¬∀ before l s mid l' s' after,
      w.log = before ++ .claimed l s :: (mid ++ .claimed l' s' :: after) → l.owner ≠ l'.owner →
        Released mid l ∨ min l.created l'.created + 15 < s') ∧
    (¬∀ p e t, .stole p e t ∈ w.log → e.mtime + 15 < t) ∧
    ¬∀ l e, .released l (some e) ∈ w.log → e.lock.owner = l.owner := by
  have hlog : logOf (fun w a => w.clock ≤ a.now) (claimFree 0 0 ++ [⟨0, 1, .crash⟩] ++
      judgeStale 1 20 ++ judgeStale 2 20 ++ stealAgain 1 20 ++ stealAgain 2 20 ++
      [⟨1, 25, .release ⟨1, 1, 20⟩ true⟩]) =
      some [.claimed ⟨0, 0, 0⟩ 0, .stole 1 ⟨⟨0, 0, 0⟩, 0⟩ 20, .claimed ⟨1, 1, 20⟩ 20,
        .stole 2 ⟨⟨1, 1, 20⟩, 20⟩ 20, .claimed ⟨2, 2, 20⟩ 20,
        .released ⟨1, 1, 20⟩ (some ⟨⟨2, 2, 20⟩, 20⟩)] := by decide +kernel
  obtain ⟨w, hrun, hw⟩ := runs_of_logOf hlog
  refine ⟨_, w, hrun, fun h => ?_, fun h => ?_, fun h => ?_⟩
  · rcases h [.claimed ⟨0, 0, 0⟩ 0, .stole 1 ⟨⟨0, 0, 0⟩, 0⟩ 20] ⟨1, 1, 20⟩ 20
      [.stole 2 ⟨⟨1, 1, 20⟩, 20⟩ 20] ⟨2, 2, 20⟩ 20 _ hw (by decide) with ⟨r, hr⟩ | hlt
    · exact absurd hr (by simp)
    · norm_num at hlt
  · have hlt := h 2 ⟨⟨1, 1, 20⟩, 20⟩ 20 (by rw [hw]; simp)
    norm_num at hlt
  · exact absurd (h ⟨1, 1, 20⟩ ⟨⟨2, 2, 20⟩, 20⟩ (by rw [hw]; simp)) (by decide)

end Angerona.Supervisor.SpawnLock
