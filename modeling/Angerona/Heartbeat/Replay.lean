import Mathlib.Data.List.Induction
import Mathlib.Data.List.Nodup
import Mathlib.Data.Nat.Bitwise

/-!
    Heartbeat records (`resilience/heartbeat.py`): writer processes of one component that run one
    after another, and the reader that tells a record from a replay of an older one.

    A record is compared with the last one that was authenticated: by time, and within one PID by
    the counter, which every process starts anew. A PID that is used again looks like a counter that
    went backwards. -/

namespace Angerona.Heartbeat

def flagRunning : ℕ := 0x00000001

/-- `_FLAG_V2_AUTH`. -/
def flagAuth : ℕ := 0x80000000

def flagKnown : ℕ := flagRunning ||| flagAuth

/-- What `read()` unpacks. -/
structure Record where
  tsNs : ℕ
  pid : ℕ
  proof : ℕ
  counter : ℕ
  wireFlags : ℕ
  deriving DecidableEq

/-- `proof_for` under the key of one component. -/
structure Component where
  proofFor : (tsNs pid counter flags : ℕ) → ℕ

/-! ### Writers -/

inductive Write where
  | beat (running : Bool) (tsNs : ℕ)
  | stop (tsNs : ℕ)

def Write.isBeat : Write → Bool
  | .beat _ _ => true
  | .stop _ => false

namespace Component

variable (C : Component)

/-- The record that is packed, with its proof. -/
def pack (tsNs pid counter flags : ℕ) : Record :=
  ⟨tsNs, pid, C.proofFor tsNs pid counter flags, counter, flags⟩

/-- `beat` or `stop` of a process: the counter afterwards, and the record. -/
def write (pid counter : ℕ) : Write → ℕ × Record
  | .beat running tsNs =>
    let counter := (counter + 1) &&& 0xFFFFFFFF
    (counter, C.pack tsNs (pid &&& 0xFFFFFFFF) counter
      (flagAuth ||| if running then flagRunning else 0))
  | .stop tsNs => (counter, C.pack tsNs (pid &&& 0xFFFFFFFF) counter flagAuth)

def writeAll (pid : ℕ) : ℕ → List Write → List Record
  | _, [] => []
  | counter, w :: ws => (C.write pid counter w).2 :: writeAll pid (C.write pid counter w).1 ws

end Component

/-- A process: the beat of the constructor, and what it writes after it. -/
structure Process where
  pid : ℕ
  firstTs : ℕ
  writes : List Write

def Process.all (p : Process) : List Write := .beat true p.firstTs :: p.writes

/-- The records of processes that ran one after another, each with the number of its process. -/
def Component.written (C : Component) (processes : List Process) : List (ℕ × Record) :=
  processes.zipIdx.flatMap fun p => (C.writeAll p.1.pid 0 p.1.all).map fun r => (p.2, r)

/-- Time does not run backwards, no two processes write at one time, and none beats `2 ^ 31`
    times. -/
structure Honest (C : Component) (processes : List Process) : Prop where
  clock : (C.written processes).Pairwise fun a b =>
    a.2.tsNs ≤ b.2.tsNs ∧ (a.1 ≠ b.1 → a.2.tsNs < b.2.tsNs)
  beats : ∀ p ∈ processes, p.all.countP Write.isBeat < 2 ^ 31

/-! ### The reader -/

/-- `_last_verified_ts_ns`, `_last_verified_counter` and `_last_verified_pid`. -/
structure Verified where
  tsNs : ℕ
  counter : ℕ
  pid : ℕ

abbrev Reader := Option Verified

inductive Status where
  | authenticated | missing | legacy | invalid | replay
  deriving DecidableEq

/-- A record that is older than the one that was verified last. -/
def Verified.regresses (v : Verified) (r : Record) : Bool :=
  r.tsNs < v.tsNs ∨ (r.tsNs = v.tsNs ∧ r.pid ≠ v.pid) ∨
    (r.pid = v.pid ∧ r.counter < v.counter ∧ ¬(0xFFFF0000 < v.counter ∧ r.counter < 0x0000FFFF))

/-- `authentication_status` under the reader's own key. -/
def Component.authenticationStatus (C : Component) (rd : Reader) (rec : Option Record)
    (updateReplayState : Bool) : Status × Reader :=
  match rec with
  | none => (.missing, rd)
  | some r =>
    if r.wireFlags &&& flagAuth = 0 then (.legacy, rd)
    else if r.wireFlags &&& (0xFFFFFFFF ^^^ flagKnown) ≠ 0 then (.invalid, rd)
    else if r.proof ≠ C.proofFor r.tsNs r.pid r.counter r.wireFlags then (.invalid, rd)
    else if rd.any (·.regresses r) then (.replay, rd)
    else (.authenticated, if updateReplayState then some ⟨r.tsNs, r.counter, r.pid⟩ else rd)

/-- One more record is presented; the last one that was authenticated is kept beside the reader. -/
def Component.present (C : Component) (w : Reader × Option Record) (rec : Option Record) :
    Reader × Option Record :=
  ((C.authenticationStatus w.1 rec true).2,
    if (C.authenticationStatus w.1 rec true).1 = .authenticated then rec else w.2)

/-- A new reader after some records. -/
def Component.after (C : Component) (recs : List (Option Record)) : Reader × Option Record :=
  recs.foldl C.present (none, none)

/-- What the reader says to a record that is presented after others. -/
def Component.answer (C : Component) (recs : List (Option Record)) (r : Record) : Status :=
  (C.authenticationStatus (C.after recs).1 (some r) true).1

/-! ### What the writers write -/

variable {C : Component} {processes : List Process} {v : Verified} {r : Record}

/-- The record passes every check but the one for replays. -/
structure Component.Genuine (C : Component) (r : Record) : Prop where
  version : r.wireFlags &&& flagAuth ≠ 0
  known : r.wireFlags &&& (0xFFFFFFFF ^^^ flagKnown) = 0
  proof : r.proof = C.proofFor r.tsNs r.pid r.counter r.wireFlags

theorem masked_succ {n : ℕ} (h : n + 1 < 2 ^ 31) : (n + 1) &&& 0xFFFFFFFF = n + 1 := by
  have hmod := Nat.and_two_pow_sub_one_eq_mod (n + 1) 32
  rw [Nat.mod_eq_of_lt (by omega)] at hmod
  exact hmod

theorem pack_genuine {tsNs pid counter flags : ℕ} (hversion : flags &&& flagAuth ≠ 0)
    (hknown : flags &&& (0xFFFFFFFF ^^^ flagKnown) = 0) :
    C.Genuine (C.pack tsNs pid counter flags) :=
  ⟨hversion, hknown, rfl⟩

theorem write_genuine (pid counter : ℕ) (w : Write) : C.Genuine (C.write pid counter w).2 := by
  cases w with
  | stop tsNs => exact pack_genuine (by decide) (by decide)
  | beat running tsNs =>
    cases running with
    | false => exact pack_genuine (by decide) (by decide)
    | true => exact pack_genuine (by decide) (by decide)

/-- The records of one process: its counters do not go down, and stay below the wrap. -/
theorem writeAll_spec (pid : ℕ) : ∀ {ws : List Write} {counter : ℕ},
    counter + ws.countP Write.isBeat < 2 ^ 31 →
      (∀ r ∈ C.writeAll pid counter ws, C.Genuine r ∧ r.pid = pid &&& 0xFFFFFFFF ∧
        counter ≤ r.counter ∧ r.counter < 2 ^ 31) ∧
      (C.writeAll pid counter ws).Pairwise fun a b => a.counter ≤ b.counter
  | [], _, _ => ⟨by simp [Component.writeAll], .nil⟩
  | w :: ws, counter, h => by
    have hnext : (C.write pid counter w).1 + ws.countP Write.isBeat < 2 ^ 31 ∧
        counter ≤ (C.write pid counter w).1 ∧
        (C.write pid counter w).2.counter = (C.write pid counter w).1 ∧
        (C.write pid counter w).2.pid = pid &&& 0xFFFFFFFF := by
      cases w with
      | stop tsNs => exact ⟨by simpa [Write.isBeat, Component.write] using h, le_rfl, rfl, rfl⟩
      | beat running tsNs =>
        simp only [List.countP_cons, Write.isBeat, if_true] at h
        simp only [Component.write, Component.pack, masked_succ (show counter + 1 < 2 ^ 31 by omega)]
        exact ⟨by omega, by omega, trivial, trivial⟩
    obtain ⟨hbound, hle, hcounter, hpid⟩ := hnext
    obtain ⟨hall, hsorted⟩ := writeAll_spec pid hbound
    rw [Component.writeAll]
    refine ⟨fun r hr => ?_, List.pairwise_cons.mpr ⟨fun r hr => ?_, hsorted⟩⟩
    · rcases List.mem_cons.mp hr with rfl | hr
      · exact ⟨write_genuine pid counter w, hpid, by omega, by omega⟩
      · obtain ⟨hgenuine, hpid', hle', hlt⟩ := hall r hr
        exact ⟨hgenuine, hpid', by omega, hlt⟩
    · rw [hcounter]
      exact (hall r hr).2.2.1

theorem written_genuine (h : Honest C processes) {x : ℕ × Record} (hx : x ∈ C.written processes) :
    C.Genuine x.2 ∧ x.2.counter < 2 ^ 31 := by
  obtain ⟨p, hp, hx⟩ := List.mem_flatMap.mp hx
  obtain ⟨r, hr, rfl⟩ := List.mem_map.mp hx
  have hbeats := h.beats p.1 (List.fst_mem_of_mem_zipIdx hp)
  obtain ⟨hgenuine, -, -, hlt⟩ := (writeAll_spec p.1.pid (by simpa using hbeats)).1 r hr
  exact ⟨hgenuine, hlt⟩

/-- Of two records of one process, the later one has its PID and no smaller counter. -/
theorem written_same (h : Honest C processes) : (C.written processes).Pairwise fun a b =>
    a.1 = b.1 → a.2.pid = b.2.pid ∧ a.2.counter ≤ b.2.counter := by
  rw [Component.written, List.pairwise_flatMap]
  constructor
  · intro p hp
    have hbeats := h.beats p.1 (List.fst_mem_of_mem_zipIdx hp)
    have hbound : 0 + p.1.all.countP Write.isBeat < 2 ^ 31 := by simpa using hbeats
    obtain ⟨hall, hsorted⟩ := writeAll_spec (C := C) p.1.pid hbound
    refine List.pairwise_map.mpr ((List.Pairwise.and_mem.mp hsorted).imp ?_)
    rintro a b ⟨ha, hb, hle⟩ -
    exact ⟨(hall a ha).2.1.trans (hall b hb).2.1.symm, hle⟩
  · have hindex : (processes.zipIdx.map Prod.snd).Pairwise (· < ·) := by
      rw [List.zipIdx_map_snd]
      exact List.pairwise_lt_range'
    refine (List.pairwise_map.mp hindex).imp ?_
    intro p q hlt x hx y hy he
    obtain ⟨a, -, rfl⟩ := List.mem_map.mp hx
    obtain ⟨b, -, rfl⟩ := List.mem_map.mp hy
    exact absurd he hlt.ne

/-! ### What the reader remembers -/

def Record.verified (r : Record) : Verified := ⟨r.tsNs, r.counter, r.pid⟩

/-- What a genuine record is called. -/
theorem status_genuine {rd : Reader} (h : C.Genuine r) :
    C.authenticationStatus rd (some r) true =
      if rd.any (·.regresses r) then (.replay, rd) else (.authenticated, some r.verified) := by
  rw [Component.authenticationStatus, if_neg h.version, if_neg (not_not_intro h.known),
    if_neg (not_not_intro h.proof)]
  rfl

/-- Only a genuine record is authenticated, and only if it does not regress. -/
theorem genuine_of_authenticated {rd : Reader}
    (h : (C.authenticationStatus rd (some r) true).1 = .authenticated) :
    C.Genuine r ∧ rd.any (·.regresses r) = false ∧
      (C.authenticationStatus rd (some r) true).2 = some r.verified := by
  by_cases hgenuine : C.Genuine r
  · rw [status_genuine hgenuine] at h ⊢
    split at h
    · cases h
    · rename_i hany
      rw [if_neg hany]
      exact ⟨hgenuine, by simpa using hany, rfl⟩
  · exfalso
    rw [Component.authenticationStatus] at h
    split at h
    · cases h
    · rename_i hversion
      split at h
      · cases h
      · rename_i hknown
        split at h
        · cases h
        · rename_i hproof
          exact hgenuine ⟨hversion, not_not.mp hknown, not_not.mp hproof⟩

theorem status_kept {rd : Reader} {rec : Option Record}
    (h : (C.authenticationStatus rd rec true).1 ≠ .authenticated) :
    (C.authenticationStatus rd rec true).2 = rd := by
  cases rec with
  | none => rfl
  | some r =>
    by_cases hgenuine : C.Genuine r
    · rw [status_genuine hgenuine] at h ⊢
      split
      · rfl
      · rename_i hany
        rw [if_neg hany] at h
        exact absurd rfl h
    · rw [Component.authenticationStatus]
      split
      · rfl
      · rename_i hversion
        split
        · rfl
        · rename_i hknown
          split
          · rfl
          · rename_i hproof
            exact absurd ⟨hversion, not_not.mp hknown, not_not.mp hproof⟩ hgenuine

/-- The reader compares with the last record that was authenticated. -/
theorem after_spec (recs : List (Option Record)) :
    (C.after recs).1 = (C.after recs).2.map Record.verified ∧
      ∀ l, (C.after recs).2 = some l → some l ∈ recs ∧ C.Genuine l := by
  induction recs using List.reverseRecOn with
  | nil => exact ⟨rfl, fun l hl => by cases hl⟩
  | append_singleton recs rec ih =>
    obtain ⟨hstate, hlast⟩ := ih
    rw [Component.after, List.foldl_append, List.foldl_cons, List.foldl_nil, ← Component.after,
      Component.present]
    by_cases hstatus : (C.authenticationStatus (C.after recs).1 rec true).1 = .authenticated
    · rw [if_pos hstatus]
      cases rec with
      | none => cases hstatus
      | some r =>
        obtain ⟨hgenuine, -, hnext⟩ := genuine_of_authenticated hstatus
        refine ⟨hnext, fun l hl => ?_⟩
        obtain rfl := Option.some.inj hl
        exact ⟨by simp, hgenuine⟩
    · rw [if_neg hstatus, status_kept hstatus]
      exact ⟨hstate, fun l hl => ⟨List.mem_append_left _ (hlast l hl).1, (hlast l hl).2⟩⟩

theorem answer_genuine (recs : List (Option Record)) (h : C.Genuine r) :
    C.answer recs r =
      if (C.after recs).2.any (·.verified.regresses r) then .replay else .authenticated := by
  rw [Component.answer, status_genuine h, (after_spec recs).1, Option.any_map]
  split <;> rfl

/-! ### Honest records and presented ones -/

/-- The record last authenticated has the PID of this one and a greater counter, and comes from
    another process: the PID was used again. -/
def Component.Reused (C : Component) (before : List (ℕ × Record)) (x : ℕ × Record) : Prop :=
  ∃ l ∈ before, (C.after (before.map fun y => some y.2)).2 = some l.2 ∧ l.1 ≠ x.1 ∧
    l.2.pid = x.2.pid ∧ x.2.counter < l.2.counter

/-- The process of this number has signed the fields of the record. -/
def Component.Signed (C : Component) (processes : List Process) (i : ℕ) (r : Record) : Prop :=
  ∃ x ∈ C.written processes, x.1 = i ∧ x.2.tsNs = r.tsNs ∧ x.2.pid = r.pid ∧
    x.2.counter = r.counter ∧ x.2.wireFlags = r.wireFlags

/-- HMAC is ideal: a proof fits only what was signed. -/
def Component.Unforged (C : Component) (processes : List Process) (r : Record) : Prop :=
  C.Genuine r → ∃ i, C.Signed processes i r

theorem regresses_iff {a b : ℕ × Record} (htime : a.2.tsNs ≤ b.2.tsNs ∧
      (a.1 ≠ b.1 → a.2.tsNs < b.2.tsNs)) (hsame : a.1 = b.1 → a.2.pid = b.2.pid ∧
      a.2.counter ≤ b.2.counter) (ha : a.2.counter < 2 ^ 31) :
    a.2.verified.regresses b.2 = true ↔
      a.1 ≠ b.1 ∧ a.2.pid = b.2.pid ∧ b.2.counter < a.2.counter := by
  rw [Verified.regresses, decide_eq_true_eq, Record.verified]
  dsimp only
  by_cases hab : a.1 = b.1
  · obtain ⟨hpid, hcounter⟩ := hsame hab
    constructor
    · rintro (hlt | ⟨-, hne⟩ | ⟨-, hlt, -⟩)
      · omega
      · exact absurd hpid.symm hne
      · omega
    · exact fun h => absurd hab h.1
  · have hlt := htime.2 hab
    constructor
    · rintro (hlt' | ⟨heq, -⟩ | ⟨hpid, hcounter, -⟩)
      · omega
      · omega
      · exact ⟨hab, hpid.symm, hcounter⟩
    · rintro ⟨-, hpid, hcounter⟩
      exact Or.inr (Or.inr ⟨hpid.symm, hcounter, by omega⟩)

/-- What the reader says of honest records, and what it lets pass of any records. -/
structure Reads (C : Component) (processes : List Process) : Prop where
  honest : ∀ before x after, (before ++ x :: after).Sublist (C.written processes) →
    (C.Reused before x → C.answer (before.map fun y => some y.2) x.2 = .replay) ∧
    (¬C.Reused before x → C.answer (before.map fun y => some y.2) x.2 = .authenticated)
  distinct : (processes.map fun p => p.pid &&& 0xFFFFFFFF).Nodup →
    ∀ before x after, (before ++ x :: after).Sublist (C.written processes) → ¬C.Reused before x
  presented : ∀ recs r l, C.answer recs r = .authenticated → (C.after recs).2 = some l →
    C.Unforged processes r → (∃ i, C.Signed processes i r) ∧ l.tsNs ≤ r.tsNs ∧
      ∀ i, C.Signed processes i l → C.Signed processes i r → l.counter ≤ r.counter

theorem honest_answer (h : Honest C processes) {before after : List (ℕ × Record)}
    {x : ℕ × Record} (hsub : (before ++ x :: after).Sublist (C.written processes)) :
    (C.Reused before x → C.answer (before.map fun y => some y.2) x.2 = .replay) ∧
    (¬C.Reused before x → C.answer (before.map fun y => some y.2) x.2 = .authenticated) := by
  have hx : x ∈ C.written processes := hsub.subset (by simp)
  rw [answer_genuine _ (written_genuine h hx).1]
  have hbefore : ∀ l ∈ before, (l.2.verified.regresses x.2 = true ↔
      l.1 ≠ x.1 ∧ l.2.pid = x.2.pid ∧ x.2.counter < l.2.counter) := by
    intro l hl
    have hmem : l ∈ C.written processes := hsub.subset (List.mem_append_left _ hl)
    have htime := (List.pairwise_append.mp (h.clock.sublist hsub)).2.2 l hl x List.mem_cons_self
    have hsame := (List.pairwise_append.mp ((written_same h).sublist hsub)).2.2 l hl x
      List.mem_cons_self
    exact regresses_iff htime hsame (written_genuine h hmem).2
  constructor
  · rintro ⟨l, hl, hlast, hreused⟩
    rw [hlast, if_pos]
    exact (hbefore l hl).mpr hreused
  · intro hfresh
    rw [if_neg]
    intro hany
    rcases hlast : (C.after (before.map fun y => some y.2)).2 with _ | q
    · rw [hlast] at hany
      cases hany
    · rw [hlast] at hany
      obtain ⟨l, hl, he⟩ := List.mem_map.mp ((after_spec _).2 q hlast).1
      obtain rfl := Option.some.inj he
      exact hfresh ⟨l, hl, hlast, (hbefore l hl).mp hany⟩

theorem written_mem {x : ℕ × Record} (hx : x ∈ C.written processes) :
    ∃ p, (p, x.1) ∈ processes.zipIdx ∧ x.2 ∈ C.writeAll p.pid 0 p.all := by
  obtain ⟨p, hp, hx⟩ := List.mem_flatMap.mp hx
  obtain ⟨r, hr, rfl⟩ := List.mem_map.mp hx
  exact ⟨p.1, hp, hr⟩

/-- A record has the PID of its process. -/
theorem written_pid (h : Honest C processes) {x : ℕ × Record} (hx : x ∈ C.written processes) :
    (processes.map fun p => p.pid &&& 0xFFFFFFFF)[x.1]? = some x.2.pid := by
  obtain ⟨p, hp, hr⟩ := written_mem hx
  have hbeats := h.beats p (List.fst_mem_of_mem_zipIdx hp)
  rw [List.getElem?_map, List.mk_mem_zipIdx_iff_getElem?.mp hp,
    ((writeAll_spec p.pid (by simpa using hbeats)).1 x.2 hr).2.1]
  rfl

/-- Where the PIDs differ, none is used again. -/
theorem not_reused (h : Honest C processes)
    (hpids : (processes.map fun p => p.pid &&& 0xFFFFFFFF).Nodup)
    {before after : List (ℕ × Record)} {x : ℕ × Record}
    (hsub : (before ++ x :: after).Sublist (C.written processes)) : ¬C.Reused before x := by
  rintro ⟨l, hl, -, hne, hpid, -⟩
  have hl' := written_pid h (hsub.subset (List.mem_append_left _ hl))
  have hx' := written_pid h (hsub.subset (by simp : x ∈ before ++ x :: after))
  rw [hpid, ← hx'] at hl'
  obtain ⟨hlt, -⟩ := List.getElem?_eq_some_iff.mp (hl'.trans hx')
  exact hne ((List.getElem?_inj hlt hpids).mp hl')

/-- Of two records of one process, neither wraps. -/
theorem signed_spec (h : Honest C processes) {i : ℕ} (hsigned : C.Signed processes i r) :
    (processes.map fun p => p.pid &&& 0xFFFFFFFF)[i]? = some r.pid ∧ r.counter < 2 ^ 31 := by
  obtain ⟨x, hx, rfl, -, hpid, hcounter, -⟩ := hsigned
  rw [← hpid, ← hcounter]
  exact ⟨written_pid h hx, (written_genuine h hx).2⟩

/-- What is authenticated was signed, and goes back neither in time nor, within one process, in its
    counter. -/
theorem authenticated_forward (h : Honest C processes) {recs : List (Option Record)} {l : Record}
    (hanswer : C.answer recs r = .authenticated) (hlast : (C.after recs).2 = some l)
    (hideal : C.Unforged processes r) : (∃ i, C.Signed processes i r) ∧ l.tsNs ≤ r.tsNs ∧
      ∀ i, C.Signed processes i l → C.Signed processes i r → l.counter ≤ r.counter := by
  obtain ⟨hgenuine, hforward, -⟩ := genuine_of_authenticated hanswer
  rw [(after_spec recs).1, hlast, Option.map_some, Option.any_some, Verified.regresses,
    decide_eq_false_iff_not, Record.verified, not_or, not_or] at hforward
  obtain ⟨htime, -, hcounter⟩ := hforward
  refine ⟨hideal hgenuine, not_lt.mp htime, fun i hl hr => ?_⟩
  obtain ⟨hpid, hbound⟩ := signed_spec h hl
  have hpid' := (signed_spec h hr).1
  rw [hpid] at hpid'
  by_contra hlt
  refine hcounter ⟨(Option.some.inj hpid').symm, not_le.mp hlt, fun hwrap => ?_⟩
  have := hwrap.1
  dsimp only at this
  omega

/-- CORRECT: every honest record is authenticated, unless a PID was used again and the process
    before had counted further; and no record is that goes back in time or, within its process, in
    its counter. -/
theorem honest_reads (h : Honest C processes) : Reads C processes where
  honest _ _ _ hsub := honest_answer h hsub
  distinct hpids _ _ _ hsub := not_reused h hpids hsub
  presented _ _ _ hanswer hlast hideal := authenticated_forward h hanswer hlast hideal

/-! ### A PID that is used again -/

/-- A proof that tells the fields apart. -/
def sample : Component :=
  ⟨fun tsNs pid counter flags => ((tsNs * 100 + pid) * 100 + counter) * 2 ^ 32 + flags⟩

def first : Process := ⟨7, 1, [.beat true 2, .beat false 4]⟩

/-- It has the PID of the first one. -/
def second : Process := ⟨7, 5, [.stop 6]⟩

theorem honest_reads_sample : Reads sample [first, second] :=
  honest_reads ⟨by decide, by decide⟩

/-- The second process starts at one, and its records are called replays. -/
theorem restart_is_replay : Honest sample [first, second] ∧
    ∃ before x after, (before ++ x :: after).Sublist (sample.written [first, second]) ∧
      sample.answer (before.map fun y => some y.2) x.2 = .replay :=
  ⟨⟨by decide, by decide⟩, (sample.written [first, second]).take 3,
    (1, (sample.write 7 0 (.beat true 5)).2), [(1, (sample.write 7 1 (.stop 6)).2)], by decide,
    by decide⟩

end Angerona.Heartbeat
