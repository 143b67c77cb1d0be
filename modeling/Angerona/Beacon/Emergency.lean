import Angerona.Beacon.Watch

/-!
    When the watcher sends, and that it sends once.

    The statements are about the log: what was accepted, the last answer of a probe, and the clock
    right after an item. One turn keeps `Sound`, and what ends the watch is `Closed`. -/

namespace Angerona.Beacon
open Text PyJson PyStr LoadedJson

/-! ### Reading a log -/

section Log

variable {T : Type}

def Event.sends : Event T → Bool
  | .sender _ => true
  | .beacon _ => true
  | _ => false

def Event.accepted : Event T → Option Body
  | .verified body => body
  | _ => none

def Event.message : Event T → Option Loaded
  | .got _ (some (.message m)) => some m
  | _ => none

def Event.reading : Event T → Option T
  | .clock now => some now
  | _ => none

def Event.isEof : Event T → Bool
  | .got _ (some .eof) => true
  | _ => false

def Event.authorized : Event T → Option Bool
  | .authority ok => some ok
  | _ => none

def Event.reached : Event T → Option Bool
  | .destination ok => some ok
  | _ => none

def Event.probed : Event T → Option Identity
  | .identity state => some state
  | _ => none

/-- The clock as it was read right after the last event of a kind. -/
def stampAfter (kind : Event T → Bool) : Log T → Option T
  | [] => none
  | e :: past => (if past.head?.any kind then e.reading else none).or (stampAfter kind past)

/-- The bodies that were accepted, the latest one first. -/
def acceptedBodies (log : Log T) : List Body := log.filterMap Event.accepted

/-- The messages that were consumed. -/
def messages (log : Log T) : List Loaded := log.filterMap Event.message

theorem stampAfter_skip {kind : Event T → Bool} {e : Event T} (he : e.reading = none)
    (past : Log T) : stampAfter kind (e :: past) = stampAfter kind past := by
  rw [stampAfter, he, ite_self, Option.none_or]

theorem stampAfter_clock {kind : Event T → Bool} {e : Event T} (he : kind e = false) (now : T)
    (past : Log T) : stampAfter kind (.clock now :: e :: past) = stampAfter kind (e :: past) := by
  rw [stampAfter, List.head?_cons, Option.any_some, he, if_neg Bool.false_ne_true, Option.none_or]

theorem stampAfter_hit {kind : Event T → Bool} {e : Event T} (he : kind e = true) (now : T)
    (past : Log T) : stampAfter kind (.clock now :: e :: past) = some now := by
  rw [stampAfter, List.head?_cons, Option.any_some, he, if_pos rfl]
  rfl

theorem sent_sends {p : Settings T} (reason : Reason) : (sent p reason : Event T).sends = true := by
  rw [sent]
  split <;> rfl

end Log

section Justified

variable {T : Type} [LinearOrder T] [Sub T]
variable (hmac : Json → Str) (repr : Double → Str) (run : Str) (p : Settings T)

/-- What allows a call that leaves the machine, from all the calls before it. -/
structure Justified (past : Log T) : Prop where
  heartbeat : ∃ m ∈ messages past, ∃ seq, Authentic hmac repr run m ⟨seq, .heartbeat⟩
  noStop : ∀ m ∈ messages past, ∀ seq, ¬Authentic hmac repr run m ⟨seq, .stop⟩
  authority : past.findSome? Event.authorized = some true
  destination : past.findSome? Event.reached = some true
  lost : past.findSome? Event.probed = some .gone ∨
    past.findSome? Event.probed = some .alive ∧ ∃ now, past.findSome? Event.reading = some now ∧
      ((∃ closed, stampAfter Event.isEof past = some closed ∧ p.eofExitGrace ≤ now - closed) ∨
        ∃ seen, stampAfter (fun e => e.accepted.isSome) past = some seen ∧
          p.heartbeatTimeout < now - seen)

/-- Every call that leaves the machine is justified, is the last call, and ends the watch with the
    reason that it sends. -/
def SentOnce (outcome : Option Reason) (log : Log T) : Prop :=
  ∀ later e past, log = later ++ e :: past → e.sends = true →
    later = [] ∧ Justified hmac repr run p past ∧
      ∃ reason, outcome = some reason ∧ reason.emergency = true ∧ e = sent p reason

end Justified

/-! ### The messages that are accepted -/

section Accepted

variable {hmac : Json → Str} {repr : Double → Str} {run : Str}

theorem kindOf_eq {value : Loaded} {kind : MessageKind} (h : kindOf value = some kind) :
    value = .str (ofStr kind.text) := by
  rw [kindOf] at h
  split at h
  · rename_i hk
    obtain rfl := Option.some.inj h
    exact strOf_eq hk
  · split at h
    · rename_i hk
      obtain rfl := Option.some.inj h
      exact strOf_eq hk
    · cases h

/-- What is accepted is authentic and newer than what was accepted before. -/
theorem verify_some {message : Loaded} {previous : ℤ} {b : Body}
    (h : verify hmac repr run message previous = some b) :
    Authentic hmac repr run message b ∧ previous < b.seq := by
  simp only [verify, Option.bind_eq_bind, Option.bind_eq_some_iff, Option.guard_eq_some',
    Option.pure_def, Option.some.injEq] at h
  obtain ⟨items, hitems, -, hfields, body, hbody, -, hbodyFields, -, hrun, seq, hseq, -, hnew, kind,
    hkind, mac, hmac, -, hlen, expected, hexpected, -, hsame, rfl⟩ := h
  subst hsame
  exact ⟨⟨items, body, dictOf_eq hitems, hfields, dictOf_eq hbody, hbodyFields, strOf_eq hrun,
    intOf_eq hseq, kindOf_eq hkind, expected, hexpected, strOf_eq hmac, hlen⟩, hnew⟩

theorem MessageKind.text_injective {k l : MessageKind} (h : ofStr k.text = ofStr l.text) : k = l := by
  cases k <;> cases l <;> first | rfl | exact absurd h (by decide)

/-- A message is authentic with one body. -/
theorem Authentic.unique {message : Loaded} {b c : Body} (hb : Authentic hmac repr run message b)
    (hc : Authentic hmac repr run message c) : b = c := by
  obtain ⟨items, body, rfl, -, hbody, -, -, hseq, hkind, -⟩ := hb
  obtain ⟨items', body', heq, -, hbody', -, -, hseq', hkind', -⟩ := hc
  obtain rfl := Loaded.dict.inj heq
  obtain rfl := Loaded.dict.inj (hbody.symm.trans hbody')
  obtain ⟨seq, kind⟩ := b
  obtain ⟨seq', kind'⟩ := c
  obtain rfl : seq = seq' := Loaded.int.inj (hseq.symm.trans hseq')
  obtain rfl : kind = kind' := MessageKind.text_injective (Loaded.str.inj (hkind.symm.trans hkind'))
  rfl

end Accepted

/-! ### One turn -/

section Turn

variable {T : Type}
variable {hmac : Json → Str} {repr : Double → Str} {run : Str}

variable (hmac repr run) in
/-- What holds between two calls of a watch that goes on. -/
structure Sound (s : Loop T) (log : Log T) : Prop where
  quiet : ∀ e ∈ log, e.sends = false
  fresh : ∀ b ∈ acceptedBodies log, b.seq ≤ s.previous
  increasing : (acceptedBodies log).Pairwise fun b a => a.seq < b.seq
  noStop : ∀ m ∈ messages log, ∀ seq, ¬Authentic hmac repr run m ⟨seq, .stop⟩
  heartbeat : s.authenticated = true →
    (∃ m ∈ messages log, ∃ seq, Authentic hmac repr run m ⟨seq, .heartbeat⟩) ∧
      stampAfter (fun e => e.accepted.isSome) log = some s.lastSeen
  closed : stampAfter Event.isEof log = s.eofAt

/-- A call that no part of `Sound` reads. -/
structure Event.Idle (e : Event T) : Prop where
  sends : e.sends = false
  accepted : e.accepted = none
  message : e.message = none
  reading : e.reading = none

variable {s : Loop T} {log : Log T}

theorem Sound.idle (h : Sound hmac repr run s log) {e : Event T} (he : e.Idle) :
    Sound hmac repr run s (e :: log) := by
  have hbodies : acceptedBodies (e :: log) = acceptedBodies log := by
    rw [acceptedBodies, List.filterMap_cons_none he.accepted, acceptedBodies]
  have hmessages : messages (e :: log) = messages log := by
    rw [messages, List.filterMap_cons_none he.message, messages]
  refine ⟨?_, hbodies ▸ h.fresh, hbodies ▸ h.increasing, hmessages ▸ h.noStop, ?_, ?_⟩
  · intro d hd
    rcases List.mem_cons.mp hd with rfl | hd
    · exact he.sends
    · exact h.quiet d hd
  · rw [hmessages, stampAfter_skip he.reading]
    exact h.heartbeat
  · rw [stampAfter_skip he.reading]
    exact h.closed

/-- The clock, read after neither a message nor the end of the file. -/
theorem Sound.clock {e : Event T} (h : Sound hmac repr run s (e :: log)) (he : e.accepted = none)
    (hf : e.isEof = false) (now : T) : Sound hmac repr run s (.clock now :: e :: log) := by
  refine ⟨?_, h.fresh, h.increasing, h.noStop, ?_, ?_⟩
  · intro d hd
    rcases List.mem_cons.mp hd with rfl | hd
    · rfl
    · exact h.quiet d hd
  · rw [stampAfter_clock (by rw [he]; rfl)]
    exact h.heartbeat
  · rw [stampAfter_clock hf]
    exact h.closed

/-- The end of the file, and the clock after it. -/
theorem Sound.eof (h : Sound hmac repr run s log) (wait now : T) :
    Sound hmac repr run { s with eofAt := some now }
      (.clock now :: .got wait (some .eof) :: log) := by
  have hgot : Sound hmac repr run s (.got wait (some .eof) :: log) := h.idle ⟨rfl, rfl, rfl, rfl⟩
  refine ⟨?_, h.fresh, h.increasing, h.noStop, ?_, stampAfter_hit rfl now log⟩
  · intro d hd
    rcases List.mem_cons.mp hd with rfl | hd
    · rfl
    · exact hgot.quiet d hd
  · rw [stampAfter_clock rfl]
    exact hgot.heartbeat

variable [LinearOrder T] [Sub T] {p : Settings T}

variable (hmac repr run p) in
/-- What holds when the watch ends. -/
structure Ended (reason : Reason) (log : Log T) : Prop where
  once : SentOnce hmac repr run p (some reason) log
  increasing : (acceptedBodies log).Pairwise fun b a => a.seq < b.seq
  silent : (∀ e ∈ log, e.sends = false) → reason.emergency = false

variable (hmac repr run p) in
def Kept (x : (Loop T ⊕ Reason) × Log T) : Prop :=
  x.1.elim (fun s => Sound hmac repr run s x.2) fun reason => Ended hmac repr run p reason x.2

/-- A log without a call that leaves the machine. -/
theorem SentOnce.of_quiet {outcome : Option Reason} {log : Log T}
    (h : ∀ e ∈ log, e.sends = false) : SentOnce hmac repr run p outcome log := by
  intro later e past heq he
  have hmem : e ∈ log := heq ▸ List.mem_append_right _ List.mem_cons_self
  rw [h e hmem] at he
  cases he

/-- The watch may end with a reason that is no emergency. -/
theorem Ended.of_quiet {reason : Reason} {log : Log T} (h : ∀ e ∈ log, e.sends = false)
    (hi : (acceptedBodies log).Pairwise fun b a => a.seq < b.seq)
    (hr : reason.emergency = false) : Ended hmac repr run p reason log :=
  ⟨.of_quiet h, hi, fun _ => hr⟩

variable {w : World T}

/-- A message is accepted, or ends the watch. -/
theorem accept_kept {wait : T} {m : Loaded} (h : Sound hmac repr run s log) :
    Kept hmac repr run p (accept hmac repr run w s (.got wait (some (.message m)) :: log) m) := by
  have hquiet : ∀ body, ∀ e ∈ (.verified body :: .got wait (some (.message m)) :: log : Log T),
      e.sends = false := by
    intro body e he
    rcases List.mem_cons.mp he with rfl | he
    · rfl
    · rcases List.mem_cons.mp he with rfl | he
      · rfl
      · exact h.quiet e he
  rw [accept]
  split
  · exact .of_quiet (hquiet none) h.increasing rfl
  · rename_i body hbody
    obtain ⟨hauthentic, hnew⟩ := verify_some hbody
    have hincreasing : (body :: acceptedBodies log).Pairwise fun b a => a.seq < b.seq := by
      refine List.pairwise_cons.mpr ⟨fun b hb => ?_, h.increasing⟩
      have hle := h.fresh b hb
      omega
    dsimp only
    generalize w.clock _ = seen
    have hclock : ∀ e ∈ (.clock seen :: .verified (some body) ::
        .got wait (some (.message m)) :: log : Log T), e.sends = false := by
      intro e he
      rcases List.mem_cons.mp he with rfl | he
      · rfl
      · exact hquiet (some body) e he
    split
    · exact .of_quiet hclock hincreasing rfl
    · rename_i hkind
      have hbeat : body.kind = .heartbeat := by
        cases hk : body.kind
        · rfl
        · exact absurd hk hkind
      have hnext : Sound hmac repr run ⟨seen, body.seq, true, s.eofAt, false⟩
          (.clock seen :: .verified (some body) :: .got wait (some (.message m)) :: log) := by
        refine ⟨hclock, ?_, hincreasing, ?_, fun _ => ⟨⟨m, List.mem_cons_self, body.seq, ?_⟩,
          stampAfter_hit rfl _ _⟩, ?_⟩
        · intro b hb
          rcases List.mem_cons.mp hb with rfl | hb
          · exact le_refl _
          · have hle := h.fresh b hb
            change b.seq ≤ body.seq
            omega
        · intro d hd seq hstop
          rcases List.mem_cons.mp hd with rfl | hd
          · have hsame := hauthentic.unique hstop
            rw [hsame] at hkind
            exact hkind rfl
          · exact h.noStop d hd seq hstop
        · rw [← hbeat]
          exact hauthentic
        · rw [stampAfter_clock rfl, stampAfter_skip rfl, stampAfter_skip rfl]
          exact h.closed
      split
      · exact hnext.idle ⟨rfl, rfl, rfl, rfl⟩
      · exact hnext

/-- The probes before the incident, after a reading of the clock. -/
theorem egress_kept (h : Sound hmac repr run s log) (hs : s.authenticated = true)
    {identity : Identity} {reason : Reason} (hr : reason.emergency = true) {now : T}
    (hid : log.findSome? Event.probed = some identity)
    (hnow : log.findSome? Event.reading = some now)
    (hlost : identity = .gone ∨ identity = .alive ∧
      ((∃ closed, s.eofAt = some closed ∧ p.eofExitGrace ≤ now - closed) ∨
        p.heartbeatTimeout < now - s.lastSeen)) :
    Kept hmac repr run p (egress p w reason log) := by
  rw [egress]
  have hauth := h.idle (e := .authority (w.authority log)) ⟨rfl, rfl, rfl, rfl⟩
  dsimp only
  split
  · exact .of_quiet hauth.quiet hauth.increasing rfl
  · rename_i hok
    rw [Bool.not_eq_true', Bool.not_eq_false] at hok
    have hdest := hauth.idle
      (e := .destination (w.destination (.authority (w.authority log) :: log))) ⟨rfl, rfl, rfl, rfl⟩
    split
    · exact .of_quiet hdest.quiet hdest.increasing rfl
    · rename_i hreached
      rw [Bool.not_eq_true', Bool.not_eq_false] at hreached
      refine ⟨fun later e past heq he => ?_, ?_, fun hquiet => ?_⟩
      · rcases later with _ | ⟨d, later⟩
        · obtain ⟨rfl, rfl⟩ := List.cons.inj heq
          refine ⟨rfl, ⟨(h.heartbeat hs).1, h.noStop, ?_, ?_, ?_⟩, reason, rfl, hr, rfl⟩
          · rw [hok]
            rfl
          · rw [hreached]
            rfl
          · have hbeat := (h.heartbeat hs).2
            rw [List.findSome?_cons_of_isNone rfl, List.findSome?_cons_of_isNone rfl, hid,
              List.findSome?_cons_of_isNone rfl, List.findSome?_cons_of_isNone rfl, hnow,
              stampAfter_skip rfl, stampAfter_skip rfl, stampAfter_skip rfl, stampAfter_skip rfl,
              hbeat, h.closed]
            rcases hlost with rfl | ⟨rfl, hclosed | hsilent⟩
            · exact .inl rfl
            · exact .inr ⟨rfl, now, rfl, .inl hclosed⟩
            · exact .inr ⟨rfl, now, rfl, .inr ⟨s.lastSeen, rfl, hsilent⟩⟩
        · have hmem : e ∈ later ++ e :: past := List.mem_append_right _ List.mem_cons_self
          have htail := (List.cons.inj heq).2
          rw [hdest.quiet e (htail ▸ hmem)] at he
          cases he
      · rw [acceptedBodies, List.filterMap_cons_none (by rw [sent]; split <;> rfl)]
        exact hdest.increasing
      · have hsent := hquiet _ List.mem_cons_self
        rw [sent_sends] at hsent
        cases hsent

theorem judge_kept (h : Sound hmac repr run s log) : Kept hmac repr run p (judge p w s log) := by
  rw [judge]
  have hauth := h.idle (e := .authority (w.authority log)) ⟨rfl, rfl, rfl, rfl⟩
  dsimp only
  split
  · exact .of_quiet hauth.quiet hauth.increasing rfl
  · generalize hid : w.identity (.authority (w.authority log) :: log) = identity
    have hprobe := hauth.idle (e := .identity identity) ⟨rfl, rfl, rfl, rfl⟩
    generalize hnow : w.clock (.identity identity :: .authority (w.authority log) :: log) = now
    have hread := hprobe.clock rfl rfl now
    split
    · exact .of_quiet hprobe.quiet hprobe.increasing rfl
    · rename_i hsure
      split
      · split
        · exact .of_quiet hprobe.quiet hprobe.increasing rfl
        · split
          · exact .of_quiet hread.quiet hread.increasing rfl
          · exact hread
      · rename_i hs
        rw [Bool.not_eq_true', Bool.not_eq_false] at hs
        rw [alert]
        split
        · rename_i hgone
          exact egress_kept hread hs rfl rfl rfl (.inl hgone)
        · rename_i hgone
          have halive : identity = .alive := by
            cases identity <;> simp_all
          split
          · rename_i hlost
            refine egress_kept hread hs rfl rfl rfl (.inr ⟨halive, ?_⟩)
            rw [Option.any_eq_true] at hlost
            rcases hlost with ⟨closed, hclosed, hle⟩ | hsilent
            · exact .inl ⟨closed, hclosed, of_decide_eq_true hle⟩
            · exact .inr hsilent
          · exact hread

variable [Zero T]

theorem Sound.waiting (h : Sound hmac repr run s log) {e : Event T} (he : e.Idle)
    (hf : e.isEof = false) : Sound hmac repr run s (waiting p w s (e :: log)).2 := by
  rw [Beacon.waiting]
  split
  · exact h.idle he
  · exact (h.idle he).clock he.accepted hf _

/-- One turn goes on from what holds, or ends as the watch may. -/
theorem turn_kept (h : Sound hmac repr run s log) :
    Kept hmac repr run p (turn hmac repr run p w s log) := by
  have hfault := h.idle (e := .fault (w.fault log)) ⟨rfl, rfl, rfl, rfl⟩
  have hwait : Sound hmac repr run s (waiting p w s (.fault (w.fault log) :: log)).2 :=
    h.waiting ⟨rfl, rfl, rfl, rfl⟩ rfl
  rw [turn]
  dsimp only
  split
  · exact .of_quiet hfault.quiet hfault.increasing rfl
  · generalize w.item _ _ = item
    split
    · exact judge_kept (hwait.idle ⟨rfl, rfl, rfl, rfl⟩)
    · have hinvalid := hwait.idle (e := .got (waiting p w s (.fault (w.fault log) :: log)).1
        (some .invalid)) ⟨rfl, rfl, rfl, rfl⟩
      exact .of_quiet hinvalid.quiet hinvalid.increasing rfl
    · exact judge_kept (hwait.eof _ _)
    · exact accept_kept hwait

end Turn

/-! ### The whole watch -/

section Watch

variable {T : Type} [LinearOrder T] [Sub T] [Zero T]
variable {hmac : Json → Str} {repr : Double → Str} {run : Str} {p : Settings T} {w : World T}

/-- After any number of turns. -/
theorem loop_kept (n : ℕ) : ∀ {s : Loop T} {log : Log T}, Sound hmac repr run s log →
    (loop hmac repr run p w n s log).1.elim
      (∃ t, Sound hmac repr run t (loop hmac repr run p w n s log).2)
      fun reason => Ended hmac repr run p reason (loop hmac repr run p w n s log).2 := by
  induction n with
  | zero => exact fun h => ⟨_, h⟩
  | succ n ih =>
    intro s log h
    have hturn : Kept hmac repr run p (turn hmac repr run p w s log) := turn_kept h
    rw [Kept] at hturn
    rw [loop]
    rcases ht : (turn hmac repr run p w s log).1 with next | reason
    · rw [ht, Sum.elim_inl] at hturn
      rw [Sum.elim_inl]
      exact ih hturn
    · rw [ht, Sum.elim_inr] at hturn
      rw [Sum.elim_inr]
      exact hturn

/-- CORRECT: a watch calls out at most once, at its end and with the reason it returns, and only
    when a heartbeat of this run was authenticated, no stop was consumed, both probes before it
    succeeded, and the process was gone, or alive and closed or silent for too long. Accepted
    sequence numbers increase, and a watch that does not call out ends with no emergency. -/
theorem sends_once (hmac : Json → Str) (repr : Double → Str) (run : Str) (p : Settings T)
    (w : World T) (onReady : Bool) (n : ℕ) :
    SentOnce hmac repr run p (consumeWatchMessages hmac repr run p w onReady n).1
        (consumeWatchMessages hmac repr run p w onReady n).2 ∧
      ((acceptedBodies (consumeWatchMessages hmac repr run p w onReady n).2).Pairwise
        fun b a => a.seq < b.seq) ∧
      ∀ reason, (consumeWatchMessages hmac repr run p w onReady n).1 = some reason →
        (∀ e ∈ (consumeWatchMessages hmac repr run p w onReady n).2, e.sends = false) →
          reason.emergency = false := by
  have hstart : Sound hmac repr run ⟨w.clock [], 0, false, none, onReady⟩ [.clock (w.clock [])] :=
    ⟨by simp [Event.sends], by simp [acceptedBodies, Event.accepted],
      List.Pairwise.nil, by simp [messages, Event.message], by simp, rfl⟩
  have hrun := @loop_kept _ _ _ _ _ _ _ p w n _ _ hstart
  rw [consumeWatchMessages]
  rcases ho : (loop hmac repr run p w n ⟨w.clock [], 0, false, none, onReady⟩
    [.clock (w.clock [])]).1 with _ | reason
  · rw [ho] at hrun
    obtain ⟨t, ht⟩ := hrun
    exact ⟨.of_quiet ht.quiet, ht.increasing, fun reason hr => by cases hr⟩
  · rw [ho] at hrun
    refine ⟨hrun.once, hrun.increasing, fun r hr => ?_⟩
    obtain rfl := Option.some.inj hr
    exact hrun.silent

/-- A heartbeat of the run `r`, under an HMAC that is always the same. -/
def sampleMessage : Loaded :=
  .dict [(ofStr "body".toList, .dict [(ofStr "run".toList, .str (ofStr ['r'])),
      (ofStr "seq".toList, .int 1), (ofStr "kind".toList, .str (ofStr "heartbeat".toList))]),
    (ofStr "mac".toList, .str (ofStr (List.replicate 64 '0')))]

/-- The heartbeat, and then a process that is gone. -/
def sampleWorld : World ℤ where
  fault _ := false
  clock log := log.length
  item log _ := if log.length = 2 then some (.message sampleMessage) else none
  authority _ := true
  identity _ := .gone
  destination _ := true

example : (consumeWatchMessages (fun _ => List.replicate 64 '0') (fun _ => []) ['r']
    ⟨7, 1, 120, 2, true⟩ sampleWorld true 2).1 = some .engineExit := by decide +kernel

end Watch

end Angerona.Beacon
